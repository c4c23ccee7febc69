import Splice.RequestParser
import Mathlib.Data.Nat.Digits.Defs

/-!
# Splice.RequestGrammar

The grammar of HTTP requests.  `RequestText` is a derivation, with the bytes that it stands
for and the request that it assigns to them.  The classes of the bytes are fields of the
structures, so only texts of the grammar can be built.
-/

namespace Splice

/-! ## Classes of bytes -/

def isControl (b : UInt8) : Bool := b ≤ 31 || b == 127

def isSeparator (b : UInt8) : Bool := (chars "()<>@,;:\\\"/[]?=\x7b\x7d \t").contains b

def isToken (b : UInt8) : Bool := b ≤ 127 && !isControl b && !isSeparator b

def isBlank (b : UInt8) : Bool := b == ' '.toUInt8 || b == '\t'.toUInt8

def isUri (b : UInt8) : Bool := !isControl b && b != ' '.toUInt8

def isValue (b : UInt8) : Bool := !isControl b

def isDecimal (b : UInt8) : Bool := '0'.toUInt8 ≤ b && b ≤ '9'.toUInt8

def crlf : List UInt8 := ['\r'.toUInt8, '\n'.toUInt8]

/-- The number that decimal digits stand for. -/
def decimalValue (digits : List UInt8) : Nat :=
  Nat.ofDigits 10 (digits.map fun b => b.toNat - '0'.toNat).reverse

/-! ## Texts -/

/-- A continuation of a header line. -/
structure Continuation where
  lws : List UInt8
  text : List UInt8
  lws_ne_nil : lws ≠ []
  lws_blank : ∀ b ∈ lws, isBlank b
  text_value : ∀ b ∈ text, isValue b
  text_head : ∀ b ∈ text.head?, isBlank b = false

/-- A header line and its continuations. -/
structure HeaderLines where
  name : List UInt8
  value : List UInt8
  continuations : List Continuation
  name_ne_nil : name ≠ []
  name_token : ∀ b ∈ name, isToken b
  value_value : ∀ b ∈ value, isValue b

/-- A request as it stands on the wire. -/
structure RequestText where
  method : List UInt8
  uri : List UInt8
  major : List UInt8
  minor : List UInt8
  headers : List HeaderLines
  method_ne_nil : method ≠ []
  method_token : ∀ b ∈ method, isToken b
  uri_uri : ∀ b ∈ uri, isUri b
  major_ne_nil : major ≠ []
  major_decimal : ∀ b ∈ major, isDecimal b
  minor_ne_nil : minor ≠ []
  minor_decimal : ∀ b ∈ minor, isDecimal b

namespace Continuation

def bytes (c : Continuation) : List UInt8 := c.lws ++ c.text ++ crlf

end Continuation

namespace HeaderLines

def bytes (h : HeaderLines) : List UInt8 :=
  h.name ++ chars ": " ++ h.value ++ crlf ++ h.continuations.flatMap Continuation.bytes

/-- The header assigned: the text of the continuations is appended to the value. -/
def header (h : HeaderLines) : Header where
  name := h.name
  value := h.value ++ h.continuations.flatMap Continuation.text

end HeaderLines

namespace RequestText

def bytes (m : RequestText) : List UInt8 :=
  m.method ++ chars " " ++ m.uri ++ chars " HTTP/" ++ m.major ++ chars "." ++ m.minor ++ crlf ++
    m.headers.flatMap HeaderLines.bytes ++ crlf

/-- The request assigned. -/
def request (m : RequestText) : Request where
  method := m.method
  uri := m.uri
  httpVersionMajor := decimalValue m.major
  httpVersionMinor := decimalValue m.minor
  headers := m.headers.map HeaderLines.header

end RequestText

/-- The requests on the wire. -/
def isRequest (text : List UInt8) : Prop := ∃ m : RequestText, m.bytes = text

/-- Some request begins with `text`. -/
def beginsRequest (text : List UInt8) : Prop := ∃ more, isRequest (text ++ more)

end Splice

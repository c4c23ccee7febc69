import Splice.RequestGrammar
import Splice.Rfc6455Engine
import Splice.HttpServer
import Splice.Lib.Recognizer
import Mathlib.Data.Nat.Digits.Lemmas
import Mathlib.Data.List.Induction

/-!
# Splice.RequestLanguage

The request parser against the grammar.  `remaining` says for each of its twenty states
which texts are still to be read; one step takes the first byte off them
(`remaining_cons`), and what a whole call answers follows (`recognizes`).
-/

namespace Splice

open Incremental

namespace RequestParser

/-! ## The parser's predicates -/

@[simp] theorem notToken_eq (b : UInt8) : notToken b = !isToken b := by
  revert b
  exact forall_uInt8 (by decide +kernel)

@[simp] theorem isCtl_intOf (b : UInt8) : isCtl (intOf b) = isControl b := by
  revert b
  exact forall_uInt8 (by decide +kernel)

@[simp] theorem isDigit_intOf (b : UInt8) : isDigit (intOf b) = isDecimal b := by
  revert b
  exact forall_uInt8 (by decide +kernel)

/-- The value of a digit is its distance from `0`. -/
theorem intOf_of_isDecimal (b : UInt8) (h : isDecimal b) :
    intOf b - 48 = ((b.toNat - '0'.toNat : Nat) : Int) := by
  revert b
  exact forall_uInt8 (by decide +kernel)

/-! ## What remains to be read -/

/-- Texts that may follow, with the request that comes of them. -/
abbrev Text := List UInt8 → Request → Prop

/-- Append to the name of the last header. -/
def appendName (req : Request) (text : List UInt8) : Request :=
  req.modifyBack fun header => { header with name := header.name ++ text }

/-- Append to the value of the last header. -/
def appendValue (req : Request) (text : List UInt8) : Request :=
  req.modifyBack fun header => { header with value := header.value ++ text }

def appendHeaders (req : Request) (headers : List Header) : Request :=
  { req with headers := req.headers ++ headers }

/-- Append decimal digits to a version number. -/
def appendDigits (n : Int) (digits : List UInt8) : Int :=
  digits.foldl (fun n b => n * 10 + intOf b - 48) n

/-- One character, then `K`. -/
def after (c : Char) (K : Text) : Text := one (· == c.toUInt8) fun _ => K

namespace Remaining

def expectingNewline3 (req : Request) : Text := after '\n' fun w r => w = [] ∧ r = req

/-- Continuations, if there is something to continue, header lines and the empty line. -/
def headerLineStart (req : Request) : Text := fun w r =>
  ∃ (continuations : List Continuation) (headers : List HeaderLines),
    (continuations ≠ [] → req.headers ≠ []) ∧
      w = continuations.flatMap Continuation.bytes ++ headers.flatMap HeaderLines.bytes ++ crlf ∧
      r = appendHeaders (appendValue req (continuations.flatMap Continuation.text))
        (headers.map HeaderLines.header)

def expectingNewline2 (req : Request) : Text := after '\n' (headerLineStart req)

def headerValue (req : Request) : Text :=
  upto isValue '\r'.toUInt8 fun value => expectingNewline2 (appendValue req value)

/-- Blanks, then a text that begins with none. -/
def headerLws (req : Request) : Text := fun w r =>
  ∃ blanks text w', (∀ b ∈ blanks, isBlank b) ∧ (∀ b ∈ text, isValue b) ∧
    (∀ b ∈ text.head?, isBlank b = false) ∧ w = blanks ++ (text ++ '\r'.toUInt8 :: w') ∧
      expectingNewline2 (appendValue req text) w' r

def spaceBeforeHeaderValue (req : Request) : Text := after ' ' (headerValue req)

def headerName (req : Request) : Text :=
  upto isToken ':'.toUInt8 fun name => spaceBeforeHeaderValue (appendName req name)

def expectingNewline1 (req : Request) : Text := after '\n' (headerLineStart req)

def httpVersionMinor (req : Request) : Text :=
  upto isDecimal '\r'.toUInt8 fun digits =>
    expectingNewline1 { req with httpVersionMinor := appendDigits req.httpVersionMinor digits }

def httpVersionMinorStart (req : Request) : Text :=
  one isDecimal fun b =>
    httpVersionMinor { req with httpVersionMinor := appendDigits req.httpVersionMinor [b] }

def httpVersionMajor (req : Request) : Text :=
  upto isDecimal '.'.toUInt8 fun digits =>
    httpVersionMinorStart { req with httpVersionMajor := appendDigits req.httpVersionMajor digits }

def httpVersionMajorStart (req : Request) : Text :=
  one isDecimal fun b =>
    httpVersionMajor { req with httpVersionMajor := appendDigits req.httpVersionMajor [b] }

def httpVersionSlash (req : Request) : Text :=
  after '/' (httpVersionMajorStart { req with httpVersionMajor := 0, httpVersionMinor := 0 })

def httpVersionP (req : Request) : Text := after 'P' (httpVersionSlash req)

def httpVersionT2 (req : Request) : Text := after 'T' (httpVersionP req)

def httpVersionT1 (req : Request) : Text := after 'T' (httpVersionT2 req)

def httpVersionH (req : Request) : Text := after 'H' (httpVersionT1 req)

def uri (req : Request) : Text :=
  upto isUri ' '.toUInt8 fun uri => httpVersionH { req with uri := req.uri ++ uri }

def method (req : Request) : Text :=
  upto isToken ' '.toUInt8 fun method => uri { req with method := req.method ++ method }

def methodStart (req : Request) : Text :=
  one isToken fun b => method { req with method := req.method ++ [b] }

end Remaining

/-- The texts that the parser still has to read in a state. -/
def remaining : State × Request → Text
  | (.methodStart, req) => Remaining.methodStart req
  | (.method, req) => Remaining.method req
  | (.uri, req) => Remaining.uri req
  | (.httpVersionH, req) => Remaining.httpVersionH req
  | (.httpVersionT1, req) => Remaining.httpVersionT1 req
  | (.httpVersionT2, req) => Remaining.httpVersionT2 req
  | (.httpVersionP, req) => Remaining.httpVersionP req
  | (.httpVersionSlash, req) => Remaining.httpVersionSlash req
  | (.httpVersionMajorStart, req) => Remaining.httpVersionMajorStart req
  | (.httpVersionMajor, req) => Remaining.httpVersionMajor req
  | (.httpVersionMinorStart, req) => Remaining.httpVersionMinorStart req
  | (.httpVersionMinor, req) => Remaining.httpVersionMinor req
  | (.expectingNewline1, req) => Remaining.expectingNewline1 req
  | (.headerLineStart, req) => Remaining.headerLineStart req
  | (.headerLws, req) => Remaining.headerLws req
  | (.headerName, req) => Remaining.headerName req
  | (.spaceBeforeHeaderValue, req) => Remaining.spaceBeforeHeaderValue req
  | (.headerValue, req) => Remaining.headerValue req
  | (.expectingNewline2, req) => Remaining.expectingNewline2 req
  | (.expectingNewline3, req) => Remaining.expectingNewline3 req

/-! ## Requests as they are filled -/

theorem modifyBack_id (req : Request) : req.modifyBack (fun header => header) = req := by
  cases req with
  | mk method uri major minor headers =>
      rcases List.eq_nil_or_concat headers with rfl | ⟨headers, last, rfl⟩
      · simp [Request.modifyBack]
      · simp [Request.modifyBack]

/-- Two changes of the last header are one. -/
theorem modifyBack_modifyBack (req : Request) (f g : Header → Header) :
    (req.modifyBack f).modifyBack g = req.modifyBack fun header => g (f header) := by
  rcases List.eq_nil_or_concat req.headers with h | ⟨headers, last, h⟩
  · simp [Request.modifyBack, h]
  · simp [Request.modifyBack, h]

@[simp] theorem appendName_appendHeaders (req : Request) (header : Header) (text : List UInt8) :
    appendName (appendHeaders req [header]) text =
      appendHeaders req [⟨header.name ++ text, header.value⟩] := by
  simp [appendName, Request.modifyBack, appendHeaders]

@[simp] theorem appendValue_appendHeaders (req : Request) (header : Header) (text : List UInt8) :
    appendValue (appendHeaders req [header]) text =
      appendHeaders req [⟨header.name, header.value ++ text⟩] := by
  simp [appendValue, Request.modifyBack, appendHeaders]

@[simp] theorem appendValue_nil (req : Request) : appendValue req [] = req := by
  simpa [appendValue] using modifyBack_id req

@[simp] theorem appendValue_appendValue (req : Request) (text more : List UInt8) :
    appendValue (appendValue req text) more = appendValue req (text ++ more) := by
  simp [appendValue, modifyBack_modifyBack]

@[simp] theorem appendName_nil (req : Request) : appendName req [] = req := by
  simpa [appendName] using modifyBack_id req

@[simp] theorem appendName_appendName (req : Request) (text more : List UInt8) :
    appendName (appendName req text) more = appendName req (text ++ more) := by
  simp [appendName, modifyBack_modifyBack]

@[simp] theorem headers_appendValue (req : Request) (text : List UInt8) :
    (appendValue req text).headers = [] ↔ req.headers = [] := by
  rcases List.eq_nil_or_concat req.headers with h | ⟨headers, last, h⟩
  · simp [appendValue, Request.modifyBack, h]
  · simp [appendValue, Request.modifyBack, h]

@[simp] theorem appendHeaders_nil (req : Request) : appendHeaders req [] = req := by
  simp [appendHeaders]

@[simp] theorem appendHeaders_appendHeaders (req : Request) (headers more : List Header) :
    appendHeaders (appendHeaders req headers) more = appendHeaders req (headers ++ more) := by
  simp [appendHeaders]

theorem pushName_eq (req : Request) (b : UInt8) : req.pushName b = appendName req [b] := rfl

theorem pushValue_eq (req : Request) (b : UInt8) : req.pushValue b = appendValue req [b] := rfl

/-- A new header gets its name and its value. -/
theorem appendValue_appendName_pushHeader (req : Request) (name value : List UInt8) :
    appendValue (appendName req.pushHeader name) value = appendHeaders req [⟨name, value⟩] := by
  have hpush : req.pushHeader = appendHeaders req [⟨[], []⟩] := rfl
  simp [hpush]

/-- Digits read from zero on are a decimal number. -/
theorem appendDigits_zero {digits : List UInt8} (h : ∀ b ∈ digits, isDecimal b) :
    appendDigits 0 digits = decimalValue digits := by
  induction digits using List.reverseRecOn with
  | nil => rfl
  | append_singleton digits b ih =>
      have hb : intOf b - 48 = ((b.toNat - '0'.toNat : Nat) : Int) :=
        intOf_of_isDecimal b (h b (by simp))
      have hdigits := ih fun b hb => h b (by simp [hb])
      have hsnoc : appendDigits 0 (digits ++ [b]) = appendDigits 0 digits * 10 + intOf b - 48 := by
        simp [appendDigits]
      have hvalue : decimalValue (digits ++ [b]) =
          (b.toNat - '0'.toNat) + 10 * decimalValue digits := by
        simp [decimalValue, Nat.ofDigits_cons]
      rw [hsnoc, hvalue, hdigits, Int.natCast_add, ← hb]
      push_cast
      omega

/-- The first digit and the ones after it are read in different states. -/
theorem decimalValue_cons {b : UInt8} {digits : List UInt8} (hb : isDecimal b)
    (h : ∀ b ∈ digits, isDecimal b) :
    (decimalValue (b :: digits) : Int) = appendDigits (appendDigits 0 [b]) digits := by
  have hall : ∀ c ∈ b :: digits, isDecimal c := by simpa [hb] using h
  rw [← appendDigits_zero hall]
  rfl

/-! ## One step -/

/-- A state that expects a character is followed by that character and what the next state reads. -/
theorem remaining_expect (c : Char) (stay go : State) (req : Request) (input : UInt8)
    (w : List UInt8) (r : Request) :
    after c (remaining (go, req)) (input :: w) r ↔
      left Prod.snd remaining (expect c stay go req input) w r := by
  by_cases h : input = c.toUInt8
  · simp [after, expect, left, h]
  · simp [after, expect, left, h]

/-- Header lines that begin with a continuation. -/
theorem continuation_iff {req r : Request} {b : UInt8} {w : List UInt8} :
    (isBlank b ∧ Remaining.headerLws req w r) ↔
      ∃ (c : Continuation) (w' : List UInt8), b :: w = c.bytes ++ w' ∧
        Remaining.headerLineStart (appendValue req c.text) w' r := by
  constructor
  · rintro ⟨hb, blanks, text, w', hblanks, htext, hhead, rfl, hline⟩
    obtain ⟨n, w', hn, rfl, hline⟩ := hline
    rw [beq_iff_eq.mp hn]
    refine ⟨⟨b :: blanks, text, by simp, by simpa [hb] using hblanks, htext, hhead⟩, w', ?_, hline⟩
    simp [Continuation.bytes, crlf]
  · rintro ⟨c, w', hw, hline⟩
    obtain ⟨b', blanks, hlws⟩ := List.exists_cons_of_ne_nil c.lws_ne_nil
    have hblank := c.lws_blank
    rw [hlws, List.forall_mem_cons] at hblank
    rw [Continuation.bytes, hlws] at hw
    obtain ⟨rfl, rfl⟩ := List.cons.inj hw
    refine ⟨hblank.1, blanks, c.text, '\n'.toUInt8 :: w', hblank.2, c.text_value, c.text_head, ?_,
      one_cons.mpr ⟨by simp, hline⟩⟩
    simp [crlf]

theorem chars_separator : chars ": " = [':'.toUInt8, ' '.toUInt8] := by decide

/-- Header lines that begin with a header. -/
theorem header_iff {req r : Request} {b : UInt8} {w : List UInt8} :
    (isToken b ∧ Remaining.headerName (req.pushHeader.pushName b) w r) ↔
      ∃ name value w', name ≠ [] ∧ (∀ b ∈ name, isToken b) ∧ (∀ b ∈ value, isValue b) ∧
        b :: w = name ++ chars ": " ++ value ++ crlf ++ w' ∧
          Remaining.headerLineStart (appendHeaders req [⟨name, value⟩]) w' r := by
  constructor
  · rintro ⟨hb, name, w₁, hname, rfl, hspace⟩
    obtain ⟨s, w₂, hs, rfl, value, w₃, hvalue, rfl, hnewline⟩ := hspace
    obtain ⟨n, w', hn, rfl, hline⟩ := hnewline
    rw [pushName_eq, appendName_appendName, appendValue_appendName_pushHeader] at hline
    rw [beq_iff_eq.mp hs, beq_iff_eq.mp hn]
    refine ⟨b :: name, value, w', by simp, by simpa [hb] using hname, hvalue, ?_, hline⟩
    simp [crlf, chars_separator]
  · rintro ⟨name, value, w', hne, hname, hvalue, hw, hline⟩
    obtain ⟨b', name, rfl⟩ := List.exists_cons_of_ne_nil hne
    rw [List.forall_mem_cons] at hname
    obtain ⟨rfl, rfl⟩ := List.cons.inj hw
    rw [← appendValue_appendName_pushHeader] at hline
    refine ⟨hname.1, name, ' '.toUInt8 :: (value ++ '\r'.toUInt8 :: '\n'.toUInt8 :: w'), hname.2,
      by simp [crlf, chars_separator],
      one_cons.mpr ⟨by simp, value, '\n'.toUInt8 :: w', hvalue, rfl,
        one_cons.mpr ⟨by simp, ?_⟩⟩⟩
    rw [pushName_eq, appendName_appendName]
    exact hline

/-- The first byte of header lines decides what they begin with. -/
theorem headerLineStart_cons {req r : Request} {b : UInt8} {w : List UInt8} :
    Remaining.headerLineStart req (b :: w) r ↔
      (b = '\r'.toUInt8 ∧ Remaining.expectingNewline3 req w r) ∨
      (req.headers ≠ [] ∧ isBlank b ∧ Remaining.headerLws req w r) ∨
      (isToken b ∧ Remaining.headerName (req.pushHeader.pushName b) w r) := by
  rw [continuation_iff, header_iff]
  constructor
  · rintro ⟨continuations, headers, hfirst, hw, rfl⟩
    cases continuations with
    | cons c continuations =>
        right
        left
        refine ⟨hfirst (by simp), c, continuations.flatMap Continuation.bytes ++
          headers.flatMap HeaderLines.bytes ++ crlf, by simpa using hw, continuations, headers,
          fun _ => by simpa using hfirst, rfl, by simp⟩
    | nil =>
        cases headers with
        | cons h headers =>
            right
            right
            refine ⟨h.name, h.value, h.continuations.flatMap Continuation.bytes ++
              headers.flatMap HeaderLines.bytes ++ crlf, h.name_ne_nil, h.name_token,
              h.value_value, by simpa [HeaderLines.bytes] using hw, h.continuations, headers,
              by simp [appendHeaders], rfl, ?_⟩
            simp [HeaderLines.header]
        | nil =>
            left
            obtain ⟨rfl, rfl⟩ := List.cons.inj hw
            exact ⟨rfl, one_cons.mpr ⟨by simp, rfl, by simp⟩⟩
  · rintro (⟨rfl, n, w', hn, rfl, rfl, rfl⟩ |
      ⟨hne, c, w', hw, continuations, headers, -, rfl, rfl⟩ |
      ⟨name, value, w', hne, hname, hvalue, hw, continuations, headers, -, rfl, rfl⟩)
    · exact ⟨[], [], by simp, by simp [crlf, beq_iff_eq.mp hn], by simp⟩
    · exact ⟨c :: continuations, headers, fun _ => hne, by simpa using hw, by simp⟩
    · refine ⟨[], ⟨name, value, continuations, hne, hname, hvalue⟩ :: headers, by simp,
        by simpa [HeaderLines.bytes] using hw, ?_⟩
      simp [HeaderLines.header]

theorem isBlank_iff {b : UInt8} : isBlank b ↔ b = ' '.toUInt8 ∨ b = '\t'.toUInt8 := by
  simp [isBlank]

/-- Blanks go on, and the first byte that is none begins the text. -/
theorem headerLws_cons {req r : Request} {b : UInt8} {w : List UInt8} :
    Remaining.headerLws req (b :: w) r ↔
      if b = '\r'.toUInt8 then Remaining.expectingNewline2 req w r
      else if isBlank b then Remaining.headerLws req w r
      else isValue b ∧ Remaining.headerValue (appendValue req [b]) w r := by
  have hblank : isBlank '\r'.toUInt8 = false := by decide
  have hvalue : isValue '\r'.toUInt8 = false := by decide
  constructor
  · rintro ⟨blanks, text, w', hblanks, htext, hhead, hw, hline⟩
    cases blanks with
    | cons c blanks =>
        obtain ⟨rfl, rfl⟩ := List.cons.inj hw
        obtain ⟨hb, hblanks⟩ := List.forall_mem_cons.mp hblanks
        have hne : b ≠ '\r'.toUInt8 := fun h => by simp [h, hblank] at hb
        rw [if_neg hne, if_pos hb]
        exact ⟨blanks, text, w', hblanks, htext, hhead, rfl, hline⟩
    | nil =>
        cases text with
        | nil =>
            obtain ⟨rfl, rfl⟩ := List.cons.inj hw
            simpa using hline
        | cons c text =>
            obtain ⟨rfl, rfl⟩ := List.cons.inj hw
            obtain ⟨hb, htext⟩ := List.forall_mem_cons.mp htext
            have hne : b ≠ '\r'.toUInt8 := fun h => by simp [h, hvalue] at hb
            rw [if_neg hne, if_neg (by simp [hhead b (by simp)])]
            exact ⟨hb, text, w', htext, rfl, by simpa using hline⟩
  · intro h
    split at h
    · next hb => exact ⟨[], [], w, by simp, by simp, by simp, by simp [hb], by simpa using h⟩
    · split at h
      · next hb =>
          obtain ⟨blanks, text, w', hblanks, htext, hhead, rfl, hline⟩ := h
          exact ⟨b :: blanks, text, w', List.forall_mem_cons.mpr ⟨hb, hblanks⟩, htext, hhead, rfl,
            hline⟩
      · next hb =>
          obtain ⟨hv, text, w', htext, rfl, hline⟩ := h
          exact ⟨[], b :: text, w', by simp, List.forall_mem_cons.mpr ⟨hv, htext⟩,
            by simpa using hb, rfl, by simpa using hline⟩

/-- **One step** takes the first byte off the texts of its state. -/
theorem remaining_cons (s : State × Request) (b : UInt8) (w : List UInt8) (r : Request) :
    remaining s (b :: w) r ↔ left Prod.snd remaining (consume s b) w r := by
  obtain ⟨state, req⟩ := s
  cases state with
  | methodStart =>
      by_cases hb : isToken b
      · simp [remaining, consume, left, Remaining.methodStart, hb]
      · simp [remaining, consume, left, Remaining.methodStart, hb]
  | method =>
      have hspace : isToken ' '.toUInt8 = false := by decide
      simp only [remaining, consume, Remaining.method, upto_cons hspace, notToken_eq]
      split_ifs
      · simp [left, remaining]
      · simp_all [left]
      · simp_all [left, remaining, Remaining.method]
  | uri =>
      have hspace : isUri ' '.toUInt8 = false := by decide
      simp only [remaining, consume, Remaining.uri, upto_cons hspace, isCtl_intOf]
      split_ifs
      · simp [left, remaining]
      · simp_all [left, isUri]
      · simp_all [left, remaining, Remaining.uri, isUri]
  | httpVersionH => exact remaining_expect 'H' .httpVersionH .httpVersionT1 req b w r
  | httpVersionT1 => exact remaining_expect 'T' .httpVersionT1 .httpVersionT2 req b w r
  | httpVersionT2 => exact remaining_expect 'T' .httpVersionT2 .httpVersionP req b w r
  | httpVersionP => exact remaining_expect 'P' .httpVersionP .httpVersionSlash req b w r
  | httpVersionSlash =>
      by_cases hb : b = '/'.toUInt8
      · simp [remaining, consume, left, Remaining.httpVersionSlash, after, hb]
      · simp [remaining, consume, left, Remaining.httpVersionSlash, after, hb]
  | httpVersionMajorStart =>
      by_cases hb : isDecimal b
      · simp [remaining, consume, left, Remaining.httpVersionMajorStart, hb, appendDigits]
      · simp [remaining, consume, left, Remaining.httpVersionMajorStart, hb]
  | httpVersionMajor =>
      have hdot : isDecimal '.'.toUInt8 = false := by decide
      simp only [remaining, consume, Remaining.httpVersionMajor, upto_cons hdot, isDigit_intOf]
      split_ifs
      · simp [left, remaining, appendDigits]
      · simp_all [left, remaining, Remaining.httpVersionMajor, appendDigits]
      · simp_all [left]
  | httpVersionMinorStart =>
      by_cases hb : isDecimal b
      · simp [remaining, consume, left, Remaining.httpVersionMinorStart, hb, appendDigits]
      · simp [remaining, consume, left, Remaining.httpVersionMinorStart, hb]
  | httpVersionMinor =>
      have hcr : isDecimal '\r'.toUInt8 = false := by decide
      simp only [remaining, consume, Remaining.httpVersionMinor, upto_cons hcr, isDigit_intOf]
      split_ifs
      · simp [left, remaining, appendDigits]
      · simp_all [left, remaining, Remaining.httpVersionMinor, appendDigits]
      · simp_all [left]
  | expectingNewline1 => exact remaining_expect '\n' .expectingNewline1 .headerLineStart req b w r
  | headerLineStart =>
      have hcr : isToken '\r'.toUInt8 = false := by decide
      have hcrBlank : isBlank '\r'.toUInt8 = false := by decide
      have hblank : isBlank b → isToken b = false := by
        revert b
        exact forall_uInt8 (by decide +kernel)
      simp only [remaining, consume, headerLineStart_cons, ← isBlank_iff, notToken_eq]
      split_ifs
      · simp_all [left, remaining]
      · simp_all [left, remaining]
      · simp_all [left]
      · simp_all [left, remaining]
  | headerLws =>
      simp only [remaining, consume, headerLws_cons, ← isBlank_iff, isCtl_intOf]
      split_ifs
      · simp [left, remaining]
      · simp [left, remaining]
      · simp_all [left, isValue]
      · simp_all [left, remaining, isValue, pushValue_eq]
  | headerName =>
      have hcolon : isToken ':'.toUInt8 = false := by decide
      simp only [remaining, consume, Remaining.headerName, upto_cons hcolon, notToken_eq]
      split_ifs
      · simp [left, remaining]
      · simp_all [left]
      · simp_all [left, remaining, Remaining.headerName, pushName_eq]
  | spaceBeforeHeaderValue =>
      exact remaining_expect ' ' .spaceBeforeHeaderValue .headerValue req b w r
  | headerValue =>
      have hcr : isValue '\r'.toUInt8 = false := by decide
      simp only [remaining, consume, Remaining.headerValue, upto_cons hcr, isCtl_intOf]
      split_ifs
      · simp [left, remaining]
      · simp_all [left, isValue]
      · simp_all [left, remaining, Remaining.headerValue, isValue, pushValue_eq]
  | expectingNewline2 => exact remaining_expect '\n' .expectingNewline2 .headerLineStart req b w r
  | expectingNewline3 =>
      by_cases hb : b = '\n'.toUInt8
      · simp [remaining, consume, left, Remaining.expectingNewline3, after, hb]
      · simp [remaining, consume, left, Remaining.expectingNewline3, after, hb]

theorem exists_after {c : Char} {K : Text} (h : ∃ w r, K w r) : ∃ w r, after c K w r :=
  exists_one (beq_self_eq_true c.toUInt8) h

/-- From every state a request can be completed. -/
theorem exists_remaining (s : State × Request) : ∃ w r, remaining s w r := by
  obtain ⟨state, req⟩ := s
  have hdigit : isDecimal '0'.toUInt8 := by decide
  have hletter : isToken 'G'.toUInt8 := by decide
  have hlines : ∀ req, ∃ w r, Remaining.headerLineStart req w r :=
    fun req => ⟨_, _, [], [], by simp, rfl, rfl⟩
  have hnewline : ∀ req, ∃ w r, Remaining.expectingNewline2 req w r :=
    fun req => exists_after (hlines req)
  have hvalue : ∀ req, ∃ w r, Remaining.headerValue req w r := fun req => exists_upto (hnewline _)
  have hspace : ∀ req, ∃ w r, Remaining.spaceBeforeHeaderValue req w r :=
    fun req => exists_after (hvalue req)
  have hminor : ∀ req, ∃ w r, Remaining.httpVersionMinor req w r :=
    fun req => exists_upto (exists_after (hlines _))
  have hminorStart : ∀ req, ∃ w r, Remaining.httpVersionMinorStart req w r :=
    fun req => exists_one hdigit (hminor _)
  have hmajor : ∀ req, ∃ w r, Remaining.httpVersionMajor req w r :=
    fun req => exists_upto (hminorStart _)
  have hmajorStart : ∀ req, ∃ w r, Remaining.httpVersionMajorStart req w r :=
    fun req => exists_one hdigit (hmajor _)
  have hslash : ∀ req, ∃ w r, Remaining.httpVersionSlash req w r :=
    fun req => exists_after (hmajorStart _)
  have hp : ∀ req, ∃ w r, Remaining.httpVersionP req w r := fun req => exists_after (hslash req)
  have ht2 : ∀ req, ∃ w r, Remaining.httpVersionT2 req w r := fun req => exists_after (hp req)
  have ht1 : ∀ req, ∃ w r, Remaining.httpVersionT1 req w r := fun req => exists_after (ht2 req)
  have hh : ∀ req, ∃ w r, Remaining.httpVersionH req w r := fun req => exists_after (ht1 req)
  have huri : ∀ req, ∃ w r, Remaining.uri req w r := fun req => exists_upto (hh _)
  have hmethod : ∀ req, ∃ w r, Remaining.method req w r := fun req => exists_upto (huri _)
  cases state with
  | methodStart => exact exists_one hletter (hmethod _)
  | method => exact hmethod req
  | uri => exact huri req
  | httpVersionH => exact hh req
  | httpVersionT1 => exact ht1 req
  | httpVersionT2 => exact ht2 req
  | httpVersionP => exact hp req
  | httpVersionSlash => exact hslash req
  | httpVersionMajorStart => exact hmajorStart req
  | httpVersionMajor => exact hmajor req
  | httpVersionMinorStart => exact hminorStart req
  | httpVersionMinor => exact hminor req
  | expectingNewline1 => exact exists_after (hlines req)
  | headerLineStart => exact hlines req
  | headerLws =>
      obtain ⟨w, r, hw⟩ := hnewline req
      exact ⟨_, r, [], [], w, by simp, by simp, by simp, rfl, by simpa using hw⟩
  | headerName => exact exists_upto (hspace _)
  | spaceBeforeHeaderValue => exact hspace req
  | headerValue => exact hvalue req
  | expectingNewline2 => exact hnewline req
  | expectingNewline3 => exact exists_after ⟨[], req, rfl, rfl⟩

/-- No request ends in the state it is in: a last byte is always missing. -/
theorem not_remaining_nil (s : State × Request) (r : Request) : ¬ remaining s [] r := by
  obtain ⟨state, req⟩ := s
  cases state with
  | methodStart | httpVersionH | httpVersionT1 | httpVersionT2 | httpVersionP | httpVersionSlash
  | httpVersionMajorStart | httpVersionMinorStart | expectingNewline1 | spaceBeforeHeaderValue
  | expectingNewline2 | expectingNewline3 => exact not_one_nil
  | method | uri | httpVersionMajor | httpVersionMinor | headerName | headerValue =>
      exact not_upto_nil
  | headerLineStart =>
      rintro ⟨continuations, headers, -, hw, -⟩
      simp [crlf] at hw
  | headerLws =>
      rintro ⟨blanks, text, w', -, -, -, hw, -⟩
      simp at hw

/-- The parser reads the texts of its states. -/
theorem recognizes : Recognizes consume Prod.snd remaining where
  not_nil := not_remaining_nil
  completable := exists_remaining
  step := remaining_cons

/-! ## A fresh parser -/

theorem chars_space : chars " " = [' '.toUInt8] := by decide

theorem chars_dot : chars "." = ['.'.toUInt8] := by decide

theorem chars_http : chars " HTTP/" =
    [' '.toUInt8, 'H'.toUInt8, 'T'.toUInt8, 'T'.toUInt8, 'P'.toUInt8, '/'.toUInt8] := by decide

theorem after_iff {c : Char} {K : Text} {w : List UInt8} {r : Request} :
    after c K w r ↔ ∃ w', w = c.toUInt8 :: w' ∧ K w' r := by
  simp [after, one]

/-- A number: its first digit is read in one state and the ones after it in the next. -/
theorem number_iff {stop : UInt8} (K : Int → Text) {w : List UInt8} {r : Request} :
    one isDecimal (fun b => upto isDecimal stop fun digits =>
        K (appendDigits (appendDigits 0 [b]) digits)) w r ↔
      ∃ digits w', digits ≠ [] ∧ (∀ b ∈ digits, isDecimal b) ∧ w = digits ++ stop :: w' ∧
        K (decimalValue digits) w' r := by
  constructor
  · rintro ⟨b, w, hb, rfl, digits, w', hdigits, rfl, hK⟩
    rw [← decimalValue_cons hb hdigits] at hK
    exact ⟨b :: digits, w', by simp, by simpa [hb] using hdigits, rfl, hK⟩
  · rintro ⟨digits, w', hne, hdigits, rfl, hK⟩
    obtain ⟨b, digits, rfl⟩ := List.exists_cons_of_ne_nil hne
    rw [List.forall_mem_cons] at hdigits
    rw [decimalValue_cons hdigits.1 hdigits.2] at hK
    exact ⟨b, _, hdigits.1, rfl, digits, w', hdigits.2, rfl, hK⟩

/-- The major version is a number up to a dot. -/
theorem major_iff {req r : Request} {w : List UInt8} (hzero : req.httpVersionMajor = 0) :
    Remaining.httpVersionMajorStart req w r ↔
      ∃ digits w', digits ≠ [] ∧ (∀ b ∈ digits, isDecimal b) ∧ w = digits ++ '.'.toUInt8 :: w' ∧
        Remaining.httpVersionMinorStart
          { req with httpVersionMajor := decimalValue digits } w' r := by
  rw [← number_iff fun n => Remaining.httpVersionMinorStart { req with httpVersionMajor := n },
    ← hzero]
  rfl

/-- The minor version is a number up to the end of the line. -/
theorem minor_iff {req r : Request} {w : List UInt8} (hzero : req.httpVersionMinor = 0) :
    Remaining.httpVersionMinorStart req w r ↔
      ∃ digits w', digits ≠ [] ∧ (∀ b ∈ digits, isDecimal b) ∧ w = digits ++ '\r'.toUInt8 :: w' ∧
        Remaining.expectingNewline1
          { req with httpVersionMinor := decimalValue digits } w' r := by
  rw [← number_iff fun n => Remaining.expectingNewline1 { req with httpVersionMinor := n },
    ← hzero]
  rfl

/-- The version and the end of its line. -/
theorem version_iff {req r : Request} {w : List UInt8} :
    Remaining.httpVersionH req w r ↔
      ∃ major minor w', major ≠ [] ∧ (∀ b ∈ major, isDecimal b) ∧
        minor ≠ [] ∧ (∀ b ∈ minor, isDecimal b) ∧
        ' '.toUInt8 :: w = chars " HTTP/" ++ major ++ chars "." ++ minor ++ crlf ++ w' ∧
          Remaining.headerLineStart
            { req with
              httpVersionMajor := decimalValue major
              httpVersionMinor := decimalValue minor } w' r := by
  constructor
  · intro h
    simp only [Remaining.httpVersionH, Remaining.httpVersionT1, Remaining.httpVersionT2,
      Remaining.httpVersionP, Remaining.httpVersionSlash, after_iff] at h
    obtain ⟨_, rfl, _, rfl, _, rfl, _, rfl, _, rfl, hmajorStart⟩ := h
    obtain ⟨major, w₁, hmajorNil, hmajor, rfl, hminorStart⟩ := (major_iff rfl).mp hmajorStart
    obtain ⟨minor, w₂, hminorNil, hminor, rfl, hnewline⟩ := (minor_iff rfl).mp hminorStart
    obtain ⟨w', rfl, hline⟩ := after_iff.mp hnewline
    refine ⟨major, minor, w', hmajorNil, hmajor, hminorNil, hminor, ?_, hline⟩
    simp [chars_http, chars_dot, crlf]
  · rintro ⟨major, minor, w', hmajorNil, hmajor, hminorNil, hminor, hw, hline⟩
    have hminorStart : Remaining.httpVersionMinorStart
        { req with httpVersionMajor := decimalValue major, httpVersionMinor := 0 }
        (minor ++ '\r'.toUInt8 :: '\n'.toUInt8 :: w') r :=
      (minor_iff rfl).mpr ⟨minor, _, hminorNil, hminor, rfl, after_iff.mpr ⟨w', rfl, hline⟩⟩
    have hmajorStart : Remaining.httpVersionMajorStart
        { req with httpVersionMajor := 0, httpVersionMinor := 0 }
        (major ++ '.'.toUInt8 :: (minor ++ '\r'.toUInt8 :: '\n'.toUInt8 :: w')) r :=
      (major_iff rfl).mpr ⟨major, _, hmajorNil, hmajor, rfl, hminorStart⟩
    simp only [Remaining.httpVersionH, Remaining.httpVersionT1, Remaining.httpVersionT2,
      Remaining.httpVersionP, Remaining.httpVersionSlash, after_iff]
    refine ⟨_, ?_, _, rfl, _, rfl, _, rfl, _, rfl, hmajorStart⟩
    simpa [chars_http, chars_dot, crlf] using hw

/-- A fresh parser has a whole request to read. -/
theorem remaining_methodStart {w : List UInt8} {r : Request} :
    remaining (.methodStart, .new) w r ↔ ∃ m : RequestText, m.bytes = w ∧ m.request = r := by
  constructor
  · rintro ⟨b, w, hb, rfl, method, w₁, hmethod, rfl, uri, w₂, huri, rfl, hversion⟩
    obtain ⟨major, minor, w', hmajorNil, hmajor, hminorNil, hminor, hw, hline⟩ :=
      version_iff.mp hversion
    obtain ⟨continuations, headers, hcontinuations, rfl, rfl⟩ := hline
    have hnil : continuations = [] := by
      by_contra hne
      exact hcontinuations hne rfl
    refine ⟨⟨b :: method, uri, major, minor, headers, by simp, by simpa [hb] using hmethod,
      huri, hmajorNil, hmajor, hminorNil, hminor⟩, ?_, ?_⟩
    · rw [hw]
      simp [RequestText.bytes, chars_space, hnil]
    · simp [RequestText.request, appendHeaders, Request.new, hnil]
  · rintro ⟨m, rfl, rfl⟩
    obtain ⟨b, method, hmethod⟩ := List.exists_cons_of_ne_nil m.method_ne_nil
    have htoken := m.method_token
    rw [hmethod, List.forall_mem_cons] at htoken
    obtain ⟨w, hw⟩ : ∃ w, ' '.toUInt8 :: w = chars " HTTP/" ++ m.major ++ chars "." ++ m.minor ++
        crlf ++ (m.headers.flatMap HeaderLines.bytes ++ crlf) := ⟨_, rfl⟩
    refine ⟨b, _, htoken.1, ?_, method, _, htoken.2, rfl, m.uri, w, m.uri_uri, rfl,
      version_iff.mpr ⟨m.major, m.minor, _, m.major_ne_nil, m.major_decimal, m.minor_ne_nil,
        m.minor_decimal, hw, [], m.headers, by simp, rfl, ?_⟩⟩
    · rw [hw]
      simp [RequestText.bytes, hmethod, chars_space]
    · simp [RequestText.request, appendHeaders, hmethod, Request.new]

/-- A text is viable exactly if it begins a request of the grammar. -/
theorem viable_remaining {text : List UInt8} :
    Viable remaining (.methodStart, .new) text ↔ beginsRequest text := by
  simp [Viable, remaining_methodStart, beginsRequest, isRequest]

end RequestParser

/-- A parser that accepts exactly the grammar: its answer, where it stops, and the
request it gives. -/
structure AcceptsRequests
    (parse : List UInt8 → Tribool × (RequestParser.State × Request) × List UInt8) : Prop where
  true_iff : ∀ input req rest, (∃ state, parse input = (.true, (state, req), rest)) ↔
    ∃ m : RequestText, input = m.bytes ++ rest ∧ req = m.request
  false_iff : ∀ input rest, (∃ s, parse input = (.false, s, rest)) ↔
    (∀ text, text <+: input → ¬ isRequest text) ∧
      ∃ text b, input = text ++ b :: rest ∧ beginsRequest text ∧ ¬ beginsRequest (text ++ [b])
  indeterminate_iff : ∀ input, (∃ s, parse input = (.indeterminate, s, [])) ↔
    beginsRequest input ∧ ¬ isRequest input

namespace RequestParser

/-- **The parser accepts** exactly the texts that have a request in front, and builds it. -/
theorem parse_true_iff {input rest : List UInt8} {req : Request} :
    (∃ state, parse .methodStart .new input = (.true, (state, req), rest)) ↔
      ∃ m : RequestText, input = m.bytes ++ rest ∧ req = m.request := by
  have haccepts : (∃ s, parse .methodStart .new input = (.true, s, rest) ∧ s.2 = req) ↔
      ∃ text, remaining (.methodStart, .new) text req ∧ input = text ++ rest :=
    recognizes.accepts_iff
  simp only [remaining_methodStart] at haccepts
  constructor
  · rintro ⟨state, hparse⟩
    obtain ⟨text, ⟨m, rfl, rfl⟩, hinput⟩ := haccepts.mp ⟨_, hparse, rfl⟩
    exact ⟨m, hinput, rfl⟩
  · rintro ⟨m, hinput, rfl⟩
    obtain ⟨⟨state, req⟩, hparse, rfl⟩ := haccepts.mpr ⟨m.bytes, ⟨m, rfl, rfl⟩, hinput⟩
    exact ⟨state, hparse⟩

/-- **It rejects** exactly behind the byte that no request has there. -/
theorem parse_false_iff {input rest : List UInt8} :
    (∃ s, parse .methodStart .new input = (.false, s, rest)) ↔
      (∀ text, text <+: input → ¬ isRequest text) ∧
        ∃ text b, input = text ++ b :: rest ∧ beginsRequest text ∧
          ¬ beginsRequest (text ++ [b]) := by
  have hrejects : (∃ s, parse .methodStart .new input = (.false, s, rest)) ↔ _ :=
    recognizes.rejects_iff
  simp only [viable_remaining] at hrejects
  constructor
  · intro hparse
    obtain ⟨text, b, hinput, hbegins, -, hstop⟩ := hrejects.mp hparse
    refine ⟨?_, text, b, hinput, hbegins, hstop⟩
    rintro q ⟨t, rfl⟩ ⟨m, rfl⟩
    obtain ⟨s, hs⟩ := hparse
    obtain ⟨state, hstate⟩ := parse_true_iff.mpr ⟨m, (rfl : m.bytes ++ t = _), rfl⟩
    rw [hstate] at hs
    cases congrArg Prod.fst hs
  · rintro ⟨hnone, text, b, hinput, hbegins, hstop⟩
    refine hrejects.mpr ⟨text, b, hinput, hbegins, fun req hreq => ?_, hstop⟩
    obtain ⟨m, hm, -⟩ := remaining_methodStart.mp hreq
    exact hnone text ⟨b :: rest, hinput.symm⟩ ⟨m, hm⟩

/-- **It asks for more** exactly while a request has begun and is not complete. -/
theorem parse_indeterminate_iff {input : List UInt8} :
    (∃ s, parse .methodStart .new input = (.indeterminate, s, [])) ↔
      beginsRequest input ∧ ¬ isRequest input := by
  have hasks : (∃ s, parse .methodStart .new input = (.indeterminate, s, [])) ↔ _ :=
    recognizes.asks_iff
  rw [hasks, viable_remaining]
  simp [remaining_methodStart, isRequest]

/-- Nothing that goes on behind a request begins one. -/
theorem not_beginsRequest {text : List UInt8} (h : isRequest text) {more : List UInt8}
    (hmore : more ≠ []) : ¬ beginsRequest (text ++ more) := by
  obtain ⟨m, rfl⟩ := h
  obtain ⟨state, hparse⟩ := parse_true_iff.mpr ⟨m, rfl, rfl⟩
  rw [← viable_remaining]
  exact recognizes.not_viable_of_accepted hparse hmore

/-- The three answers are those that the grammar gives. -/
theorem acceptsRequests : AcceptsRequests (parse .methodStart .new) where
  true_iff _ _ _ := parse_true_iff
  false_iff _ _ := parse_false_iff
  indeterminate_iff _ := parse_indeterminate_iff

end RequestParser

/-- **The grammar**: both request parsers accept exactly the requests. -/
theorem parseRequest_acceptsRequests :
    AcceptsRequests Rfc6455Engine.parseRequest ∧
      AcceptsRequests (HttpServer.parseRequest .methodStart .new) :=
  ⟨RequestParser.acceptsRequests, RequestParser.acceptsRequests⟩

/-- A request with a byte behind it. -/
def trailing : List UInt8 := chars "GET / HTTP/1.0\r\n\r\nX"

/-- That the input goes on behind a request is no reason for an answer of false. -/
theorem parseRequest_trailing_counterexample :
    ¬ ((Rfc6455Engine.parseRequest trailing).1 = .false ↔
      ∃ text, text <+: trailing ∧ ¬ beginsRequest text) := by
  have hparse : (Rfc6455Engine.parseRequest trailing).1 = .true := by decide
  have hrest : (Rfc6455Engine.parseRequest trailing).2.2 = ['X'.toUInt8] := by decide
  obtain ⟨m, hm, -⟩ := (RequestParser.acceptsRequests.true_iff trailing _ _).mp
    ⟨_, Prod.ext hparse (Prod.ext rfl hrest)⟩
  intro h
  have hfalse : (Rfc6455Engine.parseRequest trailing).1 = .false := by
    refine h.mpr ⟨trailing, List.prefix_refl _, ?_⟩
    rw [hm]
    exact RequestParser.not_beginsRequest ⟨m, rfl⟩ (by simp)
  rw [hparse] at hfalse
  cases hfalse

end Splice

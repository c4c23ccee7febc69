import Splice.CommonTypes
import Splice.Lib.Incremental

/-!
# Splice.RequestParser

The HTTP request parser.  `rfc6455_engine::request_parser` and
`http::server::request_parser` have the same `consume`, arm by arm, so the machine is
here once, and each class has its own `parse` under it.

Characters are `char`s that the predicates take as `int`s: on the hosts in question
the bytes from 128 on are negative there, neither HTTP characters nor controls.
-/

namespace Splice

open Incremental (Tribool)

/-- A header of a request or of a reply. -/
structure Header where
  name : List UInt8
  value : List UInt8
  deriving DecidableEq, Repr

/-- A request, as far as it has been parsed. -/
structure Request where
  method : List UInt8
  uri : List UInt8
  httpVersionMajor : Int
  httpVersionMinor : Int
  headers : List Header
  deriving DecidableEq, Repr

namespace Request

/-- A request before parsing.  The version members are not initialised in the source;
state `http_version_slash` sets them before they are used. -/
def new : Request where
  method := []
  uri := []
  httpVersionMajor := 0
  httpVersionMinor := 0
  headers := []

/-- `req.headers.push_back(header())`. -/
def pushHeader (req : Request) : Request := { req with headers := req.headers ++ [⟨[], []⟩] }

/-- Change `headers.back()`. -/
def modifyBack (req : Request) (f : Header → Header) : Request :=
  { req with headers := req.headers.dropLast ++ (req.headers.getLast?.map f).toList }

/-- `req.headers.back().name.push_back(input)`. -/
def pushName (req : Request) (input : UInt8) : Request :=
  req.modifyBack fun header => { header with name := header.name ++ [input] }

/-- `req.headers.back().value.push_back(input)`. -/
def pushValue (req : Request) (input : UInt8) : Request :=
  req.modifyBack fun header => { header with value := header.value ++ [input] }

end Request

namespace RequestParser

/-- `request_parser::state`. -/
inductive State where
  | methodStart
  | method
  | uri
  | httpVersionH
  | httpVersionT1
  | httpVersionT2
  | httpVersionP
  | httpVersionSlash
  | httpVersionMajorStart
  | httpVersionMajor
  | httpVersionMinorStart
  | httpVersionMinor
  | expectingNewline1
  | headerLineStart
  | headerLws
  | headerName
  | spaceBeforeHeaderValue
  | headerValue
  | expectingNewline2
  | expectingNewline3
  deriving DecidableEq, Repr

/-- The value of a `char` as an `int`. -/
def intOf (input : UInt8) : Int := input.toInt8.toInt

/-- Check if a byte is an HTTP character. -/
def isChar (c : Int) : Bool := 0 ≤ c && c ≤ 127

/-- Check if a byte is an HTTP control character. -/
def isCtl (c : Int) : Bool := (0 ≤ c && c ≤ 31) || c == 127

/-- Check if a byte is defined as an HTTP tspecial character. -/
def isTspecial (c : Int) : Bool :=
  (chars "()<>@,;:\\\"/[]?=\x7b\x7d \t").any fun b => c == b.toNat

/-- Check if a byte is a digit. -/
def isDigit (c : Int) : Bool := 48 ≤ c && c ≤ 57

/-- A byte that no token may hold. -/
def notToken (input : UInt8) : Bool :=
  !isChar (intOf input) || isCtl (intOf input) || isTspecial (intOf input)

/-- A state that lets one byte pass. -/
def expect (c : Char) (stay go : State) (req : Request) (input : UInt8) :
    Tribool × State × Request :=
  if input = c.toUInt8 then (.indeterminate, go, req) else (.false, stay, req)

/-- `consume`: handle the next character of input. -/
def consume : State × Request → UInt8 → Tribool × State × Request
  | (.methodStart, req), input =>
      if notToken input then (.false, .methodStart, req)
      else (.indeterminate, .method, { req with method := req.method ++ [input] })
  | (.method, req), input =>
      if input = ' '.toUInt8 then (.indeterminate, .uri, req)
      else if notToken input then (.false, .method, req)
      else (.indeterminate, .method, { req with method := req.method ++ [input] })
  | (.uri, req), input =>
      if input = ' '.toUInt8 then (.indeterminate, .httpVersionH, req)
      else if isCtl (intOf input) then (.false, .uri, req)
      else (.indeterminate, .uri, { req with uri := req.uri ++ [input] })
  | (.httpVersionH, req), input => expect 'H' .httpVersionH .httpVersionT1 req input
  | (.httpVersionT1, req), input => expect 'T' .httpVersionT1 .httpVersionT2 req input
  | (.httpVersionT2, req), input => expect 'T' .httpVersionT2 .httpVersionP req input
  | (.httpVersionP, req), input => expect 'P' .httpVersionP .httpVersionSlash req input
  | (.httpVersionSlash, req), input =>
      if input = '/'.toUInt8 then
        (.indeterminate, .httpVersionMajorStart,
          { req with httpVersionMajor := 0, httpVersionMinor := 0 })
      else (.false, .httpVersionSlash, req)
  | (.httpVersionMajorStart, req), input =>
      if isDigit (intOf input) then
        (.indeterminate, .httpVersionMajor,
          { req with httpVersionMajor := req.httpVersionMajor * 10 + intOf input - 48 })
      else (.false, .httpVersionMajorStart, req)
  | (.httpVersionMajor, req), input =>
      if input = '.'.toUInt8 then (.indeterminate, .httpVersionMinorStart, req)
      else if isDigit (intOf input) then
        (.indeterminate, .httpVersionMajor,
          { req with httpVersionMajor := req.httpVersionMajor * 10 + intOf input - 48 })
      else (.false, .httpVersionMajor, req)
  | (.httpVersionMinorStart, req), input =>
      if isDigit (intOf input) then
        (.indeterminate, .httpVersionMinor,
          { req with httpVersionMinor := req.httpVersionMinor * 10 + intOf input - 48 })
      else (.false, .httpVersionMinorStart, req)
  | (.httpVersionMinor, req), input =>
      if input = '\r'.toUInt8 then (.indeterminate, .expectingNewline1, req)
      else if isDigit (intOf input) then
        (.indeterminate, .httpVersionMinor,
          { req with httpVersionMinor := req.httpVersionMinor * 10 + intOf input - 48 })
      else (.false, .httpVersionMinor, req)
  | (.expectingNewline1, req), input => expect '\n' .expectingNewline1 .headerLineStart req input
  | (.headerLineStart, req), input =>
      if input = '\r'.toUInt8 then (.indeterminate, .expectingNewline3, req)
      else if req.headers ≠ [] ∧ (input = ' '.toUInt8 ∨ input = '\t'.toUInt8) then
        (.indeterminate, .headerLws, req)
      else if notToken input then (.false, .headerLineStart, req)
      else (.indeterminate, .headerName, req.pushHeader.pushName input)
  | (.headerLws, req), input =>
      if input = '\r'.toUInt8 then (.indeterminate, .expectingNewline2, req)
      else if input = ' '.toUInt8 ∨ input = '\t'.toUInt8 then (.indeterminate, .headerLws, req)
      else if isCtl (intOf input) then (.false, .headerLws, req)
      else (.indeterminate, .headerValue, req.pushValue input)
  | (.headerName, req), input =>
      if input = ':'.toUInt8 then (.indeterminate, .spaceBeforeHeaderValue, req)
      else if notToken input then (.false, .headerName, req)
      else (.indeterminate, .headerName, req.pushName input)
  | (.spaceBeforeHeaderValue, req), input =>
      expect ' ' .spaceBeforeHeaderValue .headerValue req input
  | (.headerValue, req), input =>
      if input = '\r'.toUInt8 then (.indeterminate, .expectingNewline2, req)
      else if isCtl (intOf input) then (.false, .headerValue, req)
      else (.indeterminate, .headerValue, req.pushValue input)
  | (.expectingNewline2, req), input => expect '\n' .expectingNewline2 .headerLineStart req input
  | (.expectingNewline3, req), input =>
      (if input = '\n'.toUInt8 then .true else .false, .expectingNewline3, req)

/-- `parse`, on the parser's state and the request it is called with. -/
def parse (state : State) (req : Request) (input : List UInt8) :
    Tribool × (State × Request) × List UInt8 :=
  Incremental.parse consume (state, req) input

end RequestParser

end Splice

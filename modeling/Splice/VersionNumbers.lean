import Splice.RequestLanguage

/-!
# Splice.VersionNumbers

The version numbers of a request line in a 32-bit `int`.  The parsers append digit after
digit with `x * 10 + input - '0'` and count none of them, so a client decides how long the
number gets.  `evaluated` are the values that the expression goes through: the character is
added before the code of `'0'` is taken off, so the last 48 values of an `int` are out of
reach as well (`versionsFit_iff`).
-/

namespace Splice

open Incremental

namespace RequestParser

/-! ## Updates -/

/-- The values of an `int`. -/
def InInt (v : Int) : Prop := -2 ^ 31 ≤ v ∧ v < 2 ^ 31

/-- The version number that a step appends its byte to.  `consume` assigns what comes of it
(`consume_of_updated`). -/
def updated : State × Request → UInt8 → Option Int
  | (.httpVersionMajorStart, req), input | (.httpVersionMajor, req), input =>
      if isDigit (intOf input) then some req.httpVersionMajor else none
  | (.httpVersionMinorStart, req), input | (.httpVersionMinor, req), input =>
      if isDigit (intOf input) then some req.httpVersionMinor else none
  | _, _ => none

/-- The values that `x * 10 + input - '0'` goes through. -/
def evaluated (x : Int) (input : UInt8) : List Int :=
  [x * 10, x * 10 + intOf input, x * 10 + intOf input - 48]

/-- The value that it leaves. -/
def assigned (x : Int) (input : UInt8) : List Int := [x * 10 + intOf input - 48]

/-- No step takes one of these values out of the range of `int`. -/
def StaysInInt (values : Int → UInt8 → List Int) (made : List ((State × Request) × UInt8)) :
    Prop :=
  ∀ step ∈ made, ∀ x ∈ updated step.1 step.2, ∀ v ∈ values x step.2, InInt v

/-- A stream that arrives in some chunks: no update leaves the range of `int`, and if the
answer is true, the numbers are those that the request line has. -/
structure VersionsFit (chunks : List (List UInt8)) : Prop where
  inInt : StaysInInt evaluated (feed consume (.methodStart, .new) chunks).2.2
  written : (feed consume (.methodStart, .new) chunks).1 = .true →
    ∃ m : RequestText, m.bytes <+: chunks.flatten ∧
      (feed consume (.methodStart, .new) chunks).2.1.2.httpVersionMajor = decimalValue m.major ∧
      (feed consume (.methodStart, .new) chunks).2.1.2.httpVersionMinor = decimalValue m.minor

/-- The update of a step: one of the two numbers gets the value assigned. -/
theorem consume_of_updated {s : State × Request} {b : UInt8} {x : Int} (h : updated s b = some x) :
    ∃ v ∈ assigned x b,
      s.2.httpVersionMajor = x ∧ (consume s b).2.2 = { s.2 with httpVersionMajor := v } ∨
      s.2.httpVersionMinor = x ∧ (consume s b).2.2 = { s.2 with httpVersionMinor := v } := by
  obtain ⟨state, req⟩ := s
  have hdot : ¬ isDigit (intOf '.'.toUInt8) := by decide
  have hcr : ¬ isDigit (intOf '\r'.toUInt8) := by decide
  cases state with
  | httpVersionMajorStart | httpVersionMajor =>
      simp only [updated] at h
      split_ifs at h with hb
      cases h
      have hne : b ≠ '.'.toUInt8 := by
        rintro rfl
        exact hdot hb
      exact ⟨_, List.mem_singleton.mpr rfl, .inl ⟨rfl, by simp [consume, hb, hne]⟩⟩
  | httpVersionMinorStart | httpVersionMinor =>
      simp only [updated] at h
      split_ifs at h with hb
      cases h
      have hne : b ≠ '\r'.toUInt8 := by
        rintro rfl
        exact hcr hb
      exact ⟨_, List.mem_singleton.mpr rfl, .inr ⟨rfl, by simp [consume, hb, hne]⟩⟩
  | _ => simp [updated] at h

/-! ## Numbers in a stream -/

/-- A request line up to `HTTP`. -/
def LineStart (text : List UInt8) : Prop :=
  ∃ method uri, method ≠ [] ∧ (∀ b ∈ method, isToken b) ∧ (∀ b ∈ uri, isUri b) ∧
    text = method ++ ' '.toUInt8 :: (uri ++ [' '.toUInt8])

/-- Decimal digits, at least one of them. -/
def IsNumber (digits : List UInt8) : Prop := digits ≠ [] ∧ ∀ b ∈ digits, isDecimal b

/-- A request line up to some digits of one of its version numbers. -/
inductive EndsInNumber (digits : List UInt8) : List UInt8 → Prop
  | major {start} : LineStart start → IsNumber digits →
      EndsInNumber digits (start ++ (chars "HTTP/" ++ digits))
  | minor {start major} : LineStart start → IsNumber major → IsNumber digits →
      EndsInNumber digits (start ++ (chars "HTTP/" ++ (major ++ '.'.toUInt8 :: digits)))

/-- The version numbers that the stream begins are below a bound. -/
def NumbersBelow (bound : Nat) (stream : List UInt8) : Prop :=
  ∀ text digits, text <+: stream → EndsInNumber digits text → decimalValue digits < bound

/-! ## From the text to the state -/

/-- The parser behind some digits of the major number. -/
def inMajor (req : Request) (digits : List UInt8) : State × Request :=
  (if digits = [] then .httpVersionMajorStart else .httpVersionMajor,
    { req with httpVersionMajor := appendDigits 0 digits, httpVersionMinor := 0 })

/-- The parser behind some digits of the minor number. -/
def inMinor (req : Request) (digits : List UInt8) : State × Request :=
  (if digits = [] then .httpVersionMinorStart else .httpVersionMinor,
    { req with httpVersionMinor := appendDigits 0 digits })

theorem chars_slash : chars "HTTP/" =
    ['H'.toUInt8, 'T'.toUInt8, 'T'.toUInt8, 'P'.toUInt8, '/'.toUInt8] := by decide

theorem appendDigits_snoc (n : Int) (digits : List UInt8) (b : UInt8) :
    appendDigits n (digits ++ [b]) = appendDigits n digits * 10 + intOf b - 48 := by
  simp [appendDigits]

/-- A digit of the major version is appended to it. -/
theorem consume_inMajor (req : Request) (digits : List UInt8) {b : UInt8} (hb : isDecimal b) :
    consume (inMajor req digits) b = (.indeterminate, inMajor req (digits ++ [b])) := by
  have hdot : b ≠ '.'.toUInt8 := by
    rintro rfl
    exact absurd hb (by decide)
  by_cases h : digits = []
  · subst h
    simp [inMajor, consume, hb, appendDigits]
  · simp [inMajor, consume, h, hb, hdot, appendDigits_snoc]

/-- A digit of the minor version is appended to it. -/
theorem consume_inMinor (req : Request) (digits : List UInt8) {b : UInt8} (hb : isDecimal b) :
    consume (inMinor req digits) b = (.indeterminate, inMinor req (digits ++ [b])) := by
  have hcr : b ≠ '\r'.toUInt8 := by
    rintro rfl
    exact absurd hb (by decide)
  by_cases h : digits = []
  · subst h
    simp [inMinor, consume, hb, appendDigits]
  · simp [inMinor, consume, h, hb, hcr, appendDigits_snoc]

/-- It is the major version that a digit updates there. -/
theorem updated_inMajor (req : Request) (digits : List UInt8) {b : UInt8} (hb : isDecimal b) :
    updated (inMajor req digits) b = some (appendDigits 0 digits) := by
  by_cases h : digits = []
  · simp [inMajor, updated, h, hb]
  · simp [inMajor, updated, h, hb]

/-- It is the minor version that a digit updates there. -/
theorem updated_inMinor (req : Request) (digits : List UInt8) {b : UInt8} (hb : isDecimal b) :
    updated (inMinor req digits) b = some (appendDigits 0 digits) := by
  by_cases h : digits = []
  · simp [inMinor, updated, h, hb]
  · simp [inMinor, updated, h, hb]

/-- A byte of a token is appended to the method. -/
theorem consume_method (req : Request) (method : List UInt8) {b : UInt8} (hb : isToken b) :
    consume (.method, { req with method := method }) b =
      (.indeterminate, (.method, { req with method := method ++ [b] })) := by
  have hspace : b ≠ ' '.toUInt8 := by
    rintro rfl
    exact absurd hb (by decide)
  simp [consume, hb, hspace]

/-- A byte of a URI is appended to it. -/
theorem consume_uri (req : Request) (uri : List UInt8) {b : UInt8} (hb : isUri b) :
    consume (.uri, { req with uri := uri }) b =
      (.indeterminate, (.uri, { req with uri := uri ++ [b] })) := by
  have hpass : isControl b = false ∧ b ≠ ' '.toUInt8 := by simpa [isUri] using hb
  simp [consume, hpass.1, hpass.2]

/-- A method is read up to the blank behind it. -/
theorem parse_method (req : Request) {method : List UInt8} (h : ∀ b ∈ method, isToken b)
    (rest : List UInt8) :
    Incremental.parse consume (.method, req) (method ++ ' '.toUInt8 :: rest) =
      Incremental.parse consume (.uri, { req with method := req.method ++ method }) rest := by
  have hend : consume (.method, { req with method := req.method ++ method }) ' '.toUInt8 =
      (.indeterminate, (.uri, { req with method := req.method ++ method })) := by
    simp [consume]
  rw [← parse_cons_of_indeterminate hend]
  exact parse_while (fun m => (State.method, { req with method := m }))
    (fun m b => consume_method req m) h req.method _

/-- A URI is read up to the blank behind it. -/
theorem parse_uri (req : Request) {uri : List UInt8} (h : ∀ b ∈ uri, isUri b)
    (rest : List UInt8) :
    Incremental.parse consume (.uri, req) (uri ++ ' '.toUInt8 :: rest) =
      Incremental.parse consume (.httpVersionH, { req with uri := req.uri ++ uri }) rest := by
  have hend : consume (.uri, { req with uri := req.uri ++ uri }) ' '.toUInt8 =
      (.indeterminate, (.httpVersionH, { req with uri := req.uri ++ uri })) := by
    simp [consume]
  rw [← parse_cons_of_indeterminate hend]
  exact parse_while (fun u => (State.uri, { req with uri := u }))
    (fun u b => consume_uri req u) h req.uri _

/-- The start of a request line is read up to its version. -/
theorem parse_lineStart {start : List UInt8} (h : LineStart start) :
    ∃ req, ∀ rest, Incremental.parse consume (.methodStart, .new) (start ++ rest) =
      Incremental.parse consume (.httpVersionH, req) rest := by
  obtain ⟨method, uri, hne, hmethod, huri, rfl⟩ := h
  obtain ⟨b, method, rfl⟩ := List.exists_cons_of_ne_nil hne
  obtain ⟨hb, hmethod⟩ := List.forall_mem_cons.mp hmethod
  have hfirst : consume (.methodStart, .new) b =
      (.indeterminate, (.method, { Request.new with method := [b] })) := by
    simp [consume, hb, Request.new]
  refine ⟨{ Request.new with method := b :: method, uri := uri }, fun rest => ?_⟩
  have hmethods := parse_method { Request.new with method := [b] } hmethod
    (uri ++ ' '.toUInt8 :: rest)
  have huris := parse_uri { Request.new with method := b :: method } huri rest
  rw [List.append_assoc, List.cons_append, List.cons_append, parse_cons_of_indeterminate hfirst,
    List.append_assoc, List.singleton_append]
  exact hmethods.trans huris

/-- The parser behind the digits of a major number, one by one. -/
theorem parse_major {start digits : List UInt8} (hstart : LineStart start)
    (hdigits : ∀ b ∈ digits, isDecimal b) :
    ∃ req, ∀ rest, Incremental.parse consume (.methodStart, .new)
        (start ++ (chars "HTTP/" ++ digits) ++ rest) =
      Incremental.parse consume (inMajor req digits) rest := by
  obtain ⟨req, hreq⟩ := parse_lineStart hstart
  refine ⟨req, fun rest => ?_⟩
  have hhttp : Incremental.parse consume (.httpVersionH, req) (chars "HTTP/" ++ (digits ++ rest)) =
      Incremental.parse consume (inMajor req []) (digits ++ rest) := by
    simp [chars_slash, Incremental.parse, consume, expect, inMajor, appendDigits]
  rw [List.append_assoc, hreq, List.append_assoc, hhttp]
  exact parse_while (inMajor req) (fun ds b => consume_inMajor req ds) hdigits [] rest

/-- A request line is read up to the digits of its minor version. -/
theorem parse_minor {start major digits : List UInt8} (hstart : LineStart start)
    (hmajor : IsNumber major) (hdigits : ∀ b ∈ digits, isDecimal b) :
    ∃ req, ∀ rest, Incremental.parse consume (.methodStart, .new)
        (start ++ (chars "HTTP/" ++ (major ++ '.'.toUInt8 :: digits)) ++ rest) =
      Incremental.parse consume (inMinor req digits) rest := by
  obtain ⟨req, hreq⟩ := parse_major hstart hmajor.2
  refine ⟨(inMajor req major).2, fun rest => ?_⟩
  have hdot : consume (inMajor req major) '.'.toUInt8 =
      (.indeterminate, inMinor (inMajor req major).2 []) := by
    simp [consume, inMajor, inMinor, hmajor.1, appendDigits]
  have htext : start ++ (chars "HTTP/" ++ (major ++ '.'.toUInt8 :: digits)) ++ rest =
      start ++ (chars "HTTP/" ++ major) ++ '.'.toUInt8 :: (digits ++ rest) := by
    simp
  rw [htext, hreq, parse_cons_of_indeterminate hdot]
  exact parse_while (inMinor _) (fun ds b => consume_inMinor _ ds) hdigits [] rest

/-! ## From the state to the text -/

/-- What has been read in a state of the request line. -/
def Shape : State × Request → List UInt8 → Prop
  | (.methodStart, _), text => text = []
  | (.method, _), text => text ≠ [] ∧ ∀ b ∈ text, isToken b
  | (.uri, _), text => ∃ method uri, method ≠ [] ∧ (∀ b ∈ method, isToken b) ∧
      (∀ b ∈ uri, isUri b) ∧ text = method ++ ' '.toUInt8 :: uri
  | (.httpVersionH, _), text => LineStart text
  | (.httpVersionT1, _), text => ∃ start, LineStart start ∧ text = start ++ chars "H"
  | (.httpVersionT2, _), text => ∃ start, LineStart start ∧ text = start ++ chars "HT"
  | (.httpVersionP, _), text => ∃ start, LineStart start ∧ text = start ++ chars "HTT"
  | (.httpVersionSlash, _), text => ∃ start, LineStart start ∧ text = start ++ chars "HTTP"
  | (.httpVersionMajorStart, req), text => ∃ start, LineStart start ∧
      text = start ++ chars "HTTP/" ∧ req.httpVersionMajor = 0 ∧ req.httpVersionMinor = 0
  | (.httpVersionMajor, req), text => ∃ start digits, LineStart start ∧ IsNumber digits ∧
      text = start ++ (chars "HTTP/" ++ digits) ∧
      req.httpVersionMajor = appendDigits 0 digits ∧ req.httpVersionMinor = 0
  | (.httpVersionMinorStart, req), text => ∃ start major, LineStart start ∧ IsNumber major ∧
      text = start ++ (chars "HTTP/" ++ (major ++ ['.'.toUInt8])) ∧ req.httpVersionMinor = 0
  | (.httpVersionMinor, req), text => ∃ start major digits, LineStart start ∧ IsNumber major ∧
      IsNumber digits ∧ text = start ++ (chars "HTTP/" ++ (major ++ '.'.toUInt8 :: digits)) ∧
      req.httpVersionMinor = appendDigits 0 digits
  | _, _ => True

theorem forall_snoc {p : UInt8 → Bool} {text : List UInt8} {b : UInt8} (h : ∀ c ∈ text, p c)
    (hb : p b) : ∀ c ∈ text ++ [b], p c :=
  List.forall_mem_append.mpr ⟨h, List.forall_mem_singleton.mpr hb⟩

/-- A state that lets one byte pass is left with it. -/
theorem of_expect {c : Char} {stay go : State} {req : Request} {b : UInt8}
    {s' : State × Request} (h : expect c stay go req b = (.indeterminate, s')) :
    b = c.toUInt8 ∧ s' = (go, req) := by
  by_cases hb : b = c.toUInt8
  · simp [expect, hb] at h
    exact ⟨hb, h.symm⟩
  · simp [expect, hb] at h

/-- A byte that leaves the answer open keeps the text in the shape of its state. -/
theorem shape_consume (s : State × Request) (text : List UInt8) (b : UInt8)
    (s' : State × Request) (h : Shape s text) (hs' : consume s b = (.indeterminate, s')) :
    Shape s' (text ++ [b]) := by
  obtain ⟨state, req⟩ := s
  cases state with
  | methodStart =>
      obtain rfl : text = [] := h
      simp only [consume, notToken_eq] at hs'
      split_ifs at hs' with hb
      · cases hs'
      · cases hs'
        exact ⟨by simp, by simpa using hb⟩
  | method =>
      obtain ⟨hne, hmethod⟩ := h
      simp only [consume, notToken_eq] at hs'
      split_ifs at hs' with hspace hb
      · cases hs'
        exact ⟨text, [], hne, hmethod, by simp, by rw [hspace]⟩
      · cases hs'
      · cases hs'
        exact ⟨by simp, forall_snoc hmethod (by simpa using hb)⟩
  | uri =>
      obtain ⟨method, uri, hne, hmethod, huri, rfl⟩ := h
      simp only [consume, isCtl_intOf] at hs'
      split_ifs at hs' with hspace hb
      · cases hs'
        exact ⟨method, uri, hne, hmethod, huri, by simp [hspace]⟩
      · cases hs'
      · cases hs'
        exact ⟨method, uri ++ [b], hne, hmethod, forall_snoc huri (by simp [isUri, hb, hspace]),
          by simp⟩
  | httpVersionH =>
      obtain ⟨rfl, rfl⟩ := of_expect hs'
      exact ⟨text, h, rfl⟩
  | httpVersionT1 | httpVersionT2 | httpVersionP =>
      obtain ⟨rfl, rfl⟩ := of_expect hs'
      obtain ⟨start, hstart, rfl⟩ := h
      exact ⟨start, hstart, List.append_assoc _ _ _⟩
  | httpVersionSlash =>
      obtain ⟨start, hstart, rfl⟩ := h
      simp only [consume] at hs'
      split_ifs at hs' with hb
      · cases hs'
        exact ⟨start, hstart, by rw [hb]; exact List.append_assoc _ _ _, rfl, rfl⟩
      · cases hs'
  | httpVersionMajorStart =>
      obtain ⟨start, hstart, rfl, hzero, hminor⟩ := h
      simp only [consume, isDigit_intOf] at hs'
      split_ifs at hs' with hb
      · cases hs'
        exact ⟨start, [b], hstart, ⟨by simp, by simpa using hb⟩, List.append_assoc _ _ _,
          by simp [hzero, appendDigits], hminor⟩
      · cases hs'
  | httpVersionMajor =>
      obtain ⟨start, digits, hstart, hdigits, rfl, hmajor, hminor⟩ := h
      simp only [consume, isDigit_intOf] at hs'
      split_ifs at hs' with hdot hb
      · cases hs'
        exact ⟨start, digits, hstart, hdigits, by simp [hdot], hminor⟩
      · cases hs'
        exact ⟨start, digits ++ [b], hstart, ⟨by simp, forall_snoc hdigits.2 hb⟩, by simp,
          by simp [hmajor, appendDigits_snoc], hminor⟩
      · cases hs'
  | httpVersionMinorStart =>
      obtain ⟨start, major, hstart, hmajor, rfl, hzero⟩ := h
      simp only [consume, isDigit_intOf] at hs'
      split_ifs at hs' with hb
      · cases hs'
        exact ⟨start, major, [b], hstart, hmajor, ⟨by simp, by simpa using hb⟩, by simp,
          by simp [hzero, appendDigits]⟩
      · cases hs'
  | httpVersionMinor =>
      obtain ⟨start, major, digits, hstart, hmajor, hdigits, rfl, hminor⟩ := h
      simp only [consume, isDigit_intOf] at hs'
      split_ifs at hs' with hend hb
      · cases hs'
        exact trivial
      · cases hs'
        exact ⟨start, major, digits ++ [b], hstart, hmajor, ⟨by simp, forall_snoc hdigits.2 hb⟩,
          by simp, by simp [hminor, appendDigits_snoc]⟩
      · cases hs'
  | expectingNewline1 | expectingNewline2 | spaceBeforeHeaderValue =>
      obtain ⟨-, rfl⟩ := of_expect hs'
      exact trivial
  | headerLineStart | headerLws | headerName | headerValue | expectingNewline3 =>
      -- no state behind the request line leads back to it
      simp only [consume] at hs'
      split_ifs at hs'
      all_goals
        cases hs'
        try exact trivial

/-! ## Updates of a call -/

/-- The text before the last digit of a number. -/
theorem endsInNumber_snoc {text digits : List UInt8} {b : UInt8} :
    EndsInNumber (digits ++ [b]) (text ++ [b]) ↔
      isDecimal b ∧ (∀ c ∈ digits, isDecimal c) ∧ ∃ start, LineStart start ∧
        (text = start ++ (chars "HTTP/" ++ digits) ∨
          ∃ major, IsNumber major ∧
            text = start ++ (chars "HTTP/" ++ (major ++ '.'.toUInt8 :: digits))) := by
  constructor
  · intro h
    generalize htext : text ++ [b] = w at h
    cases h with
    | @major start hstart hnumber =>
        rw [← List.append_assoc, ← List.append_assoc, List.append_left_inj] at htext
        exact ⟨hnumber.2 b (by simp), fun c hc => hnumber.2 c (by simp [hc]), start, hstart,
          .inl (by rw [htext, List.append_assoc])⟩
    | @minor start major hstart hmajor hnumber =>
        have hcut : text ++ [b] =
            start ++ (chars "HTTP/" ++ (major ++ '.'.toUInt8 :: digits)) ++ [b] := by
          simp [htext]
        exact ⟨hnumber.2 b (by simp), fun c hc => hnumber.2 c (by simp [hc]), start, hstart,
          .inr ⟨major, hmajor, List.append_left_inj [b] |>.mp hcut⟩⟩
  · rintro ⟨hb, hdigits, start, hstart, rfl | ⟨major, hmajor, rfl⟩⟩
    · simpa using EndsInNumber.major hstart ⟨by simp, forall_snoc hdigits hb⟩
    · simpa using EndsInNumber.minor hstart hmajor ⟨by simp, forall_snoc hdigits hb⟩

/-- A step appends to a version number where the text read so far goes on to one. -/
theorem updated_iff {text : List UInt8} {b : UInt8} {x : Int} :
    (∃ s, Incremental.parse consume (.methodStart, .new) text = (.indeterminate, s, []) ∧
        updated s b = some x) ↔
      ∃ digits, EndsInNumber (digits ++ [b]) (text ++ [b]) ∧ x = decimalValue digits := by
  simp only [endsInNumber_snoc]
  constructor
  · rintro ⟨⟨state, req⟩, hparse, hx⟩
    have hinit : Shape (.methodStart, .new) [] := rfl
    have hshape := parse_indeterminate_invariant shape_consume hinit hparse
    rw [List.nil_append] at hshape
    cases state with
    | httpVersionMajorStart =>
        obtain ⟨start, hstart, rfl, hzero, -⟩ := hshape
        simp only [updated, isDigit_intOf] at hx
        split_ifs at hx with hb
        cases hx
        exact ⟨[], ⟨hb, by simp, start, hstart, .inl (by simp)⟩, hzero⟩
    | httpVersionMajor =>
        obtain ⟨start, digits, hstart, hdigits, rfl, hmajor, -⟩ := hshape
        simp only [updated, isDigit_intOf] at hx
        split_ifs at hx with hb
        cases hx
        exact ⟨digits, ⟨hb, hdigits.2, start, hstart, .inl rfl⟩,
          hmajor.trans (appendDigits_zero hdigits.2)⟩
    | httpVersionMinorStart =>
        obtain ⟨start, major, hstart, hmajor, rfl, hzero⟩ := hshape
        simp only [updated, isDigit_intOf] at hx
        split_ifs at hx with hb
        cases hx
        exact ⟨[], ⟨hb, by simp, start, hstart, .inr ⟨major, hmajor, rfl⟩⟩, hzero⟩
    | httpVersionMinor =>
        obtain ⟨start, major, digits, hstart, hmajor, hdigits, rfl, hminor⟩ := hshape
        simp only [updated, isDigit_intOf] at hx
        split_ifs at hx with hb
        cases hx
        exact ⟨digits, ⟨hb, hdigits.2, start, hstart, .inr ⟨major, hmajor, rfl⟩⟩,
          hminor.trans (appendDigits_zero hdigits.2)⟩
    | _ => simp [updated] at hx
  · rintro ⟨digits, ⟨hb, hdigits, start, hstart, rfl | ⟨major, hmajor, rfl⟩⟩, rfl⟩
    · obtain ⟨req, hreq⟩ := parse_major hstart hdigits
      refine ⟨inMajor req digits, by simpa using hreq [], ?_⟩
      rw [updated_inMajor req digits hb, appendDigits_zero hdigits]
    · obtain ⟨req, hreq⟩ := parse_minor hstart hmajor hdigits
      refine ⟨inMinor req digits, by simpa using hreq [], ?_⟩
      rw [updated_inMinor req digits hb, appendDigits_zero hdigits]

/-- The updates of a call are those that the numbers in its input make. -/
theorem staysInInt_iff {values : Int → UInt8 → List Int} {stream : List UInt8} :
    StaysInInt values (steps consume (.methodStart, .new) stream) ↔
      ∀ text digits b, text ++ [b] <+: stream → EndsInNumber (digits ++ [b]) (text ++ [b]) →
        ∀ v ∈ values (decimalValue digits) b, InInt v := by
  constructor
  · rintro h text digits b ⟨after, rfl⟩ hends
    obtain ⟨s, hparse, hx⟩ := updated_iff.mpr ⟨digits, hends, rfl⟩
    exact h (s, b) (mem_steps_iff.mpr ⟨text, after, by simp, hparse⟩) _ hx
  · rintro h ⟨s, b⟩ hstep x hx
    obtain ⟨text, after, rfl, hparse⟩ := mem_steps_iff.mp hstep
    obtain ⟨digits, hends, rfl⟩ := updated_iff.mp ⟨s, hparse, hx⟩
    exact h text digits b ⟨after, by simp⟩ hends

/-- A bound on the numbers, digit by digit. -/
theorem numbersBelow_iff {bound : Nat} {stream : List UInt8} :
    NumbersBelow bound stream ↔
      ∀ text digits b, text ++ [b] <+: stream → EndsInNumber (digits ++ [b]) (text ++ [b]) →
        decimalValue (digits ++ [b]) < bound := by
  constructor
  · exact fun h text digits b hprefix hends => h _ _ hprefix hends
  · intro h text digits hprefix hends
    have hnumber : digits ≠ [] ∧ ∃ before, text = before ++ digits := by
      cases hends with
      | @major start _ hnumber => exact ⟨hnumber.1, start ++ chars "HTTP/", by simp⟩
      | @minor start major _ _ hnumber =>
          exact ⟨hnumber.1, start ++ (chars "HTTP/" ++ (major ++ ['.'.toUInt8])), by simp⟩
    obtain ⟨hne, before, rfl⟩ := hnumber
    obtain ⟨digits, b, rfl⟩ := (List.eq_nil_or_concat' digits).resolve_left hne
    rw [← List.append_assoc] at hprefix hends
    exact h _ digits b hprefix hends

/-! ## The range of `int` -/

theorem intOf_mem (b : UInt8) (hb : isDecimal b) : 48 ≤ intOf b ∧ intOf b ≤ 57 := by
  rw [← isDigit_intOf] at hb
  simpa [isDigit] using hb

/-- The value of one digit more. -/
theorem decimalValue_snoc {digits : List UInt8} {b : UInt8} (hdigits : ∀ c ∈ digits, isDecimal c)
    (hb : isDecimal b) :
    (decimalValue (digits ++ [b]) : Int) = decimalValue digits * 10 + intOf b - 48 := by
  rw [← appendDigits_zero (forall_snoc hdigits hb), appendDigits_snoc, appendDigits_zero hdigits]

/-- What is assigned is an `int` exactly if the number is below 2^31. -/
theorem assigned_inInt_iff {digits : List UInt8} {b : UInt8} (hdigits : ∀ c ∈ digits, isDecimal c)
    (hb : isDecimal b) :
    (∀ v ∈ assigned (decimalValue digits) b, InInt v) ↔
      decimalValue (digits ++ [b]) < 2 ^ 31 := by
  have hvalue := decimalValue_snoc hdigits hb
  simp only [assigned, List.mem_singleton, forall_eq, InInt]
  omega

/-- The largest value is the one before the code of `'0'` is taken off. -/
theorem evaluated_inInt_iff {digits : List UInt8} {b : UInt8} (hdigits : ∀ c ∈ digits, isDecimal c)
    (hb : isDecimal b) :
    (∀ v ∈ evaluated (decimalValue digits) b, InInt v) ↔
      decimalValue (digits ++ [b]) < 2 ^ 31 - 48 := by
  have hvalue := decimalValue_snoc hdigits hb
  have hcode := intOf_mem b hb
  simp only [evaluated, List.forall_mem_cons, InInt]
  constructor
  · rintro ⟨-, hsum, -⟩
    omega
  · intro hbound
    refine ⟨?_, ?_, ?_, by simp⟩
    all_goals omega

/-- What holds of the numbers and what holds of the updates, if a number and its last update
agree. -/
theorem staysInInt_iff_numbersBelow {values : Int → UInt8 → List Int} {bound : Nat}
    (hlast : ∀ {digits b}, (∀ c ∈ digits, isDecimal c) → isDecimal b →
      ((∀ v ∈ values (decimalValue digits) b, InInt v) ↔ decimalValue (digits ++ [b]) < bound))
    (stream : List UInt8) :
    StaysInInt values (steps consume (.methodStart, .new) stream) ↔ NumbersBelow bound stream := by
  rw [staysInInt_iff, numbersBelow_iff]
  refine forall₄_congr fun text digits b _ => forall_congr' fun hends => ?_
  obtain ⟨hb, hdigits, -⟩ := endsInNumber_snoc.mp hends
  exact hlast hdigits hb

/-- An answer of true leaves the numbers of the request line. -/
theorem versionsWritten (stream : List UInt8)
    (h : (Incremental.parse consume (.methodStart, .new) stream).1 = .true) :
    ∃ m : RequestText, m.bytes <+: stream ∧
      (Incremental.parse consume (.methodStart, .new) stream).2.1.2.httpVersionMajor =
        decimalValue m.major ∧
      (Incremental.parse consume (.methodStart, .new) stream).2.1.2.httpVersionMinor =
        decimalValue m.minor := by
  obtain ⟨m, hstream, hrequest⟩ := parse_true_iff.mp ⟨_, Prod.ext h rfl⟩
  exact ⟨m, ⟨_, hstream.symm⟩, congrArg Request.httpVersionMajor hrequest,
    congrArg Request.httpVersionMinor hrequest⟩

/-- **Version numbers**: the updates stay in an `int` exactly as long as every number that
the stream begins stays 48 below its end.  The values that are assigned stay in it as long
as the numbers do. -/
theorem versionsFit_iff (chunks : List (List UInt8)) :
    (VersionsFit chunks ↔ NumbersBelow (2 ^ 31 - 48) chunks.flatten) ∧
      (StaysInInt assigned (feed consume (.methodStart, .new) chunks).2.2 ↔
        NumbersBelow (2 ^ 31) chunks.flatten) := by
  have hevaluated := staysInInt_iff_numbersBelow evaluated_inInt_iff chunks.flatten
  refine ⟨⟨fun h => ?_, fun h => ⟨?_, ?_⟩⟩, ?_⟩
  · have hfit := h.inInt
    rw [feed_eq] at hfit
    exact hevaluated.mp hfit
  · rw [feed_eq]
    exact hevaluated.mpr h
  · rw [feed_eq]
    exact versionsWritten chunks.flatten
  · rw [feed_eq]
    exact staysInInt_iff_numbersBelow assigned_inInt_iff chunks.flatten

/-- A request line with a long version number. -/
def longVersion : List UInt8 := chars "GET / HTTP/2147483648.0\r\n\r\n"

/-- Its last digit takes the number to `2 ^ 31`. -/
theorem versionsFit_counterexample : ¬ VersionsFit [longVersion] := by
  intro h
  have hfit := h.inInt
  rw [feed_eq, staysInInt_iff_numbersBelow evaluated_inInt_iff] at hfit
  have hstart : LineStart (chars "GET / ") :=
    ⟨chars "GET", chars "/", by decide, List.all_eq_true.mp (by decide),
      List.all_eq_true.mp (by decide), by decide⟩
  have hnumber : IsNumber (chars "2147483648") := ⟨by decide, List.all_eq_true.mp (by decide)⟩
  have hbelow := hfit _ _ (by decide) (.major hstart hnumber)
  exact absurd hbelow (by decide)

end RequestParser

end Splice

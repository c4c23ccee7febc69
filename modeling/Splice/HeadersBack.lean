import Splice.HttpServer

/-!
# Splice.HeadersBack

`req.headers.back()`: four states of the request parser change the last header, and nothing
in `consume` asks whether there is one.  They are entered from `header_line_start` only, by
a `push_back` or behind the test that there are headers; and each header has a name from the
byte on that began it (`headersBack_defined`).
-/

namespace Splice

open Incremental

namespace RequestParser

/-- The states in which the next byte may change `req.headers.back()`. -/
def usesBack : State → Bool
  | .headerLws | .headerName | .headerValue => true
  | _ => false

/-- There is a last header where it may be changed, and it has a name. -/
def BackDefined (s : State × Request) : Prop :=
  usesBack s.1 → ∃ header, s.2.headers.getLast? = some header ∧ header.name ≠ []

/-- A state inside a header line. -/
def inHeader : State → Bool
  | .headerLws | .headerName | .spaceBeforeHeaderValue | .headerValue => true
  | _ => false

/-- The invariant: inside a header line there is a header, and the last one has a name. -/
structure HeadersNamed (s : State × Request) : Prop where
  present : inHeader s.1 → s.2.headers ≠ []
  named : ∀ header ∈ s.2.headers.getLast?, header.name ≠ []

/-- With a last header that is named, `headers.back()` is defined. -/
theorem HeadersNamed.backDefined {s : State × Request} (h : HeadersNamed s) : BackDefined s := by
  intro hback
  have hheader : inHeader s.1 := by
    revert hback
    cases s.1 <;> simp [usesBack, inHeader]
  have hlast := List.getLast?_eq_some_getLast (h.present hheader)
  exact ⟨_, hlast, h.named _ hlast⟩

/-! ## One step -/

variable {req : Request}

/-- A change of the last header changes just that one. -/
theorem getLast?_modifyBack (f : Header → Header) :
    (req.modifyBack f).headers.getLast? = req.headers.getLast?.map f := by
  rcases List.eq_nil_or_concat req.headers with h | ⟨headers, last, h⟩
  · simp [Request.modifyBack, h]
  · simp [Request.modifyBack, h]

/-- It leaves a header there. -/
theorem modifyBack_ne_nil {f : Header → Header} (h : req.headers ≠ []) :
    (req.modifyBack f).headers ≠ [] := by
  rw [← List.getLast?_isSome, getLast?_modifyBack, Option.isSome_map, List.getLast?_isSome]
  exact h

/-- A name that is written to is not empty. -/
theorem named_pushName (req : Request) (b : UInt8) :
    ∀ header ∈ (req.pushName b).headers.getLast?, header.name ≠ [] := by
  intro header hheader
  rw [Request.pushName, getLast?_modifyBack] at hheader
  obtain ⟨last, -, rfl⟩ := Option.map_eq_some_iff.mp hheader
  simp

/-- A byte of a value leaves the name of its header. -/
theorem named_pushValue (h : ∀ header ∈ req.headers.getLast?, header.name ≠ []) (b : UInt8) :
    ∀ header ∈ (req.pushValue b).headers.getLast?, header.name ≠ [] := by
  intro header hheader
  rw [Request.pushValue, getLast?_modifyBack] at hheader
  obtain ⟨last, hlast, rfl⟩ := Option.map_eq_some_iff.mp hheader
  exact h last hlast

/-- The step lemma: each byte leaves the last header named where its state uses it. -/
theorem headersNamed_consume (s : State × Request) (b : UInt8) (h : HeadersNamed s) :
    HeadersNamed (consume s b).2 := by
  obtain ⟨state, req⟩ := s
  obtain ⟨hpresent, hnamed⟩ := h
  cases state with
  | headerLineStart =>
      simp only [consume]
      split_ifs with hend hfold htoken
      · exact ⟨by simp [inHeader], hnamed⟩
      · exact ⟨fun _ => hfold.1, hnamed⟩
      · exact ⟨by simp [inHeader], hnamed⟩
      · -- a new header, and the first byte of its name
        exact ⟨fun _ => modifyBack_ne_nil (by simp [Request.pushHeader]), named_pushName _ b⟩
  | headerLws =>
      simp only [consume]
      split_ifs
      · exact ⟨fun _ => hpresent rfl, hnamed⟩
      · exact ⟨fun _ => hpresent rfl, hnamed⟩
      · exact ⟨fun _ => hpresent rfl, hnamed⟩
      · exact ⟨fun _ => modifyBack_ne_nil (hpresent rfl), named_pushValue hnamed b⟩
  | headerValue =>
      simp only [consume]
      split_ifs
      · exact ⟨fun _ => hpresent rfl, hnamed⟩
      · exact ⟨fun _ => hpresent rfl, hnamed⟩
      · exact ⟨fun _ => modifyBack_ne_nil (hpresent rfl), named_pushValue hnamed b⟩
  | headerName =>
      simp only [consume]
      split_ifs
      · exact ⟨fun _ => hpresent rfl, hnamed⟩
      · exact ⟨fun _ => hpresent rfl, hnamed⟩
      · exact ⟨fun _ => modifyBack_ne_nil (hpresent rfl), named_pushName req b⟩
  | spaceBeforeHeaderValue =>
      simp only [consume, expect]
      split_ifs
      · exact ⟨fun _ => hpresent rfl, hnamed⟩
      · exact ⟨fun _ => hpresent rfl, hnamed⟩
  | methodStart | method | uri | httpVersionH | httpVersionT1 | httpVersionT2 | httpVersionP
  | httpVersionSlash | httpVersionMajorStart | httpVersionMajor | httpVersionMinorStart
  | httpVersionMinor | expectingNewline1 | expectingNewline2 =>
      simp only [consume, expect]
      split_ifs
      all_goals exact ⟨by simp [inHeader], hnamed⟩
  | expectingNewline3 => exact ⟨by simp [consume, inHeader], hnamed⟩

/-- A new parser uses no header. -/
theorem headersNamed_new : HeadersNamed (.methodStart, .new) := by
  refine ⟨by simp [inHeader], ?_⟩
  simp [Request.new]

/-! ## Sequences of calls -/

/-- The parser and the request after some calls of a class's `parse`, whatever they answer. -/
def afterCalls (parse : State → Request → List UInt8 → Tribool × (State × Request) × List UInt8)
    (chunks : List (List UInt8)) : State × Request :=
  chunks.foldl (fun s chunk => (parse s.1 s.2 chunk).2.1) (.methodStart, .new)

/-- Any calls leave it so. -/
theorem headersNamed_afterCalls (chunks : List (List UInt8)) :
    HeadersNamed (afterCalls parse chunks) := by
  have hfold : ∀ s, HeadersNamed s →
      HeadersNamed (chunks.foldl (fun s chunk => (parse s.1 s.2 chunk).2.1) s) := by
    induction chunks with
    | nil => exact fun _ hs => hs
    | cons chunk chunks ih =>
        exact fun s hs => ih _ (parse_invariant headersNamed_consume hs chunk)
  exact hfold _ headersNamed_new

/-- **`headers.back()` is never taken of an empty list**: not in a step of any sequence of
calls on a fresh parser and a fresh request, and not in the state that it leaves, by either
parser. -/
theorem headersBack_defined (chunks : List (List UInt8)) :
    (∀ step ∈ stepsOfCalls consume (.methodStart, .new) chunks, BackDefined step.1) ∧
      BackDefined (afterCalls parse chunks) ∧
      BackDefined (afterCalls HttpServer.parseRequest chunks) := by
  refine ⟨fun step hstep => ?_, (headersNamed_afterCalls chunks).backDefined,
    (headersNamed_afterCalls chunks).backDefined⟩
  exact (stepsOfCalls_invariant headersNamed_consume headersNamed_new hstep).backDefined

end RequestParser

end Splice

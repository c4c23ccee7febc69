import Mathlib.Data.List.Basic

/-!
# Splice.Lib.StreamReader

Readers of streams: a reader takes a value off the front of what has arrived, or gives none
while that is not a value and not the beginning of one.

`Reads` says that a reader takes off exactly what was written, whatever follows, and `Stable`
that what has been read stays so when more arrives.  Together they make what is written
self-delimiting: no part of it is read as a whole (`Reads.unfinished`).
-/

namespace StreamReader

variable {ε α β : Type}

/-- A reader of streams of `ε`. -/
abbrev Reader (ε α : Type) := StateT (List ε) Option α

/-- The next elements, so many. -/
def take (count : Nat) : Reader ε (List ε) := fun stream =>
  if count ≤ stream.length then some (stream.take count, stream.drop count) else none

/-- The next element. -/
def one : Reader ε ε
  | [] => none
  | x :: stream => some (x, stream)

/-- What is written so is read back, and no more than that. -/
def Reads (read : Reader ε α) (value : α) (written : List ε) : Prop :=
  ∀ rest, read (written ++ rest) = some (value, rest)

/-- What has been read stays so when more follows. -/
def Stable (read : Reader ε α) : Prop :=
  ∀ ⦃stream value rest⦄, read stream = some (value, rest) →
    ∀ more, read (stream ++ more) = some (value, rest ++ more)

/-! ## Reading in turn -/

theorem bind_eq (read : Reader ε α) (next : α → Reader ε β) (stream : List ε) :
    (read >>= next) stream = (read stream).bind fun p => next p.1 p.2 := rfl

theorem reads_pure (value : α) : Reads (pure value : Reader ε α) value [] := fun _ => rfl

/-- A decision that takes nothing off. -/
theorem reads_lift {answer : Option α} {value : α} (h : answer = some value) :
    Reads (liftM answer : Reader ε α) value [] := by
  rintro rest
  rw [h]
  rfl

theorem reads_take (written : List ε) : Reads (take written.length) written written := by
  intro rest
  rw [take, if_pos (by simp), List.take_left, List.drop_left]

theorem reads_one (x : ε) : Reads one x [x] := fun _ => rfl

/-- What is written one behind the other is read one after the other. -/
theorem Reads.bind {read : Reader ε α} {next : α → Reader ε β} {a : α} {b : β}
    {written more : List ε} (hread : Reads read a written) (hnext : Reads (next a) b more) :
    Reads (read >>= next) b (written ++ more) := by
  intro rest
  rw [bind_eq, List.append_assoc, hread, Option.bind_some, hnext]

/-- Behind a decision comes what is written. -/
theorem Reads.lift_bind {answer : Option α} {next : α → Reader ε β} {a : α} {b : β}
    {written : List ε} (h : answer = some a) (hnext : Reads (next a) b written) :
    Reads ((liftM answer : Reader ε α) >>= next) b written :=
  (reads_lift h).bind hnext

/-! ## Stability -/

/-- A reader that reads nothing is stable. -/
theorem stable_pure (value : α) : Stable (pure value : Reader ε α) := by
  intro stream value' rest h more
  obtain ⟨rfl, rfl⟩ := Prod.mk.inj (Option.some.inj h)
  rfl

/-- A reader that only answers is stable. -/
theorem stable_lift (answer : Option α) : Stable (liftM answer : Reader ε α) := by
  cases answer with
  | none => intro stream value rest h; cases h
  | some value => exact stable_pure value

/-- A reader that takes a count of elements is stable. -/
theorem stable_take (count : Nat) : Stable (take count : Reader ε (List ε)) := by
  intro stream value rest h more
  obtain ⟨hle, hsome⟩ := Option.ite_none_right_eq_some.mp h
  obtain ⟨rfl, rfl⟩ := Prod.mk.inj (Option.some.inj hsome)
  have hle' : count ≤ (stream ++ more).length := by
    rw [List.length_append]
    omega
  rw [take, if_pos hle', List.take_append_of_le_length hle, List.drop_append_of_le_length hle]

/-- A reader that takes one element is stable. -/
theorem stable_one : Stable (one : Reader ε ε) := by
  intro stream value rest h more
  cases stream with
  | nil => cases h
  | cons x stream =>
      obtain ⟨rfl, rfl⟩ := Prod.mk.inj (Option.some.inj h)
      rfl

/-- One stable reader after another is stable. -/
theorem Stable.bind {read : Reader ε α} {next : α → Reader ε β} (hread : Stable read)
    (hnext : ∀ value, Stable (next value)) : Stable (read >>= next) := by
  intro stream value rest h more
  obtain ⟨⟨first, left⟩, hfirst, hvalue⟩ := Option.bind_eq_some_iff.mp h
  rw [bind_eq, hread hfirst, Option.bind_some, hnext first hvalue]

/-! ## Self-delimiting messages -/

variable {read : Reader ε α} {value : α} {written part : List ε}

/-- **No part of a message is read as a whole.** -/
theorem Reads.unfinished (hread : Reads read value written) (hstable : Stable read)
    (hpart : part <+: written) (hne : part ≠ written) : read part = none := by
  obtain ⟨more, rfl⟩ := hpart
  cases h : read part with
  | none => rfl
  | some p =>
      obtain ⟨value', rest⟩ := p
      have hwhole := hread []
      rw [List.append_nil, hstable h more] at hwhole
      obtain ⟨-, hrest⟩ := Prod.mk.inj (Option.some.inj hwhole)
      obtain ⟨-, rfl⟩ := List.append_eq_nil_iff.mp hrest
      exact absurd (List.append_nil part).symm hne

/-! ## Messages one after the other -/

/-- The values that come next, at most `bound` of them, and what is left. -/
def readMany (read : Reader ε α) : Nat → List ε → List α × List ε
  | 0, stream => ([], stream)
  | bound + 1, stream =>
      match read stream with
      | none => ([], stream)
      | some (value, rest) =>
          (value :: (readMany read bound rest).1, (readMany read bound rest).2)

/-- All values that have arrived, if each takes an element or more. -/
def readAll (read : Reader ε α) (stream : List ε) : List α × List ε :=
  readMany read stream.length stream

/-- Where nothing is read, the repetition ends. -/
theorem readMany_of_none {stream : List ε} (h : read stream = none) (bound : Nat) :
    readMany read bound stream = ([], stream) := by
  cases bound with
  | zero => rfl
  | succ bound => rw [readMany, h]

/-- Where something is read, the repetition goes on behind that. -/
theorem readMany_append (hread : Reads read value written) (bound : Nat) (rest : List ε) :
    readMany read (bound + 1) (written ++ rest) =
      (value :: (readMany read bound rest).1, (readMany read bound rest).2) := by
  rw [readMany, hread]

variable {μ : Type} {encode : μ → List ε} {decode : μ → α} {msgs : List μ} {stream : List ε}

/-- **A part of a stream of messages** is read as the first of them, and all of it as all. -/
theorem readMany_of_prefix (hread : ∀ msg ∈ msgs, Reads read (decode msg) (encode msg))
    (hne : ∀ msg ∈ msgs, encode msg ≠ []) (hstable : Stable read) (hnil : read [] = none)
    (hfirst : stream <+: msgs.flatMap encode) {bound : Nat} (hbound : stream.length ≤ bound) :
    ∃ count, (readMany read bound stream).1 = (msgs.take count).map decode ∧
      (stream = msgs.flatMap encode → msgs.length ≤ count) := by
  induction msgs generalizing bound stream with
  | nil =>
      obtain rfl : stream = [] := List.prefix_nil.mp hfirst
      exact ⟨0, by rw [readMany_of_none hnil]; rfl, fun _ => Nat.zero_le _⟩
  | cons msg msgs ih =>
      obtain ⟨hmsg, hmsgs⟩ := List.forall_mem_cons.mp hread
      obtain ⟨hmsgne, hmsgsne⟩ := List.forall_mem_cons.mp hne
      rw [List.flatMap_cons] at hfirst ⊢
      by_cases hwhole : encode msg <+: stream
      · obtain ⟨rest, rfl⟩ := hwhole
        have hpos : 0 < (encode msg).length := List.length_pos_of_ne_nil hmsgne
        rw [List.length_append] at hbound
        obtain ⟨bound, rfl⟩ : ∃ left, bound = left + 1 := ⟨bound - 1, by omega⟩
        obtain ⟨count, hcount, hall⟩ := ih hmsgs hmsgsne
          ((List.prefix_append_right_inj _).mp hfirst) (by omega : rest.length ≤ bound)
        refine ⟨count + 1, ?_, fun heq => ?_⟩
        · rw [readMany_append hmsg, hcount]
          rfl
        · exact Nat.succ_le_succ (hall (List.append_cancel_left heq))
      · -- the next message has not arrived whole
        have hpart : stream <+: encode msg :=
          (List.prefix_or_prefix_of_prefix hfirst (List.prefix_append _ _)).resolve_right hwhole
        have hnone : read stream = none := hmsg.unfinished hstable hpart
          fun heq => hwhole (heq ▸ List.prefix_rfl)
        refine ⟨0, ?_, fun heq => absurd ?_ hwhole⟩
        · rw [readMany_of_none hnone]
          rfl
        · rw [heq]
          exact List.prefix_append _ _

/-- **What has arrived of messages that are being written is read as the first of them**, and as
all of them when all has arrived. -/
theorem readAll_of_prefix (hread : ∀ msg ∈ msgs, Reads read (decode msg) (encode msg))
    (hne : ∀ msg ∈ msgs, encode msg ≠ []) (hstable : Stable read) (hnil : read [] = none)
    (hfirst : stream <+: msgs.flatMap encode) :
    (readAll read stream).1 <+: msgs.map decode ∧
      (stream = msgs.flatMap encode → (readAll read stream).1 = msgs.map decode) := by
  obtain ⟨count, hcount, hall⟩ :=
    readMany_of_prefix hread hne hstable hnil hfirst (Nat.le_refl stream.length)
  rw [readAll, hcount]
  refine ⟨(List.take_prefix count msgs).map decode, fun heq => ?_⟩
  rw [List.take_of_length_le (hall heq)]

end StreamReader

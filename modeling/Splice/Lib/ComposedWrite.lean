import Mathlib.Data.List.Basic
import Mathlib.Data.List.Flatten

/-!
# Splice.Lib.ComposedWrite

Composed writes on one sink: each write keeps what it has not sent yet, and whenever
the sink takes something it takes some of the bytes next in line of *one* of the
writes outstanding.  Nothing orders the writes among themselves.

If the sink only ever takes bytes of the oldest write that is not finished, the bytes
taken are those of the writes in the order they were started (`Sink.InOrder` and its
two preservation lemmas).  If it only takes bytes of the latest write, they are what it
took of each write in turn, whatever became of the earlier ones (`Sink.InTurn`).

`Sink.Accounted` says which writes their owner still waits for.
-/

namespace ComposedWrite

variable {α : Type}

/-- What is in a list is there still when another element has been taken out. -/
theorem mem_eraseIdx_or_eq {β : Type} {l : List β} {k : Nat} {x y : β} (hget : l[k]? = some y)
    (hx : x ∈ l) : x ∈ l.eraseIdx k ∨ x = y := by
  obtain ⟨i, hi⟩ := List.getElem?_of_mem hx
  by_cases hik : i = k
  · subst hik
    rw [hget] at hi
    exact .inr (Option.some.inj hi).symm
  · exact .inl (List.mem_eraseIdx_iff_getElem?.mpr ⟨i, hik, hi⟩)

/-- A write: its bytes, and how many of them the sink has taken. -/
structure Write (α : Type) where
  bytes : List α
  sent : Nat
  sent_le : sent ≤ bytes.length

namespace Write

/-- A write of which nothing has been sent. -/
def start (bytes : List α) : Write α := ⟨bytes, 0, Nat.zero_le _⟩

/-- The bytes still to send. -/
def unsent (write : Write α) : List α := write.bytes.drop write.sent

/-- The bytes sent. -/
def taken (write : Write α) : List α := write.bytes.take write.sent

theorem taken_append_unsent (write : Write α) : write.taken ++ write.unsent = write.bytes :=
  List.take_append_drop _ _

theorem taken_eq_of_unsent {write : Write α} (h : write.unsent = []) :
    write.taken = write.bytes := by
  rw [← taken_append_unsent, h, List.append_nil]

theorem length_unsent (write : Write α) :
    write.unsent.length = write.bytes.length - write.sent :=
  List.length_drop

/-- The write with `count` more bytes sent. -/
def advance (write : Write α) (count : Nat) (h : count ≤ write.unsent.length) : Write α where
  bytes := write.bytes
  sent := write.sent + count
  sent_le := by
    have hle := write.sent_le
    rw [length_unsent] at h
    omega

@[simp] theorem unsent_start (bytes : List α) : (start bytes).unsent = bytes := rfl

@[simp] theorem taken_start (bytes : List α) : (start bytes).taken = [] := List.take_zero

@[simp] theorem bytes_start (bytes : List α) : (start bytes).bytes = bytes := rfl

@[simp] theorem bytes_advance (write : Write α) (count : Nat) (h : count ≤ write.unsent.length) :
    (write.advance count h).bytes = write.bytes := rfl

theorem unsent_advance (write : Write α) (count : Nat) (h : count ≤ write.unsent.length) :
    (write.advance count h).unsent = write.unsent.drop count := by
  simp [unsent, advance, List.drop_drop]

theorem taken_advance (write : Write α) (count : Nat) (h : count ≤ write.unsent.length) :
    (write.advance count h).taken = write.taken ++ write.unsent.take count := by
  simp [taken, unsent, advance, List.take_add]

end Write

/-- A sink: the bytes it has taken, and the writes started on it, oldest first. -/
structure Sink (α : Type) where
  wire : List α
  writes : List (Write α)

namespace Sink

/-- A sink on which nothing has been written. -/
def empty : Sink α := ⟨[], []⟩

/-- Start a write. -/
def start (s : Sink α) (bytes : List α) : Sink α :=
  { s with writes := s.writes ++ [.start bytes] }

/-- The sink takes the next `count` bytes of write number `op`, at least one. -/
def writeSome (s : Sink α) (op count : Nat) : Option (Sink α) :=
  match s.writes[op]? with
  | none => none
  | some write =>
      if h : 0 < count ∧ count ≤ write.unsent.length then
        some
          { wire := s.wire ++ write.unsent.take count
            writes := s.writes.set op (write.advance count h.2) }
      else none

/-- All writes have been sent. -/
def Finished (s : Sink α) : Prop := ∀ write ∈ s.writes, write.unsent = []

/-- Every write before number `op` has been sent. -/
def Oldest (s : Sink α) (op : Nat) : Prop := ∀ write ∈ s.writes.take op, write.unsent = []

instance [DecidableEq α] (s : Sink α) : Decidable s.Finished :=
  inferInstanceAs (Decidable (∀ write ∈ s.writes, write.unsent = []))

instance [DecidableEq α] (s : Sink α) (op : Nat) : Decidable (s.Oldest op) :=
  inferInstanceAs (Decidable (∀ write ∈ s.writes.take op, write.unsent = []))

/-- The writes one after the other. -/
def expected (s : Sink α) : List α := s.writes.flatMap Write.bytes

/-- What the sink has taken, and then what the writes have left, are the writes one
after the other. -/
def InOrder (s : Sink α) : Prop := s.wire ++ s.writes.flatMap Write.unsent = s.expected

theorem inOrder_empty : (empty : Sink α).InOrder := rfl

@[simp] theorem expected_start (s : Sink α) (bytes : List α) :
    (s.start bytes).expected = s.expected ++ bytes := by
  simp [expected, start]

/-- Beginning a write keeps the order. -/
theorem inOrder_start {s : Sink α} (h : s.InOrder) (bytes : List α) :
    (s.start bytes).InOrder := by
  rw [InOrder, expected_start, ← h]
  simp [start]

/-- What a step of the sink does. -/
theorem writeSome_cases {s s' : Sink α} {op count : Nat} (h : s.writeSome op count = some s') :
    ∃ (before after : List (Write α)) (write : Write α) (hle : count ≤ write.unsent.length),
      s.writes = before ++ write :: after ∧ before.length = op ∧ 0 < count ∧
      s'.wire = s.wire ++ write.unsent.take count ∧
      s'.writes = before ++ write.advance count hle :: after := by
  unfold writeSome at h
  split at h
  · exact absurd h (by simp)
  · next write hop =>
      split_ifs at h with hcount
      obtain ⟨hlt, hget⟩ := List.getElem?_eq_some_iff.mp hop
      have hsplit : s.writes = s.writes.take op ++ write :: s.writes.drop (op + 1) := by
        rw [← hget, List.getElem_cons_drop, List.take_append_drop]
      have hlen : (s.writes.take op).length = op := by
        rw [List.length_take]
        omega
      refine ⟨_, _, write, hcount.2, hsplit, hlen, hcount.1, ?_, ?_⟩
      · rw [← Option.some.inj h]
      · rw [← Option.some.inj h]
        exact List.set_eq_take_append_cons_drop ▸ by simp [hlt]

/-- Taking bytes does not change what is expected. -/
theorem expected_writeSome {s s' : Sink α} {op count : Nat}
    (h : s.writeSome op count = some s') : s'.expected = s.expected := by
  obtain ⟨before, after, write, hle, hwrites, -, -, -, hwrites'⟩ := writeSome_cases h
  simp [expected, hwrites, hwrites']

/-- A step sends, and changes no write. -/
theorem map_bytes_writeSome {s s' : Sink α} {op count : Nat}
    (h : s.writeSome op count = some s') :
    s'.writes.map Write.bytes = s.writes.map Write.bytes := by
  obtain ⟨before, after, write, hle, hwrites, -, -, -, hwrites'⟩ := writeSome_cases h
  simp [hwrites, hwrites']

/-- A write that has been sent stays so. -/
theorem unsent_of_writeSome {s s' : Sink α} {op count i : Nat} {w' : Write α}
    (h : s.writeSome op count = some s') (hw' : s'.writes[i]? = some w') :
    ∃ w, s.writes[i]? = some w ∧ (w.unsent = [] → w'.unsent = []) := by
  obtain ⟨before, after, write, hle, hwrites, -, -, -, hwrites'⟩ := writeSome_cases h
  rw [hwrites'] at hw'
  rw [hwrites]
  rcases Nat.lt_trichotomy i before.length with hi | rfl | hi
  · rw [List.getElem?_append_left hi] at hw' ⊢
    exact ⟨w', hw', id⟩
  · rw [List.getElem?_append_right (Nat.le_refl _), Nat.sub_self] at hw' ⊢
    obtain rfl : write.advance count hle = w' := Option.some.inj hw'
    refine ⟨write, rfl, fun hunsent => ?_⟩
    rw [Write.unsent_advance, hunsent, List.drop_nil]
  · obtain ⟨j, rfl⟩ := Nat.exists_eq_add_of_lt hi
    have hj : before.length + j + 1 - before.length = j + 1 := by omega
    rw [List.getElem?_append_right (by omega), hj, List.getElem?_cons_succ] at hw' ⊢
    exact ⟨w', hw', id⟩

/-- **A step that serves the oldest write unfinished keeps the order.** -/
theorem inOrder_writeSome {s s' : Sink α} {op count : Nat} (hin : s.InOrder)
    (hold : s.Oldest op) (h : s.writeSome op count = some s') : s'.InOrder := by
  obtain ⟨before, after, write, hle, hwrites, hlen, -, hwire, hwrites'⟩ := writeSome_cases h
  have hbefore : before.flatMap Write.unsent = [] := by
    rw [List.flatMap_eq_nil_iff]
    intro w hw
    exact hold w (by rw [hwrites, List.take_left' hlen]; exact hw)
  have hunsent : s.writes.flatMap Write.unsent = write.unsent ++ after.flatMap Write.unsent := by
    rw [hwrites, List.flatMap_append, hbefore, List.nil_append, List.flatMap_cons]
  have hunsent' : s'.writes.flatMap Write.unsent =
      write.unsent.drop count ++ after.flatMap Write.unsent := by
    rw [hwrites', List.flatMap_append, hbefore, List.nil_append, List.flatMap_cons,
      Write.unsent_advance]
  rw [InOrder, hunsent] at hin
  rw [InOrder, expected_writeSome h, hunsent', hwire, ← hin]
  simp only [List.append_assoc, ← List.append_assoc (List.take count write.unsent),
    List.take_append_drop]

/-- In order, the bytes taken are the first ones expected, and all of them when the
writes are finished. -/
theorem InOrder.wire_first {s : Sink α} (h : s.InOrder) : s.wire <+: s.expected := ⟨_, h⟩

theorem InOrder.eq_of_finished {s : Sink α} (h : s.InOrder) (hdone : s.Finished) :
    s.wire = s.expected := by
  rw [← h, List.flatMap_eq_nil_iff.mpr hdone, List.append_nil]

/-! ## One write at a time -/

/-- The sink has taken something of each write in turn. -/
def InTurn (s : Sink α) : Prop := s.wire = s.writes.flatMap Write.taken

theorem inTurn_empty : (empty : Sink α).InTurn := rfl

theorem inTurn_start {s : Sink α} (h : s.InTurn) (bytes : List α) : (s.start bytes).InTurn := by
  rw [InTurn] at h ⊢
  simp [start, h]

/-- A step that takes bytes of the latest write, even if the others are not finished. -/
theorem inTurn_writeSome {s s' : Sink α} {op count : Nat} (hin : s.InTurn)
    (hlast : op + 1 = s.writes.length) (h : s.writeSome op count = some s') : s'.InTurn := by
  obtain ⟨before, after, write, hle, hwrites, hlen, -, hwire, hwrites'⟩ := writeSome_cases h
  obtain rfl : after = [] := by
    rw [hwrites, List.length_append, List.length_cons, ← hlen] at hlast
    exact List.length_eq_zero_iff.mp (by omega)
  rw [InTurn, hwrites] at hin
  rw [InTurn, hwire, hin, hwrites']
  simp [Write.taken_advance]

/-- Of every write it is a part, so all together are a part of what was expected. -/
theorem InTurn.sublist {s : Sink α} (h : s.InTurn) : s.wire.Sublist s.expected := by
  rw [h, expected]
  exact List.Sublist.flatMap_right _ fun w _ => List.take_sublist w.sent w.bytes

theorem flatMap_taken {writes : List (Write α)} (h : ∀ w ∈ writes, w.unsent = []) :
    writes.flatMap Write.taken = writes.flatMap Write.bytes :=
  List.flatMap_congr fun w hw => Write.taken_eq_of_unsent (h w hw)

theorem InTurn.eq_of_finished {s : Sink α} (h : s.InTurn) (hdone : s.Finished) :
    s.wire = s.expected := by
  rw [h, flatMap_taken hdone, expected]

/-- It is the beginning of what was expected if only the latest write is not finished. -/
theorem InTurn.wire_first {s : Sink α} (h : s.InTurn)
    (hone : ∀ w ∈ s.writes.dropLast, w.unsent = []) : s.wire <+: s.expected := by
  rcases List.eq_nil_or_concat s.writes with hnil | ⟨before, last, hwrites⟩
  · rw [h, hnil]
    exact List.nil_prefix
  · rw [List.concat_eq_append] at hwrites
    rw [hwrites, List.dropLast_concat] at hone
    rw [h, expected, hwrites, List.flatMap_append, List.flatMap_append, flatMap_taken hone,
      List.prefix_append_right_inj]
    simpa [Write.taken] using List.take_prefix last.sent last.bytes

/-! ## Writes outstanding -/

/-- Every write has been sent or is outstanding. -/
def Accounted (s : Sink α) (outstanding : Nat → Prop) : Prop :=
  ∀ op w, s.writes[op]? = some w → outstanding op ∨ w.unsent = []

section Accounted

variable {s s' : Sink α} {outstanding outstanding' : Nat → Prop}

theorem accounted_empty : (empty : Sink α).Accounted outstanding := nofun

/-- A write may be taken off when it has been sent. -/
theorem Accounted.imp (h : s.Accounted outstanding)
    (himp : ∀ op, outstanding op → outstanding' op ∨ ∀ w ∈ s.writes[op]?, w.unsent = []) :
    s.Accounted outstanding' := by
  intro op w hw
  rcases h op w hw with hout | hunsent
  · exact (himp op hout).imp_right fun hsent => hsent w hw
  · exact .inr hunsent

/-- A new write that is outstanding is accounted for. -/
theorem accounted_start (h : s.Accounted outstanding) (hnew : outstanding s.writes.length)
    (bytes : List α) : (s.start bytes).Accounted outstanding := by
  intro op w hw
  rw [start] at hw
  rcases Nat.lt_or_ge op s.writes.length with hop | hop
  · rw [List.getElem?_append_left hop] at hw
    exact h op w hw
  · -- the write just begun
    rw [List.getElem?_append_right hop] at hw
    obtain ⟨hlt, -⟩ := List.getElem?_eq_some_iff.mp hw
    rw [List.length_singleton] at hlt
    obtain rfl : op = s.writes.length := by omega
    exact .inl hnew

/-- A step leaves the others accounted for. -/
theorem accounted_writeSome {op count : Nat} (h : s.Accounted outstanding)
    (hwrite : s.writeSome op count = some s') : s'.Accounted outstanding := by
  intro i w hw
  obtain ⟨old, hold, hunsent⟩ := unsent_of_writeSome hwrite hw
  exact (h i old hold).imp_right hunsent

/-- With nothing outstanding all is finished. -/
theorem Accounted.finished (h : s.Accounted outstanding) (hnone : ∀ op, ¬ outstanding op) :
    s.Finished := by
  intro w hw
  obtain ⟨op, hop⟩ := List.getElem?_of_mem hw
  exact (h op w hop).resolve_left (hnone op)

end Accounted

end Sink

end ComposedWrite

import Splice.LogDelivery
import Mathlib.Algebra.BigOperators.Group.List.Basic
import Mathlib.Data.Prod.Lex

/-!
# Splice.LogQuiet

Left alone, the log comes to rest.  A log session whose write fails logs that, and so do its
shutdown and its destructor; each of these lines is sent to the sessions still in the set, and
may fail there.  `comes_to_rest` says that this ends, whatever the sockets do: a session leaves
the set once, and what is left to do for sessions outside the set makes no more of itself.
-/

namespace Splice

open ComposedWrite
open Subscription
open Transition

namespace LogServer

variable {ι : Type} [LinearOrder ι] {env : LogEnv ι} {st st' : LogServer ι} {label : Label ι}

/-- The log does this on its own: nobody else logs, and no client comes. -/
def Label.Own : Label ι → Prop
  | .logs _ | .connected _ => False
  | .runPosted _ _ | .writeSome _ _ _ | .writeCompletes _ _ _ _ | .destroyed _ _ _ => True

/-- A step that the log takes on its own. -/
def OwnStep (env : LogEnv ι) (st st' : LogServer ι) : Prop :=
  ∃ label : Label ι, label.Own ∧ st.step env label = some st'

/-- Nothing is posted or outstanding, and the sessions that exist are those in the set. -/
def AtRest (st : LogServer ι) : Prop :=
  st.board.posted = [] ∧ st.pending = [] ∧ ∀ s ∈ st.existing, s ∈ st.board.members

/-! ## What is left to do -/

/-- The bytes that a sink has to take. -/
def unsentBytes (sink : Sink UInt8) : Nat := (sink.writes.map fun w => w.unsent.length).sum

/-- `n` for a session outside the set. -/
def outside (members : StdSet ι) (n : Nat) (s : ι) : Nat := if s ∈ members then 0 else n

/-- `n` for a session in the set. -/
def inside (members : StdSet ι) (n : Nat) (s : ι) : Nat := if s ∈ members then n else 0

/-- What is left to do for sessions outside the set: each posted handler begins a write, and
each write will complete. -/
def idleWork (st : LogServer ι) : Nat :=
  (st.existing.map (outside st.board.members 1)).sum +
    (st.board.posted.map fun note => outside st.board.members 2 note.1).sum +
    (st.pending.map fun write => outside st.board.members 1 write.1).sum

/-- What is left to do for sessions in the set. -/
def busyWork (env : LogEnv ι) (st : LogServer ι) : Nat :=
  (st.board.posted.map fun note =>
      inside st.board.members ((frame env note.2).length + 2) note.1).sum +
    (st.pending.map fun write => inside st.board.members 1 write.1).sum +
    (st.board.members.toList.map fun s => unsentBytes (st.session s).sink).sum

variable {members : StdSet ι} {s : ι}

theorem outside_of_mem (n : Nat) (h : s ∈ members) : outside members n s = 0 := if_pos h

theorem outside_of_not_mem (n : Nat) (h : s ∉ members) : outside members n s = n := if_neg h

theorem inside_of_mem (n : Nat) (h : s ∈ members) : inside members n s = n := if_pos h

/-- The sessions in the set come first, then the work for those outside it. -/
def rank (env : LogEnv ι) (st : LogServer ι) : Nat ×ₗ Nat ×ₗ Nat :=
  toLex (st.board.members.toList.length, toLex (st.idleWork, st.busyWork env))

/-- The rank falls with the members, or else with the work of the others, or else with theirs. -/
theorem rank_lt :
    st'.rank env < st.rank env ↔
      st'.board.members.toList.length < st.board.members.toList.length ∨
        st'.board.members.toList.length = st.board.members.toList.length ∧
          (st'.idleWork < st.idleWork ∨
            st'.idleWork = st.idleWork ∧ st'.busyWork env < st.busyWork env) := by
  simp only [rank, Prod.Lex.toLex_lt_toLex]

/-- A sum without one of its terms. -/
theorem sum_eraseIdx {α : Type} (weight : α → Nat) {l : List α} {k : Nat} {x : α}
    (h : l[k]? = some x) :
    ((l.eraseIdx k).map weight).sum + weight x = (l.map weight).sum := by
  obtain ⟨hlt, rfl⟩ := List.getElem?_eq_some_iff.mp h
  have hsum := List.add_sum_eraseIdx (l := l.map weight) (by simpa using hlt)
    fun n _ => AddCommute.all _ n
  rw [List.getElem_map, List.eraseIdx_map] at hsum
  omega

/-- Work for a session that changes. -/
theorem sum_update {β : Type} (weight : β → Nat) (members : StdSet ι) (f : ι → β) {s : ι}
    (hs : s ∈ members) (y : β) :
    (members.toList.map fun t => weight (Function.update f s y t)).sum + weight (f s) =
      (members.toList.map fun t => weight (f t)).sum + weight y := by
  have hsum := fun g : ι → β => List.sum_map_erase (fun t => weight (g t)) hs
  have herase : (members.toList.erase s).map (fun t => weight (Function.update f s y t)) =
      (members.toList.erase s).map fun t => weight (f t) := by
    refine List.map_congr_left fun t ht => ?_
    rw [Function.update_of_ne (members.nodup.mem_erase_iff.mp ht).1]
  have hold := hsum f
  have hnew := hsum (Function.update f s y)
  rw [herase, Function.update_self] at hnew
  omega

/-! ## It gets less -/

/-- Lines that are logged are for sessions in the set. -/
theorem idleWork_said (st : LogServer ι) (calls : List (LogCall ι)) :
    (st.said calls).idleWork = st.idleWork := by
  obtain ⟨hmembers, -, more, hposted, hmore⟩ := Board.publishAll_spec st.board calls
  have hzero : (more.map fun note => outside st.board.members 2 note.1).sum = 0 := by
    refine List.sum_eq_zero fun n hn => ?_
    obtain ⟨note, hnote, rfl⟩ := List.mem_map.mp hn
    exact outside_of_mem 2 (hmore note hnote)
  simp only [idleWork, said, hmembers, hposted, List.map_append, List.sum_append, hzero, add_zero]

/-- A session leaves the set, or its work gets less while it is outside. -/
theorem rank_gone (st : LogServer ι) {before : LogServer ι} (s : ι) (calls : List (LogCall ι))
    (hiff : (st.session s).isOpen ↔ s ∈ st.board.members)
    (hmembers : st.board.members = before.board.members)
    (hless : s ∉ st.board.members → st.idleWork < before.idleWork) :
    (if (st.session s).isOpen then st.left s calls else st.said calls).rank env <
      before.rank env := by
  obtain ⟨hsaid, -⟩ := Board.publishAll_spec st.board calls
  rw [rank_lt]
  split
  · next hopen =>
      have hmem : s ∈ st.board.members := hiff.mp hopen
      have hlen := StdSet.length_erase hmem
      left
      simp only [left, Board.leave, hsaid, ← hmembers]
      omega
  · next hopen =>
      right
      have hnot : s ∉ st.board.members := fun hmem => hopen (hiff.mpr hmem)
      refine ⟨?_, .inl ?_⟩
      · simp only [said, hsaid, hmembers]
      · rw [idleWork_said]
        exact hless hnot

/-- Sending a note lowers the rank. -/
theorem rank_sending {k : Nat} {s : ι} {call : LogCall ι} {board : Board ι (LogCall ι)}
    (hget : st.board.posted[k]? = some (s, call)) (htake : st.board.take k = some board) :
    (st.sending env board s call).rank env < st.rank env := by
  obtain rfl : { st.board with
      posted := st.board.posted.eraseIdx k
      taken := Function.update st.board.taken s (st.board.taken s ++ [call]) } = board := by
    simpa [Board.take, hget] using htake
  have hidle := sum_eraseIdx (fun note : ι × LogCall ι => outside st.board.members 2 note.1) hget
  have hbusy := sum_eraseIdx (fun note : ι × LogCall ι =>
    inside st.board.members ((frame env note.2).length + 2) note.1) hget
  rw [rank_lt]
  refine .inr ⟨rfl, ?_⟩
  by_cases hs : s ∈ st.board.members
  · have hstart : unsentBytes ((st.session s).sink.start (frame env call)) =
        unsentBytes (st.session s).sink + (frame env call).length := by
      simp [unsentBytes, Sink.start]
    have hupdate := sum_update (fun session => unsentBytes session.sink) st.board.members
      st.session hs { st.session s with sink := (st.session s).sink.start (frame env call) }
    simp only [outside_of_mem _ hs, inside_of_mem _ hs, hstart] at hidle hbusy hupdate
    right
    simp only [idleWork, busyWork, sending, List.map_append, List.sum_append, List.map_singleton,
      List.sum_singleton, outside_of_mem _ hs, inside_of_mem _ hs]
    omega
  · simp only [outside_of_not_mem _ hs] at hidle
    left
    simp only [idleWork, sending, List.map_append, List.sum_append, List.map_singleton,
      List.sum_singleton, outside_of_not_mem _ hs]
    omega

/-- A step of a write lowers the rank. -/
theorem rank_writeSome {s : ι} {op count : Nat} {sink : Sink UInt8} (hs : s ∈ st.board.members)
    (hwrite : (st.session s).sink.writeSome op count = some sink) :
    (st.update s { st.session s with sink := sink }).rank env < st.rank env := by
  obtain ⟨before, after, write, hle, hwrites, -, hpos, -, hwrites'⟩ := Sink.writeSome_cases hwrite
  have hless : unsentBytes sink < unsentBytes (st.session s).sink := by
    simp only [unsentBytes, hwrites, hwrites', List.map_append, List.map_cons, List.sum_append,
      List.sum_cons, Write.unsent_advance, List.length_drop]
    omega
  have hupdate := sum_update (fun session => unsentBytes session.sink) st.board.members
    st.session hs { st.session s with sink := sink }
  rw [rank_lt]
  refine .inr ⟨rfl, .inr ⟨rfl, ?_⟩⟩
  simp only [busyWork, update]
  simp only at hupdate
  omega

/-- A completed write lowers the rank. -/
theorem rank_eraseIdx {k : Nat} {write : ι × Nat} (hget : st.pending[k]? = some write) :
    rank env { st with pending := st.pending.eraseIdx k } < st.rank env := by
  have hidle := sum_eraseIdx (fun write : ι × Nat => outside st.board.members 1 write.1) hget
  have hbusy := sum_eraseIdx (fun write : ι × Nat => inside st.board.members 1 write.1) hget
  rw [rank_lt]
  refine .inr ⟨rfl, ?_⟩
  by_cases hs : write.1 ∈ st.board.members
  · simp only [outside_of_mem _ hs, inside_of_mem _ hs] at hidle hbusy
    right
    simp only [idleWork, busyWork]
    omega
  · simp only [outside_of_not_mem _ hs] at hidle
    left
    simp only [idleWork]
    omega

/-- **Each step that the log takes on its own leaves it less to do.** -/
theorem rank_of_ownStep (hinv : st.Inv env) (h : st.OwnStep env st') :
    st'.rank env < st.rank env := by
  obtain ⟨label, hown, hstep⟩ := h
  cases steps_of_step hstep with
  | logs => exact absurd hown id
  | connected _ => exact absurd hown id
  | runPosted hget htake => exact rank_sending hget htake
  | writeSome hopen hwrite => exact rank_writeSome ((hinv.isOpen_iff _).mp hopen) hwrite
  | sent hget _ => exact rank_eraseIdx hget
  | @fails k _ _ _ write calls _ hget =>
      refine rank_gone { st with pending := st.pending.eraseIdx k } write.1 calls
        (hinv.isOpen_iff write.1) rfl fun hnot => ?_
      have hsum := sum_eraseIdx (fun write : ι × Nat => outside st.board.members 1 write.1) hget
      simp only [outside_of_not_mem _ hnot] at hsum
      simp only [idleWork]
      omega
  | @destroyed _ _ calls s hexisting _ =>
      refine rank_gone { st with existing := st.existing.erase s } s calls
        (hinv.isOpen_iff s) rfl fun hnot => ?_
      have hsum := List.sum_map_erase (outside st.board.members 1) hexisting
      rw [outside_of_not_mem 1 hnot] at hsum
      simp only [idleWork]
      omega

/-! ## At rest -/

/-- At rest the server can take no step of its own. -/
theorem not_ownStep_of_atRest (hinv : st.Inv env) (h : st.AtRest) : ¬ st.OwnStep env st' := by
  rintro ⟨label, hown, hstep⟩
  obtain ⟨hposted, hpending, hexisting⟩ := h
  cases steps_of_step hstep with
  | logs => exact hown
  | connected _ => exact hown
  | runPosted hget _ => simp [hposted] at hget
  | @writeSome op count sink s hopen hwrite =>
      obtain ⟨before, after, write, hle, hwrites, -, hpos, -⟩ := Sink.writeSome_cases hwrite
      have hget : (st.session s).sink.writes[before.length]? = some write := by simp [hwrites]
      rcases hinv.pending s ((hinv.isOpen_iff s).mp hopen) _ write hget with hpend | hunsent
      · simp [hpending] at hpend
      · rw [hunsent] at hle
        exact absurd hle (Nat.not_le_of_lt hpos)
  | sent hget _ => simp [hpending] at hget
  | fails _ hget => simp [hpending] at hget
  | destroyed hex href => exact href (.inl (hexisting _ hex))

/-- With a note posted it can take one. -/
theorem exists_ownStep_of_posted (env : LogEnv ι) (h : st.board.posted ≠ []) :
    ∃ st', st.OwnStep env st' := by
  obtain ⟨⟨s, call⟩, rest, hposted⟩ := List.exists_cons_of_ne_nil h
  exact ⟨_, .runPosted #v[0, 0, 0, 0] 0, trivial, by simp [step, hposted, Board.take]; rfl⟩

/-- With a write pending it can take one. -/
theorem exists_ownStep_of_pending (env : LogEnv ι) (h : st.pending ≠ []) :
    ∃ st', st.OwnStep env st' := by
  obtain ⟨write, rest, hpending⟩ := List.exists_cons_of_ne_nil h
  exact ⟨_, .writeCompletes 0 1 0 0, trivial, by simp [step, hpending]; rfl⟩

/-- The log is at rest when it can do nothing. -/
theorem atRest_iff (hinv : st.Inv env) : st.AtRest ↔ ∀ st', ¬ st.OwnStep env st' := by
  constructor
  · intro h st'
    exact not_ownStep_of_atRest hinv h
  · intro h
    have hposted : st.board.posted = [] := by
      by_contra hne
      obtain ⟨st', hstep⟩ := exists_ownStep_of_posted env hne
      exact h st' hstep
    have hpending : st.pending = [] := by
      by_contra hne
      obtain ⟨st', hstep⟩ := exists_ownStep_of_pending env hne
      exact h st' hstep
    refine ⟨hposted, hpending, fun s hexisting => ?_⟩
    by_contra hs
    have href : ¬ st.Referenced s := by
      simp [Referenced, hs, hposted, hpending]
    exact h _ ⟨.destroyed s 0 0, trivial, if_pos ⟨by simpa using hexisting, href⟩⟩

/-- **Left alone, the log comes to rest**, and then there is nothing posted or outstanding, and
the sessions that exist are those in the set. -/
theorem comes_to_rest (env : LogEnv ι) (labels : List (Label ι)) (st : LogServer ι)
    (hrun : Run env AnyStep labels st) :
    Acc (fun later earlier => OwnStep env earlier later) st ∧
      (st.AtRest ↔ ∀ st', ¬ st.OwnStep env st') := by
  have hinv := inv_of_run hrun
  refine ⟨?_, atRest_iff hinv⟩
  refine acc_of_decreasing wellFounded_lt (I := Inv env) (rank env) ?_ hinv
  rintro st st' hinv ⟨label, hown, hstep⟩
  exact ⟨inv_step hinv hstep, rank_of_ownStep hinv ⟨label, hown, hstep⟩⟩

/-- A session has just failed, and what it logged is to be sent, to itself too. -/
theorem comes_to_rest_failed :
    ∃ st, Run plainLog AnyStep
        [.connected 1, .connected 2, .logs ⟨.info, 7, chars "a"⟩, .runPosted #v[0, 0, 0, 0] 1,
          .writeCompletes 0 32 0 0] st ∧
      Board.notes 2 st.board.posted = [⟨.error, 2, chars "[on_error]"⟩, ⟨.info, 2, []⟩] ∧
      Acc (fun later earlier => OwnStep plainLog earlier later) st := by
  have hrun : ∃ st, Run plainLog AnyStep
      [.connected 1, .connected 2, .logs ⟨.info, 7, chars "a"⟩, .runPosted #v[0, 0, 0, 0] 1,
        .writeCompletes 0 32 0 0] st ∧
      Board.notes 2 st.board.posted = [⟨.error, 2, chars "[on_error]"⟩, ⟨.info, 2, []⟩] :=
    Reaches.exists_of_runFrom (fun st : LogServer Nat => Board.notes 2 st.board.posted)
      (by decide)
  obtain ⟨st, hrun, hnotes⟩ := hrun
  exact ⟨st, hrun, hnotes, (comes_to_rest _ _ _ hrun).1⟩

end LogServer

end Splice

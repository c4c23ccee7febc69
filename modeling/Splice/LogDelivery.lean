import Splice.LogSessions

/-!
# Splice.LogDelivery

Who gets which lines of the log.  In every run each line is sent once to each session that was
in the set when it was logged, or will be (`delivers_once`); and if handlers are run in the
order they were posted, and each socket serves its oldest write, what a client receives are
the frames of those lines, in order (`receives_in_order`), which it can take apart as long as
none is of the size that the encoder gets wrong.
-/

namespace Splice

open ComposedWrite
open StreamReader
open Subscription
open Transition

namespace LogServer

variable {ι : Type} [LinearOrder ι] {env : LogEnv ι} {st st' : LogServer ι} {label : Label ι}

/-- What holds of the log in every run: the set holds the sessions whose sockets are open, a
session has begun a write for each line that was taken for it, and those not sent yet are
outstanding. -/
structure Inv (env : LogEnv ι) (st : LogServer ι) : Prop where
  sound : st.board.Sound
  isOpen_iff : ∀ s, (st.session s).isOpen ↔ s ∈ st.board.members
  existing : ∀ s ∈ st.board.members, s ∈ st.existing
  known : ∀ s ∈ st.board.members, s ∈ st.known
  posted : ∀ note ∈ st.board.posted, note.1 ∈ st.known
  fresh : ∀ s, s ∉ st.known → (st.session s).sink = .empty
  writes : ∀ s, (st.session s).sink.writes.map Write.bytes = (st.board.taken s).map (frame env)
  pending : ∀ s ∈ st.board.members,
    (st.session s).sink.Accounted fun op => (s, op) ∈ st.pending

/-- The invariant holds before the server has any session. -/
theorem inv_start (env : LogEnv ι) : (start : LogServer ι).Inv env where
  sound := Board.sound_empty
  isOpen_iff _ := by simp [start, Board.empty, StdSet.not_mem_empty]
  existing _ h := absurd h StdSet.not_mem_empty
  known _ h := absurd h StdSet.not_mem_empty
  posted := nofun
  fresh _ _ := rfl
  writes _ := rfl
  pending _ h := absurd h StdSet.not_mem_empty

/-- What the logger says of itself keeps it. -/
theorem inv_said (h : st.Inv env) (calls : List (LogCall ι)) : (st.said calls).Inv env := by
  obtain ⟨hmembers, htaken, more, hposted, hmore⟩ := Board.publishAll_spec st.board calls
  refine ⟨Board.sound_publishAll h.sound calls, ?_, ?_, ?_, ?_, h.fresh, ?_, ?_⟩
  · simpa only [said, hmembers] using h.isOpen_iff
  · simpa only [said, hmembers] using h.existing
  · simpa only [said, hmembers] using h.known
  · intro note hnote
    rw [said, hposted] at hnote
    rcases List.mem_append.mp hnote with hnote | hnote
    · exact h.posted note hnote
    · exact h.known _ (hmore note hnote)
  · simpa only [said, htaken] using h.writes
  · simpa only [said, hmembers] using h.pending

/-- A session that leaves keeps it. -/
theorem inv_left (h : st.Inv env) (s : ι) (calls : List (LogCall ι)) :
    (st.left s calls).Inv env := by
  have hsaid := inv_said h calls
  have hsession : ∀ t, ((st.left s calls).session t).sink = (st.session t).sink := by
    intro t
    by_cases hst : t = s
    · subst hst
      simp [left, update]
    · simp [left, update, hst]
  refine ⟨Board.sound_leave hsaid.sound s, ?_, ?_, ?_, hsaid.posted, ?_, ?_, ?_⟩
  · intro t
    by_cases hst : t = s
    · subst hst
      simp [left, update, Board.leave]
    · simpa [left, update, Board.leave, hst, said] using hsaid.isOpen_iff t
  · intro t ht
    exact hsaid.existing t (StdSet.mem_erase.mp ht).2
  · intro t ht
    exact hsaid.known t (StdSet.mem_erase.mp ht).2
  · intro t ht
    rw [hsession]
    exact h.fresh t ht
  · intro t
    rw [hsession]
    exact hsaid.writes t
  · intro t ht
    rw [hsession]
    exact hsaid.pending t (StdSet.mem_erase.mp ht).2

/-- A completion takes its write off the ones outstanding. -/
theorem inv_eraseIdx (h : st.Inv env) {k : Nat} {write : ι × Nat}
    (hget : st.pending[k]? = some write) (hsent : write.1 ∈ st.board.members → st.Sent write) :
    Inv env { st with pending := st.pending.eraseIdx k } := by
  refine ⟨h.sound, h.isOpen_iff, h.existing, h.known, h.posted, h.fresh, h.writes, ?_⟩
  intro s hs
  refine (h.pending s hs).imp fun op hpending => (mem_eraseIdx_or_eq hget hpending).imp_right ?_
  rintro rfl w hw
  exact hsent hs w hw

/-- A session that is connected keeps it. -/
theorem inv_connected (h : st.Inv env) {s : ι} (hs : s ∉ st.known) :
    Inv env { st.update s ⟨true, .empty⟩ with
      board := st.board.join s
      known := st.known ++ [s]
      existing := st.existing ++ [s] } := by
  have hnew : (Function.update st.session s ⟨true, .empty⟩ s).sink = (st.session s).sink := by
    rw [Function.update_self, h.fresh s hs]
  have hsink : ∀ t, (Function.update st.session s ⟨true, .empty⟩ t).sink = (st.session t).sink := by
    intro t
    by_cases hst : t = s
    · subst hst
      exact hnew
    · rw [Function.update_of_ne hst]
  refine ⟨Board.sound_join h.sound s, ?_, ?_, ?_, ?_, ?_, ?_, ?_⟩
  · intro t
    by_cases hst : t = s
    · subst hst
      simp [update, Board.join]
    · simpa [update, Board.join, hst] using h.isOpen_iff t
  · intro t ht
    rcases StdSet.mem_insert.mp ht with rfl | ht
    · simp
    · simp [h.existing t ht]
  · intro t ht
    rcases StdSet.mem_insert.mp ht with rfl | ht
    · simp
    · simp [h.known t ht]
  · intro note hnote
    exact List.mem_append_left _ (h.posted note hnote)
  · intro t ht
    exact (hsink t).trans (h.fresh t fun hmem => ht (List.mem_append_left _ hmem))
  · intro t
    exact (congrArg (fun sink : Sink UInt8 => sink.writes.map Write.bytes) (hsink t)).trans
      (h.writes t)
  · intro t ht
    show (Function.update st.session s ⟨true, .empty⟩ t).sink.Accounted _
    rw [hsink]
    rcases StdSet.mem_insert.mp ht with rfl | ht
    · rw [h.fresh t hs]
      exact Sink.accounted_empty
    · exact h.pending t ht

/-- A session that sends a note keeps it. -/
theorem inv_sending (h : st.Inv env) {k : Nat} {s : ι} {call : LogCall ι}
    {board : Board ι (LogCall ι)} (hget : st.board.posted[k]? = some (s, call))
    (htake : st.board.take k = some board) : (st.sending env board s call).Inv env := by
  have hsound := Board.sound_take h.sound htake
  obtain ⟨before, after, s', call', hposted, hlen, rfl⟩ := Board.take_cases htake
  obtain ⟨rfl, rfl⟩ : s' = s ∧ call' = call := by
    rw [hposted, ← hlen] at hget
    simpa using hget
  have hknown : s' ∈ st.known := h.posted (s', call') (by simp [hposted])
  refine ⟨hsound, ?_, h.existing, h.known, ?_, ?_, ?_, ?_⟩
  · intro t
    by_cases hst : t = s'
    · subst hst
      simpa [sending] using h.isOpen_iff t
    · simpa [sending, hst] using h.isOpen_iff t
  · intro note hnote
    refine h.posted note ?_
    rw [hposted]
    exact (List.append_sublist_append_left before).mpr (List.sublist_cons_self _ after) |>.subset
      hnote
  · intro t ht
    have hst : t ≠ s' := fun heq => ht (heq ▸ hknown)
    simpa [sending, hst] using h.fresh t ht
  · intro t
    by_cases hst : t = s'
    · subst hst
      simp [sending, Sink.start, h.writes t]
    · simpa [sending, hst] using h.writes t
  · intro t ht
    have hold : (st.session t).sink.Accounted fun op =>
        (t, op) ∈ st.pending ++ [(s', (st.session s').sink.writes.length)] :=
      (h.pending t ht).imp fun op hop => .inl (List.mem_append_left _ hop)
    by_cases hst : t = s'
    · subst hst
      simp only [sending, Function.update_self]
      exact Sink.accounted_start hold (by simp) _
    · simpa [sending, hst] using hold

/-- A step of a write keeps it. -/
theorem inv_writeSome (h : st.Inv env) {s : ι} {op count : Nat} {sink : Sink UInt8}
    (hwrite : (st.session s).sink.writeSome op count = some sink) :
    (st.update s { st.session s with sink := sink }).Inv env := by
  refine ⟨h.sound, ?_, h.existing, h.known, h.posted, ?_, ?_, ?_⟩
  · intro t
    by_cases hst : t = s
    · subst hst
      simpa [update] using h.isOpen_iff t
    · simpa [update, hst] using h.isOpen_iff t
  · intro t ht
    by_cases hst : t = s
    · -- nothing is under way on a session that is not there
      subst hst
      simp [h.fresh t ht, Sink.empty, Sink.writeSome] at hwrite
    · simpa [update, hst] using h.fresh t ht
  · intro t
    by_cases hst : t = s
    · subst hst
      simpa [update, Sink.map_bytes_writeSome hwrite] using h.writes t
    · simpa [update, hst] using h.writes t
  · intro t ht
    by_cases hst : t = s
    · subst hst
      simpa [update] using Sink.accounted_writeSome (h.pending t ht) hwrite
    · simpa [update, hst] using h.pending t ht

/-- The destruction of a session that has left keeps it. -/
theorem inv_fewerExisting (h : st.Inv env) {s : ι} (hs : s ∉ st.board.members) :
    Inv env { st with existing := st.existing.erase s } :=
  { h with
    existing := fun t ht => by
      have hne : t ≠ s := fun heq => hs (heq ▸ ht)
      exact (List.mem_erase_of_ne hne).mpr (h.existing t ht) }

/-- What a session does that is shut down, if it has not been before. -/
theorem inv_gone (h : st.Inv env) (s : ι) (calls : List (LogCall ι)) :
    (if (st.session s).isOpen then st.left s calls else st.said calls).Inv env := by
  split
  · exact inv_left h s calls
  · exact inv_said h calls

/-- It is not in the set then. -/
theorem not_mem_gone (h : st.Inv env) (s : ι) (calls : List (LogCall ι)) :
    s ∉ (if (st.session s).isOpen then st.left s calls else st.said calls).board.members := by
  have hmem := (inv_gone h s calls).isOpen_iff s
  rw [← hmem]
  split
  · simp [left, update]
  · assumption

/-- A write that fails takes its session out of the set. -/
theorem inv_fails (h : st.Inv env) {k : Nat} {write : ι × Nat} (calls : List (LogCall ι))
    (hget : st.pending[k]? = some write) :
    (if (st.session write.1).isOpen then
      { st with pending := st.pending.eraseIdx k }.left write.1 calls
    else { st with pending := st.pending.eraseIdx k }.said calls).Inv env := by
  have hgone := inv_gone h write.1 calls
  have hnot := not_mem_gone h write.1 calls
  by_cases hopen : (st.session write.1).isOpen
  · rw [if_pos hopen] at hgone hnot ⊢
    show Inv env { st.left write.1 calls with pending := st.pending.eraseIdx k }
    exact inv_eraseIdx hgone hget fun hmem => absurd hmem hnot
  · rw [if_neg hopen] at hgone hnot ⊢
    show Inv env { st.said calls with pending := st.pending.eraseIdx k }
    exact inv_eraseIdx hgone hget fun hmem => absurd hmem hnot

/-- Every step keeps the invariant. -/
theorem inv_step (h : st.Inv env) (hstep : st.step env label = some st') : st'.Inv env := by
  cases steps_of_step hstep with
  | logs => exact inv_said h _
  | connected hknown => exact inv_connected h hknown
  | runPosted hget htake => exact inv_sending h hget htake
  | writeSome _ hwrite => exact inv_writeSome h hwrite
  | sent hget hsent => exact inv_eraseIdx h hget fun _ => hsent
  | fails _ hget => exact inv_fails h _ hget
  | destroyed hexisting hreferenced =>
      have hs : _ ∉ st.board.members := fun hmem => hreferenced (.inl hmem)
      exact inv_gone (inv_fewerExisting h hs) _ _

/-- It holds at the end of every run. -/
theorem inv_of_run {labels : List (Label ι)} {guard : LogServer ι → Label ι → Prop}
    (hrun : Run env guard labels st) : st.Inv env :=
  hrun.invariant (I := fun _ st => Inv env st) (inv_start env)
    fun _ _ _ _ h _ hstep => inv_step h hstep

/-! ## Once each -/

/-- **Each line is sent once to each session that should get it.**  The writes begun on a session
are those of the lines taken for it, and these and the ones still posted are the lines that
were logged while it was in the set.  It is in the set as long as its socket is open. -/
theorem delivers_once (env : LogEnv ι) (labels : List (Label ι)) (st : LogServer ι) (s : ι)
    (hrun : Run env AnyStep labels st) :
    (st.session s).sink.writes.map Write.bytes = (st.board.taken s).map (frame env) ∧
      (st.board.taken s ++ Board.notes s st.board.posted).Perm (heard s st.board.log) ∧
      (s ∈ st.board.members ↔ Subscribed s st.board.log) ∧
      ((st.session s).isOpen ↔ s ∈ st.board.members) := by
  have h := inv_of_run hrun
  exact ⟨h.writes s, h.sound.perm s, h.sound.mem_iff s, h.isOpen_iff s⟩

/-- A log whose lines are the messages. -/
def plainLog : LogEnv Nat where
  isDebug := false
  host := .little
  track := LogCall.msg
  errorCode _ := chars "system:32"
  destructor _ := chars "destructor"

/-- A line is logged and two sessions send it.  The socket of the second one fails, which that
session logs before it leaves. -/
theorem delivers_once_two :
    ∃ st, Run plainLog AnyStep
        [.connected 1, .connected 2, .logs ⟨.info, 7, chars "a"⟩, .runPosted #v[0, 0, 0, 0] 1,
          .runPosted #v[0, 0, 0, 0] 0, .writeCompletes 0 32 0 0] st ∧
      heard 2 st.board.log =
        [⟨.info, 7, chars "a"⟩, ⟨.error, 2, chars "[on_error]"⟩, ⟨.info, 2, []⟩] ∧
      (st.board.taken 2 ++ Board.notes 2 st.board.posted).Perm (heard 2 st.board.log) ∧
      ¬ (st.session 2).isOpen := by
  have hrun : ∃ st, Run plainLog AnyStep
      [.connected 1, .connected 2, .logs ⟨.info, 7, chars "a"⟩, .runPosted #v[0, 0, 0, 0] 1,
        .runPosted #v[0, 0, 0, 0] 0, .writeCompletes 0 32 0 0] st ∧
      decide (heard 2 st.board.log =
        [⟨.info, 7, chars "a"⟩, ⟨.error, 2, chars "[on_error]"⟩, ⟨.info, 2, []⟩] ∧
          2 ∉ st.board.members) = true :=
    Reaches.exists_of_runFrom
      (fun st : LogServer Nat => decide (heard 2 st.board.log =
        [⟨.info, 7, chars "a"⟩, ⟨.error, 2, chars "[on_error]"⟩, ⟨.info, 2, []⟩] ∧
          2 ∉ st.board.members))
      (by decide)
  obtain ⟨st, hrun, hview⟩ := hrun
  obtain ⟨hheard, hnot⟩ := of_decide_eq_true hview
  obtain ⟨-, hperm, -, hopen⟩ := delivers_once _ _ _ 2 hrun
  exact ⟨st, hrun, hheard, hperm, fun h => hnot (hopen.mp h)⟩

/-! ## In order -/

/-- The handlers for one session are run in the order they were posted, and a socket serves its
oldest write. -/
def Orderly (st : LogServer ι) : Label ι → Prop
  | .runPosted _ k => st.board.Turn k
  | .writeSome s op _ => (st.session s).sink.Oldest op
  | _ => True

instance (st : LogServer ι) (label : Label ι) : Decidable (st.Orderly label) := by
  unfold Orderly
  split <;> infer_instance

/-- What holds besides if all is done in order. -/
structure Ordered (st : LogServer ι) : Prop where
  inTurn : st.board.InTurn
  inOrder : ∀ s, (st.session s).sink.InOrder

theorem ordered_said (hsound : st.board.Sound) (h : st.Ordered) (calls : List (LogCall ι)) :
    (st.said calls).Ordered :=
  ⟨Board.inTurn_publishAll hsound h.inTurn calls, h.inOrder⟩

/-- A session in order keeps all sessions in order. -/
theorem inOrder_update (h : st.Ordered) {s : ι} {session : MyLogSession}
    (hs : session.sink.InOrder) (t : ι) :
    (Function.update st.session s session t).sink.InOrder := by
  by_cases hst : t = s
  · subst hst
    rw [Function.update_self]
    exact hs
  · rw [Function.update_of_ne hst]
    exact h.inOrder t

/-- A session that leaves keeps the order. -/
theorem ordered_left (hsound : st.board.Sound) (h : st.Ordered) (s : ι)
    (calls : List (LogCall ι)) : (st.left s calls).Ordered where
  inTurn := Board.inTurn_leave (Board.inTurn_publishAll hsound h.inTurn calls) s
  inOrder := inOrder_update h (h.inOrder s)

/-- A session that is gone keeps it, whether its socket was open or not. -/
theorem ordered_gone (hsound : st.board.Sound) (h : st.Ordered) (s : ι) (isOpen : Bool)
    (calls : List (LogCall ι)) : (if isOpen then st.left s calls else st.said calls).Ordered := by
  split
  · exact ordered_left hsound h s calls
  · exact ordered_said hsound h calls

/-- Every orderly step keeps the order. -/
theorem ordered_step (hinv : st.Inv env) (h : st.Ordered) (hguard : st.Orderly label)
    (hstep : st.step env label = some st') : st'.Ordered := by
  cases steps_of_step hstep with
  | logs => exact ordered_said hinv.sound h _
  | connected _ =>
      exact ⟨Board.inTurn_join h.inTurn _, inOrder_update h Sink.inOrder_empty⟩
  | runPosted hget htake =>
      exact ⟨Board.inTurn_take h.inTurn hguard htake,
        inOrder_update h (Sink.inOrder_start (h.inOrder _) _)⟩
  | writeSome _ hwrite =>
      exact ⟨h.inTurn, inOrder_update h (Sink.inOrder_writeSome (h.inOrder _) hguard hwrite)⟩
  | sent _ _ => exact ⟨h.inTurn, h.inOrder⟩
  | fails _ _ =>
      refine ordered_gone ?_ ?_ _ _ _
      · exact hinv.sound
      · exact ⟨h.inTurn, h.inOrder⟩
  | destroyed _ _ =>
      refine ordered_gone ?_ ?_ _ _ _
      · exact hinv.sound
      · exact ⟨h.inTurn, h.inOrder⟩

/-- Orderly runs keep the invariant and the order. -/
theorem ordered_of_run {labels : List (Label ι)} (hrun : Run env Orderly labels st) :
    st.Inv env ∧ st.Ordered := by
  refine hrun.invariant (I := fun _ st => Inv env st ∧ st.Ordered)
    ⟨inv_start env, Board.inTurn_empty, fun _ => Sink.inOrder_empty⟩ ?_
  rintro - st label st' ⟨hinv, h⟩ hguard hstep
  exact ⟨inv_step hinv hstep, ordered_step hinv h hguard hstep⟩

/-- The lines that are still to be sent to a session stand behind those it has got. -/
theorem wire_of_ordered (hinv : st.Inv env) (h : st.Ordered) (s : ι) :
    (st.session s).sink.wire ++ ((st.session s).sink.writes.flatMap Write.unsent ++
        (Board.notes s st.board.posted).flatMap (frame env)) =
      (heard s st.board.log).flatMap (frame env) := by
  have hexpected : (st.session s).sink.expected = (st.board.taken s).flatMap (frame env) := by
    rw [Sink.expected, List.flatMap_def, hinv.writes s, ← List.flatMap_def]
  calc (st.session s).sink.wire ++ ((st.session s).sink.writes.flatMap Write.unsent ++
        (Board.notes s st.board.posted).flatMap (frame env))
      = (st.session s).sink.expected ++
          (Board.notes s st.board.posted).flatMap (frame env) := by
        rw [← List.append_assoc, h.inOrder s]
    _ = (st.board.taken s ++ Board.notes s st.board.posted).flatMap (frame env) := by
        rw [hexpected, List.flatMap_append]
    _ = (heard s st.board.log).flatMap (frame env) := by rw [h.inTurn s]

/-- **A client receives the frames of the lines logged while its session was in the set, in
order**, and all of them once nothing is posted for the session, nothing is outstanding on
it, and it is still in the set.  From them it gets the lines. -/
theorem receives_in_order (env : LogEnv ι) (labels : List (Label ι)) (st : LogServer ι) (s : ι)
    (hrun : Run env Orderly labels st) :
    (st.session s).sink.wire <+: (heard s st.board.log).flatMap (frame env) ∧
      (s ∈ st.board.members → Board.notes s st.board.posted = [] → (∀ op, (s, op) ∉ st.pending) →
        (st.session s).sink.wire = (heard s st.board.log).flatMap (frame env)) ∧
      ((∀ call ∈ heard s st.board.log, Sendable (text env call)) →
        (readAll readServerFrame (st.session s).sink.wire).1 <+:
          (heard s st.board.log).map fun call => (true, .textFrame, text env call)) := by
  obtain ⟨hinv, h⟩ := ordered_of_run hrun
  have hwire := wire_of_ordered hinv h s
  refine ⟨⟨_, hwire⟩, fun hs hnotes hpending => ?_, fun hsizes => ?_⟩
  · have hfinished : (st.session s).sink.Finished := (hinv.pending s hs).finished hpending
    rw [← hwire, hnotes, List.flatMap_eq_nil_iff.mpr hfinished, List.flatMap_nil, List.append_nil,
      List.append_nil]
  · have hprefix : (st.session s).sink.wire <+:
        ((heard s st.board.log).map (text env)).flatMap textFrame := by
      rw [List.flatMap_map]
      exact ⟨_, hwire⟩
    have htexts : ∀ msg ∈ (heard s st.board.log).map (text env), Sendable msg := by
      intro msg hmsg
      obtain ⟨call, hcall, rfl⟩ := List.mem_map.mp hmsg
      exact hsizes call hcall
    have hread := (readAll_textFrames htexts hprefix).1
    rwa [List.map_map] at hread

/-- A line that goes out in two parts. -/
theorem receives_in_order_two :
    ∃ st, Run plainLog Orderly
        [.connected 1, .connected 2, .logs ⟨.info, 7, chars "a"⟩, .runPosted #v[0, 0, 0, 0] 1,
          .runPosted #v[0, 0, 0, 0] 0, .writeSome 1 0 3, .writeSome 1 0 4,
          .writeCompletes 1 0 0 0] st ∧
      heard 1 st.board.log = [⟨.info, 7, chars "a"⟩] ∧
      (st.session 1).sink.wire = (heard 1 st.board.log).flatMap (frame plainLog) := by
  have hrun : ∃ st, Run plainLog Orderly
      [.connected 1, .connected 2, .logs ⟨.info, 7, chars "a"⟩, .runPosted #v[0, 0, 0, 0] 1,
        .runPosted #v[0, 0, 0, 0] 0, .writeSome 1 0 3, .writeSome 1 0 4,
        .writeCompletes 1 0 0 0] st ∧
      decide (heard 1 st.board.log = [⟨.info, 7, chars "a"⟩] ∧ 1 ∈ st.board.members ∧
        st.board.posted = [] ∧ st.pending = [(2, 0)]) = true :=
    Reaches.exists_of_runFrom
      (fun st : LogServer Nat => decide (heard 1 st.board.log = [⟨.info, 7, chars "a"⟩] ∧
        1 ∈ st.board.members ∧ st.board.posted = [] ∧ st.pending = [(2, 0)]))
      (by decide)
  obtain ⟨st, hrun, hview⟩ := hrun
  obtain ⟨hheard, hmem, hposted, hpending⟩ := of_decide_eq_true hview
  exact ⟨st, hrun, hheard, (receives_in_order _ _ _ 1 hrun).2.1 hmem
    (by simp [hposted, Board.notes]) (by simp [hpending])⟩

end LogServer

end Splice

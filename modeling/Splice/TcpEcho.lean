import Splice.AsyncWrite

/-!
# Splice.TcpEcho

The sessions that echo strings: `my_session` of the mono protocol `echo_server`, which reads
again once it has answered, whether the write went well or not, and `my_tcp_session` of the
multi protocol server, which answers one read.

Neither starts a write while another one is outstanding, so nothing is asked of the socket:
what is sent are the strings that were read, in turn (`echoes_in_turn`).
-/

namespace Splice

open ComposedWrite
open Transition

namespace TcpSession

/-- What a handler does last. -/
inductive Call where
  | asyncReadString
  | asyncWrite (msg : List UInt8)
  | onErrorCode (error : ErrorCode)
  | nothing
  deriving DecidableEq, Repr

/-- The sessions. -/
inductive EchoClass where
  | mySession
  | myTcpSession
  deriving DecidableEq, Repr

namespace EchoClass

/-- `on_socket_connected` of the first, `on_handshake_success` of the second. -/
def onConnected : EchoClass → Call
  | mySession => .asyncReadString
  | myTcpSession => .asyncReadString

/-- `on_read_string`: write it back. -/
def onReadString (msg : List UInt8) : EchoClass → Call
  | mySession => .asyncWrite msg
  | myTcpSession => .asyncWrite msg

/-- `on_write`; the second has the one of `tcp_session`. -/
def onWrite (error : ErrorCode) : EchoClass → Call
  | mySession => .asyncReadString
  | myTcpSession => if error ≠ 0 then .onErrorCode error else .nothing

end EchoClass

def EchoClass.onAsyncReadString (up : EchoClass) (incoming : List UInt8) (error : ErrorCode) :
    Call :=
  if error ≠ 0 then .onErrorCode error else up.onReadString incoming

end TcpSession

open TcpSession (Call EchoClass)

/-- A connection: whether a read is outstanding, the writes whose handlers have not run, and
the strings that have been read. -/
structure TcpEcho where
  isOpen : Bool
  reading : Bool
  sink : Sink UInt8
  pending : List Nat
  heard : List (List UInt8)

namespace TcpEcho

/-- Make a call.  With nothing outstanding nothing holds the session: its destructor closes the
socket. -/
def perform (conn : TcpEcho) : Call → TcpEcho
  | .asyncReadString => { conn with reading := true }
  | .asyncWrite msg =>
      { conn with
        sink := conn.sink.start (TcpSession.asyncWrite msg).flatten
        pending := conn.pending ++ [conn.sink.writes.length] }
  | .onErrorCode _ => { conn with isOpen := false }
  | .nothing => { conn with isOpen := conn.isOpen && (conn.reading || !conn.pending.isEmpty) }

/-- A connection is handed to a session. -/
def start (up : EchoClass) : TcpEcho := perform ⟨true, false, .empty, [], []⟩ up.onConnected

/-- What happens on the connection. -/
inductive Label where
  | readCompletes (error : ErrorCode) (incoming : List UInt8)
  | writeSome (op count : Nat)
  | writeCompletes (k : Nat) (error : ErrorCode)

/-- All of a write has been taken by the socket. -/
def Sent (conn : TcpEcho) (op : Nat) : Prop := ∀ w ∈ conn.sink.writes[op]?, w.unsent = []

instance (conn : TcpEcho) (op : Nat) : Decidable (conn.Sent op) :=
  inferInstanceAs (Decidable (∀ w ∈ _, _))

/-- One step.  The socket takes bytes of writes that have not completed. -/
def step (up : EchoClass) (conn : TcpEcho) : Label → Option TcpEcho
  | .readCompletes error incoming =>
      if conn.reading ∧ (error = 0 → conn.isOpen ∧ incoming.length ≤ 8192) then
        let heard := if error = 0 then conn.heard ++ [incoming] else conn.heard
        some ({ conn with reading := false, heard := heard }.perform
          (up.onAsyncReadString incoming error))
      else none
  | .writeSome op count =>
      if conn.isOpen ∧ conn.pending.contains op then do
        let sink ← conn.sink.writeSome op count
        return { conn with sink := sink }
      else none
  | .writeCompletes k error => do
      let op ← conn.pending[k]?
      if error = 0 ∧ ¬ conn.Sent op then none
      else return { conn with pending := conn.pending.eraseIdx k }.perform (up.onWrite error)

/-- The runs whose steps all satisfy `guard`. -/
abbrev Run (up : EchoClass) (guard : TcpEcho → Label → Prop) : List Label → TcpEcho → Prop :=
  Reaches (fun conn label conn' => conn.step up label = some conn') guard (start up)

/-- The strings read in a run. -/
def stringsOf (labels : List Label) : List (List UInt8) :=
  labels.filterMap fun
    | .readCompletes error incoming => if error = 0 then some incoming else none
    | _ => none

/-- No write fails. -/
def NoFailure (labels : List Label) : Prop :=
  ∀ label ∈ labels, ∀ k error, label = .writeCompletes k error → error = 0

/-! ## What a step does -/

variable {up : EchoClass} {conn conn' : TcpEcho} {label : Label} {labels : List Label}

/-- A string is written back. -/
def writing (conn : TcpEcho) (msg : List UInt8) : TcpEcho :=
  { conn with
    reading := false
    sink := conn.sink.start msg
    pending := conn.pending ++ [conn.sink.writes.length]
    heard := conn.heard ++ [msg] }

/-- What a step can be. -/
inductive Steps (up : EchoClass) (conn : TcpEcho) : Label → TcpEcho → Prop
  | echoes {incoming} : conn.reading → conn.isOpen → incoming.length ≤ 8192 →
      Steps up conn (.readCompletes 0 incoming) (conn.writing incoming)
  | ends {error incoming} : conn.reading → error ≠ 0 →
      Steps up conn (.readCompletes error incoming) { conn with isOpen := false, reading := false }
  | writeSome {op count sink} : conn.isOpen → op ∈ conn.pending →
      conn.sink.writeSome op count = some sink →
      Steps up conn (.writeSome op count) { conn with sink := sink }
  | written {k error op} : conn.pending[k]? = some op → (error = 0 → conn.Sent op) →
      Steps up conn (.writeCompletes k error)
        ({ conn with pending := conn.pending.eraseIdx k }.perform (up.onWrite error))

/-- There are no steps but these. -/
theorem steps_of_step (h : conn.step up label = some conn') : Steps up conn label conn' := by
  cases label with
  | readCompletes error incoming =>
      obtain ⟨⟨hreading, hread⟩, h⟩ := Option.ite_none_right_eq_some.mp h
      rw [← Option.some.inj h, EchoClass.onAsyncReadString]
      by_cases herror : error = 0
      · subst herror
        obtain ⟨hopen, hlen⟩ := hread rfl
        have hechoes : Steps up conn (.readCompletes 0 incoming) (conn.writing incoming) :=
          .echoes hreading hopen hlen
        cases up <;> simpa [writing, EchoClass.onReadString, perform, TcpSession.asyncWrite]
          using hechoes
      · simp only [if_neg herror, if_pos herror]
        exact .ends hreading herror
  | writeSome op count =>
      obtain ⟨⟨hopen, hpending⟩, h⟩ := Option.ite_none_right_eq_some.mp h
      obtain ⟨sink, hsink, h⟩ := Option.bind_eq_some_iff.mp h
      rw [← Option.some.inj h]
      exact .writeSome hopen (List.contains_iff_mem.mp hpending) hsink
  | writeCompletes k error =>
      obtain ⟨op, hget, h⟩ := Option.bind_eq_some_iff.mp h
      obtain ⟨hsent, h⟩ := Option.ite_none_left_eq_some.mp h
      rw [← Option.some.inj h]
      exact .written hget fun herror => by simpa [herror] using hsent

/-! ## One thing at a time -/

/-- A read is outstanding, or the latest write, or nothing. -/
inductive Phase (conn : TcpEcho) : Prop
  | reading : conn.reading = true → conn.pending = [] → Phase conn
  | writing {op} : conn.reading = false → conn.pending = [op] →
      op + 1 = conn.sink.writes.length → Phase conn
  | idle : conn.reading = false → conn.pending = [] → Phase conn

/-- Each string read has a write, and the sink has taken something of each in turn. -/
structure Inv (conn : TcpEcho) : Prop where
  phase : conn.Phase
  writes : conn.sink.writes.map Write.bytes = conn.heard
  inTurn : conn.sink.InTurn

/-- The write that is pending is the last one, and nothing is being read. -/
theorem Phase.latest (h : conn.Phase) {op : Nat} (hop : op ∈ conn.pending) :
    conn.reading = false ∧ conn.pending = [op] ∧ op + 1 = conn.sink.writes.length := by
  cases h with
  | reading _ hnil | idle _ hnil => exact absurd hop (by simp [hnil])
  | writing hreading hpending hlast =>
      obtain rfl := List.mem_singleton.mp (hpending ▸ hop)
      exact ⟨hreading, hpending, hlast⟩

/-- While something is being read no write is pending. -/
theorem Phase.nil_of_reading (h : conn.Phase) (hreading : conn.reading) : conn.pending = [] := by
  cases h with
  | reading _ hnil | idle _ hnil => exact hnil
  | writing hnot _ _ => exact absurd (hreading.symm.trans hnot) (by decide)

/-- The invariant holds of a new connection. -/
theorem inv_start : (start up).Inv := by
  cases up <;> exact ⟨.reading rfl rfl, rfl, Sink.inTurn_empty⟩

/-- After a write the session reads again, or is done. -/
theorem phase_perform_onWrite (error : ErrorCode) (hreading : conn.reading = false)
    (hnil : conn.pending = []) : (conn.perform (up.onWrite error)).Phase := by
  cases up with
  | mySession => exact .reading rfl hnil
  | myTcpSession =>
      rw [EchoClass.onWrite]
      split
      · exact .idle hreading hnil
      · exact .idle hreading hnil

/-- The completion of a write neither writes nor hears. -/
theorem perform_onWrite (up : EchoClass) (conn : TcpEcho) (error : ErrorCode) :
    (conn.perform (up.onWrite error)).sink = conn.sink ∧
      (conn.perform (up.onWrite error)).heard = conn.heard ∧
      (conn.perform (up.onWrite error)).pending = conn.pending := by
  cases up with
  | mySession => exact ⟨rfl, rfl, rfl⟩
  | myTcpSession =>
      rw [EchoClass.onWrite]
      split <;> exact ⟨rfl, rfl, rfl⟩

/-- Every step keeps the invariant. -/
theorem inv_step (h : conn.Inv) (hstep : conn.step up label = some conn') : conn'.Inv := by
  cases steps_of_step hstep with
  | @echoes incoming hreading _ _ =>
      have hnil := h.phase.nil_of_reading hreading
      refine ⟨.writing rfl (by rw [writing, hnil]; rfl) ?_, ?_, Sink.inTurn_start h.inTurn _⟩
      · simp [writing, Sink.start]
      · simp [writing, Sink.start, h.writes]
  | ends hreading _ =>
      exact ⟨.idle rfl (h.phase.nil_of_reading hreading), h.writes, h.inTurn⟩
  | writeSome _ hop hwrite =>
      obtain ⟨hreading, hpending, hlast⟩ := h.phase.latest hop
      have hbytes := Sink.map_bytes_writeSome hwrite
      have hlen := congrArg List.length hbytes
      rw [List.length_map, List.length_map] at hlen
      exact ⟨.writing hreading hpending (hlast.trans hlen.symm), hbytes.trans h.writes,
        Sink.inTurn_writeSome h.inTurn hlast hwrite⟩
  | @written k error op hget _ =>
      obtain ⟨hreading, hpending, -⟩ := h.phase.latest (List.mem_of_getElem? hget)
      obtain rfl : k = 0 := by
        rw [hpending] at hget
        cases k with
        | zero => rfl
        | succ k => simp at hget
      have hphase : (perform { conn with pending := conn.pending.eraseIdx 0 }
          (up.onWrite error)).Phase := phase_perform_onWrite error hreading (by simp [hpending])
      obtain ⟨hsink, hheard, -⟩ :=
        perform_onWrite up { conn with pending := conn.pending.eraseIdx 0 } error
      refine ⟨hphase, ?_, ?_⟩
      · rw [hsink, hheard]
        exact h.writes
      · rw [hsink]
        exact h.inTurn

/-- It holds at the end of every run. -/
theorem inv_of_run {guard : TcpEcho → Label → Prop} (hrun : Run up guard labels conn) :
    conn.Inv :=
  hrun.invariant (I := fun _ conn => conn.Inv) inv_start fun _ _ _ _ h _ hstep => inv_step h hstep

/-- What the session heard is what was read. -/
theorem heard_of_run {guard : TcpEcho → Label → Prop} (hrun : Run up guard labels conn) :
    conn.heard = stringsOf labels := by
  refine hrun.invariant (I := fun labels conn => conn.heard = stringsOf labels)
    (by cases up <;> rfl) ?_
  intro labels conn label conn' h _ hstep
  rw [stringsOf, List.filterMap_append, ← stringsOf, ← h]
  cases steps_of_step hstep with
  | echoes _ _ _ => rfl
  | ends _ herror => simp [herror]
  | writeSome _ _ _ => exact (List.append_nil _).symm
  | @written k error op _ _ =>
      obtain ⟨-, hheard, -⟩ :=
        perform_onWrite up { conn with pending := conn.pending.eraseIdx k } error
      exact hheard.trans (List.append_nil _).symm

/-- As long as no write fails, all have been sent but those outstanding. -/
theorem accounted_of_run {guard : TcpEcho → Label → Prop} (hrun : Run up guard labels conn)
    (hgood : NoFailure labels) : conn.sink.Accounted fun op => op ∈ conn.pending := by
  refine hrun.invariant
    (I := fun labels conn => NoFailure labels → conn.sink.Accounted fun op => op ∈ conn.pending)
    (fun _ => by cases up <;> exact Sink.accounted_empty) ?_ hgood
  intro labels conn label conn' h _ hstep hgood
  have hbefore := h fun label' hmem => hgood label' (List.mem_append_left _ hmem)
  cases steps_of_step hstep with
  | echoes _ _ _ =>
      have hmore : conn.sink.Accounted fun op =>
          op ∈ conn.pending ++ [conn.sink.writes.length] :=
        hbefore.imp fun op hop => .inl (List.mem_append_left _ hop)
      exact Sink.accounted_start hmore (by simp) _
  | ends _ _ => exact hbefore
  | writeSome _ _ hwrite => exact Sink.accounted_writeSome hbefore hwrite
  | @written k error op hget hsent =>
      have herror : error = 0 := hgood _ List.mem_concat_self k error rfl
      obtain ⟨hsink, -, hpending⟩ :=
        perform_onWrite up { conn with pending := conn.pending.eraseIdx k } error
      rw [hsink, hpending]
      refine hbefore.imp fun i hi => (mem_eraseIdx_or_eq hget hi).imp_right ?_
      rintro rfl
      exact hsent herror

/-- A session waits for a read or for a write as long as its socket is open. -/
theorem waits_of_run {guard : TcpEcho → Label → Prop} (hrun : Run up guard labels conn)
    (hopen : conn.isOpen) : conn.reading ∨ conn.pending ≠ [] := by
  refine hrun.invariant (I := fun _ conn => conn.isOpen → conn.reading ∨ conn.pending ≠ [])
    (fun _ => .inl (by cases up <;> rfl)) ?_ hopen
  intro labels conn label conn' h _ hstep hopen
  cases steps_of_step hstep with
  | echoes _ _ _ => exact .inr (by simp [writing])
  | ends _ _ => exact absurd hopen Bool.false_ne_true
  | writeSome hopen' _ _ => exact h hopen'
  | @written k error op _ _ =>
      cases up with
      | mySession => exact .inl rfl
      | myTcpSession =>
          rw [EchoClass.onWrite] at hopen ⊢
          split at hopen
          · exact absurd hopen Bool.false_ne_true
          · next hgood =>
              rw [if_neg hgood]
              simpa [perform] using (Bool.and_eq_true_iff.mp hopen).2

/-- `my_tcp_session` reads only once. -/
theorem heard_length_of_run {guard : TcpEcho → Label → Prop}
    (hrun : Run .myTcpSession guard labels conn) :
    conn.heard.length ≤ 1 ∧ (conn.reading → conn.heard = []) := by
  refine hrun.invariant
    (I := fun _ conn => conn.heard.length ≤ 1 ∧ (conn.reading → conn.heard = []))
    ⟨Nat.zero_le 1, fun _ => rfl⟩ ?_
  rintro labels conn label conn' ⟨hlen, hnil⟩ - hstep
  cases steps_of_step hstep with
  | echoes hreading _ _ =>
      refine ⟨?_, fun hreading' => absurd hreading' Bool.false_ne_true⟩
      simp [writing, hnil hreading]
  | ends _ _ => exact ⟨hlen, fun hreading => absurd hreading Bool.false_ne_true⟩
  | writeSome _ _ _ => exact ⟨hlen, hnil⟩
  | @written k error op _ _ =>
      simp only [EchoClass.onWrite]
      split <;> exact ⟨hlen, hnil⟩

/-- **The strings read are sent back in turn**: each has one write, the next one is only begun
when that has completed, and what has been sent is what the socket took of each.  If no write
failed, that is a beginning of what was read, and all of it while nothing is outstanding.
Something is outstanding as long as the socket is open; `my_tcp_session` stops after one
read. -/
theorem echoes_in_turn (up : EchoClass) (labels : List Label) (conn : TcpEcho)
    (hrun : Run up AnyStep labels conn) :
    conn.sink.writes.map Write.bytes = stringsOf labels ∧ conn.Phase ∧
      conn.sink.wire = conn.sink.writes.flatMap Write.taken ∧
      (NoFailure labels → conn.sink.wire <+: (stringsOf labels).flatten ∧
        (conn.pending = [] → conn.sink.wire = (stringsOf labels).flatten)) ∧
      (conn.isOpen → conn.reading ∨ conn.pending ≠ []) ∧
      (up = .myTcpSession → (stringsOf labels).length ≤ 1) := by
  have hinv := inv_of_run hrun
  have hheard := heard_of_run hrun
  have hexpected : conn.sink.expected = (stringsOf labels).flatten := by
    rw [Sink.expected, List.flatMap_def, hinv.writes, hheard]
  refine ⟨hinv.writes.trans hheard, hinv.phase, hinv.inTurn, fun hgood => ?_,
    waits_of_run hrun, ?_⟩
  · have haccounted := accounted_of_run hrun hgood
    rw [← hexpected]
    refine ⟨hinv.inTurn.wire_first fun w hw => ?_, fun hnil =>
      hinv.inTurn.eq_of_finished (haccounted.finished (by simp [hnil]))⟩
    obtain ⟨op, hop⟩ := List.getElem?_of_mem hw
    rw [List.getElem?_dropLast] at hop
    obtain ⟨hlt, hop⟩ := Option.ite_none_right_eq_some.mp hop
    refine (haccounted op w hop).resolve_left fun hpending => ?_
    obtain ⟨-, -, hlast⟩ := hinv.phase.latest hpending
    omega
  · rintro rfl
    rw [← hheard]
    exact (heard_length_of_run hrun).1

/-- A write of `echo_server` fails after a byte, and the next string is echoed all the same. -/
theorem echoes_in_turn_failed :
    ∃ conn, Run .mySession AnyStep
        [.readCompletes 0 (chars "ab"), .writeSome 0 1, .writeCompletes 0 32,
          .readCompletes 0 (chars "cd"), .writeSome 1 2, .writeCompletes 0 0] conn ∧
      conn.sink.writes.map Write.bytes = [chars "ab", chars "cd"] ∧
      conn.sink.wire = conn.sink.writes.flatMap Write.taken ∧ conn.sink.wire = chars "acd" := by
  have hrun : ∃ conn, Run .mySession AnyStep
      [.readCompletes 0 (chars "ab"), .writeSome 0 1, .writeCompletes 0 32,
        .readCompletes 0 (chars "cd"), .writeSome 1 2, .writeCompletes 0 0] conn ∧
      conn.sink.wire = chars "acd" :=
    Reaches.exists_of_runFrom (fun conn : TcpEcho => conn.sink.wire) (by decide)
  obtain ⟨conn, hrun, hwire⟩ := hrun
  obtain ⟨hwrites, -, htaken, -⟩ := echoes_in_turn _ _ _ hrun
  exact ⟨conn, hrun, hwrites, htaken, hwire⟩

end TcpEcho

end Splice

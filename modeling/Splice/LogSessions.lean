import Splice.AsyncWrite
import Splice.ServerFrames
import Splice.Lib.Subscription

/-!
# Splice.LogSessions

The log of `multi_protocol_echo/server`: whatever any part of the server logs goes through
`my_logger::track` to `my_server::on_logger`, which posts a `send` for each `my_log_session` in
`log_session_`.  A log session whose write fails logs that itself, shuts down and leaves the
set.

`Label`s are what happens to it, in any order: the rest of the program logs, a session is
connected, the `io_service` runs a posted handler, a socket takes some bytes, a write
completes, a session that nothing refers to any more is destroyed.  The set and the posted
handlers are a `Board`.
-/

namespace Splice

open ComposedWrite
open Subscription
open Transition

/-- The severities of `log_interface`. -/
inductive Severity where
  | trace
  | debug
  | info
  | warning
  | error
  | fatal
  deriving DecidableEq, Repr

/-- A call of a log function.  Objects are named, in the order of their addresses. -/
structure LogCall (ι : Type) where
  severity : Severity
  obj : ι
  msg : List UInt8
  deriving DecidableEq, Repr

/-- What the log takes from its build and its host.  `track` is the line that
`my_logger::track` makes of a call, with the thread, the place and the object in it;
`errorCode` is the text of an error code, `destructor` what `~tcp_session` says of an
object. -/
structure LogEnv (ι : Type) where
  isDebug : Bool
  host : Endian
  track : LogCall ι → List UInt8
  errorCode : ErrorCode → List UInt8
  destructor : ι → List UInt8

/-- A session after its `on_handshake_success`. -/
structure MyLogSession where
  isOpen : Bool
  sink : Sink UInt8

/-- The log of the server: the set with the handlers posted for its sessions, all sessions that
have been connected and those that exist, and the writes whose `on_write_quiet` has not run. -/
structure LogServer (ι : Type) [LinearOrder ι] where
  board : Board ι (LogCall ι)
  session : ι → MyLogSession
  known : List ι
  existing : List ι
  pending : List (ι × Nat)

namespace LogServer

variable {ι : Type} [LinearOrder ι]

/-- No log session has been there. -/
def start : LogServer ι := ⟨.empty, fun _ => ⟨false, .empty⟩, [], [], []⟩

/-! ## Logging -/

/-- Whether `my_logger` tracks a severity: with `NDEBUG` it leaves the two lowest to
`log_interface`, which does nothing. -/
def tracks (env : LogEnv ι) : Severity → Bool
  | .trace | .debug => env.isDebug
  | .info | .warning | .error | .fatal => true

/-- `log_session_.insert`. -/
def insert (st : LogServer ι) (obj : ι) (insert : Bool) : LogServer ι :=
  if insert then { st with board := st.board.join obj } else { st with board := st.board.leave obj }

/-- `log_session_.broadcast`. -/
def broadcast (st : LogServer ι) (call : LogCall ι) : LogServer ι :=
  { st with board := st.board.publish call }

/-- `log_trace` and its like, through `track` and `on_logger`. -/
def log (env : LogEnv ι) (st : LogServer ι) (call : LogCall ι) : LogServer ι :=
  if tracks env call.severity then st.broadcast call else st

/-! ## The sessions -/

/-- Change one session. -/
def update (st : LogServer ι) (s : ι) (session : MyLogSession) : LogServer ι :=
  { st with session := Function.update st.session s session }

/-- `on_shutdown` of `tcp_session` and of `my_log_session`. -/
def onShutdown (env : LogEnv ι) (st : LogServer ι) (s : ι) (shutDownEc closeEc : ErrorCode) :
    LogServer ι :=
  let st := if shutDownEc ≠ 0 then st.log env ⟨.error, s, env.errorCode shutDownEc⟩ else st
  let st := if closeEc ≠ 0 then st.log env ⟨.error, s, env.errorCode closeEc⟩ else st
  let st := if shutDownEc = 0 ∧ closeEc = 0 then st.log env ⟨.info, s, []⟩ else st
  st.insert s false

/-- `shutdown`; the error codes are those of the calls on the socket. -/
def shutdown (env : LogEnv ι) (st : LogServer ι) (s : ι) (ecShutdown ecClose : ErrorCode) :
    LogServer ι :=
  let isOpen := (st.session s).isOpen
  let st := st.log env ⟨.trace, s, chars (if isOpen then " is open" else " is close")⟩
  if !isOpen then st
  else
    let st := st.update s { st.session s with isOpen := false }
    st.onShutdown env s ecShutdown ecClose

def onError (env : LogEnv ι) (st : LogServer ι) (s : ι) (msg : List UInt8)
    (ecShutdown ecClose : ErrorCode) : LogServer ι :=
  let st := st.log env ⟨.error, s, if msg = [] then chars "[on_error]" else msg⟩
  st.shutdown env s ecShutdown ecClose

def onWriteQuiet (env : LogEnv ι) (st : LogServer ι) (s : ι)
    (error ecShutdown ecClose : ErrorCode) : LogServer ι :=
  if error ≠ 0 then st.onError env s [] ecShutdown ecClose else st

/-- `on_handshake_success`: the server is told. -/
def onHandshakeSuccess (st : LogServer ι) (s : ι) : LogServer ι := st.insert s true

def send (env : LogEnv ι) (junk : MaskingKey) (st : LogServer ι) (s : ι) (call : LogCall ι) :
    LogServer ι :=
  let session := st.session s
  let bytes := (MyLogSession.send env.host junk (env.track call)).flatten
  { st.update s { session with sink := session.sink.start bytes } with
    pending := st.pending ++ [(s, session.sink.writes.length)] }

/-- `~tcp_session`. -/
def destructor (env : LogEnv ι) (st : LogServer ι) (s : ι) (ecShutdown ecClose : ErrorCode) :
    LogServer ι :=
  (st.log env ⟨.info, s, env.destructor s⟩).shutdown env s ecShutdown ecClose

/-! ## Steps -/

/-- What happens to the log. -/
inductive Label (ι : Type) where
  | logs (call : LogCall ι)
  | connected (s : ι)
  | runPosted (junk : MaskingKey) (k : Nat)
  | writeSome (s : ι) (op count : Nat)
  | writeCompletes (k : Nat) (error ecShutdown ecClose : ErrorCode)
  | destroyed (s : ι) (ecShutdown ecClose : ErrorCode)

/-- Something refers to a session: the set, a posted handler or a write. -/
def Referenced (st : LogServer ι) (s : ι) : Prop :=
  s ∈ st.board.members ∨ (∃ note ∈ st.board.posted, note.1 = s) ∨ ∃ write ∈ st.pending, write.1 = s

instance (st : LogServer ι) (s : ι) : Decidable (st.Referenced s) :=
  inferInstanceAs (Decidable (_ ∨ _ ∨ _))

/-- All of a write has been taken by the socket. -/
def Sent (st : LogServer ι) (write : ι × Nat) : Prop :=
  ∀ w ∈ (st.session write.1).sink.writes[write.2]?, w.unsent = []

instance (st : LogServer ι) (write : ι × Nat) : Decidable (st.Sent write) :=
  inferInstanceAs (Decidable (∀ w ∈ _, _))

/-- One step.  A write completes without an error only if all of it has been sent. -/
def step (env : LogEnv ι) (st : LogServer ι) : Label ι → Option (LogServer ι)
  | .logs call => some (st.log env call)
  | .connected s =>
      if st.known.contains s then none
      else
        some ({ st.update s ⟨true, .empty⟩ with
          known := st.known ++ [s]
          existing := st.existing ++ [s] }.onHandshakeSuccess s)
  | .runPosted junk k => do
      let (s, call) ← st.board.posted[k]?
      let board ← st.board.take k
      return { st with board := board }.send env junk s call
  | .writeSome s op count => do
      let session := st.session s
      if !session.isOpen then none
      else
        let sink ← session.sink.writeSome op count
        return st.update s { session with sink := sink }
  | .writeCompletes k error ecShutdown ecClose => do
      let write ← st.pending[k]?
      if error = 0 ∧ ¬ st.Sent write then none
      else
        return { st with pending := st.pending.eraseIdx k }.onWriteQuiet env write.1 error
          ecShutdown ecClose
  | .destroyed s ecShutdown ecClose =>
      if st.existing.contains s ∧ ¬ st.Referenced s then
        some ({ st with existing := st.existing.erase s }.destructor env s ecShutdown ecClose)
      else none

/-- The runs whose steps all satisfy `guard`. -/
abbrev Run (env : LogEnv ι) (guard : LogServer ι → Label ι → Prop) :
    List (Label ι) → LogServer ι → Prop :=
  Reaches (fun st label st' => st.step env label = some st') guard start

/-! ## What a step does -/

/-- Some calls have been logged. -/
def said (st : LogServer ι) (calls : List (LogCall ι)) : LogServer ι :=
  { st with board := st.board.publishAll calls }

/-- A session has been shut down: its socket is closed and, after some calls have been logged,
it leaves the set. -/
def left (st : LogServer ι) (s : ι) (calls : List (LogCall ι)) : LogServer ι :=
  { st.update s { st.session s with isOpen := false } with
    board := (st.board.publishAll calls).leave s }

variable {env : LogEnv ι} {st st' : LogServer ι} {s : ι}

theorem said_said (st : LogServer ι) (calls more : List (LogCall ι)) :
    (st.said calls).said more = st.said (calls ++ more) := by
  simp [said, Board.publishAll]

/-- Logging says something, and does nothing else. -/
theorem log_cases (env : LogEnv ι) (st : LogServer ι) (call : LogCall ι) :
    ∃ calls, st.log env call = st.said calls := by
  unfold log
  split
  · exact ⟨[call], rfl⟩
  · exact ⟨[], rfl⟩

/-- A shutdown says something, and closes the session's socket. -/
theorem onShutdown_cases (env : LogEnv ι) (st : LogServer ι) (s : ι)
    (shutDownEc closeEc : ErrorCode) :
    ∃ calls, st.onShutdown env s shutDownEc closeEc = (st.said calls).insert s false := by
  have hlog : ∀ (st : LogServer ι) (c : Prop) [Decidable c] (call : LogCall ι), ∃ calls,
      (if c then st.log env call else st) = st.said calls := by
    intro st c _ call
    split
    · exact log_cases env st call
    · exact ⟨[], rfl⟩
  obtain ⟨first, hfirst⟩ := hlog st (shutDownEc ≠ 0) ⟨.error, s, env.errorCode shutDownEc⟩
  obtain ⟨second, hsecond⟩ := hlog (st.said first) (closeEc ≠ 0) ⟨.error, s, env.errorCode closeEc⟩
  obtain ⟨third, hthird⟩ := hlog ((st.said first).said second) (shutDownEc = 0 ∧ closeEc = 0)
    ⟨.info, s, []⟩
  refine ⟨first ++ second ++ third, ?_⟩
  unfold onShutdown
  dsimp only
  rw [hfirst, hsecond, hthird, said_said, said_said, List.append_assoc]

/-- A session that is not open only logs, and one that is open leaves. -/
theorem shutdown_cases (env : LogEnv ι) (st : LogServer ι) (s : ι)
    (ecShutdown ecClose : ErrorCode) :
    ∃ calls, st.shutdown env s ecShutdown ecClose =
      if (st.session s).isOpen then st.left s calls else st.said calls := by
  obtain ⟨first, hfirst⟩ := log_cases env st
    ⟨.trace, s, chars (if (st.session s).isOpen then " is open" else " is close")⟩
  unfold shutdown
  dsimp only
  rw [hfirst]
  cases hopen : (st.session s).isOpen with
  | false => exact ⟨first, rfl⟩
  | true =>
      obtain ⟨second, hsecond⟩ := onShutdown_cases env
        ((st.said first).update s { (st.said first).session s with isOpen := false }) s
        ecShutdown ecClose
      refine ⟨first ++ second, ?_⟩
      simp only [Bool.not_true, Bool.false_eq_true, if_false, if_true]
      rw [hsecond]
      simp [left, said, update, insert, Board.publishAll]

/-- An error lets a session leave whose socket is open. -/
theorem onError_cases (env : LogEnv ι) (st : LogServer ι) (s : ι) (msg : List UInt8)
    (ecShutdown ecClose : ErrorCode) :
    ∃ calls, st.onError env s msg ecShutdown ecClose =
      if (st.session s).isOpen then st.left s calls else st.said calls := by
  obtain ⟨first, hfirst⟩ := log_cases env st
    ⟨.error, s, if msg = [] then chars "[on_error]" else msg⟩
  obtain ⟨second, hsecond⟩ := shutdown_cases env (st.said first) s ecShutdown ecClose
  refine ⟨first ++ second, ?_⟩
  rw [onError, hfirst, hsecond]
  have hsession : (st.said first).session s = st.session s := rfl
  rw [hsession]
  split
  · simp [left, said, update, Board.publishAll]
  · rw [said_said]

/-- The text that a client is to get of a call: `send` puts a line break behind the line. -/
def text (env : LogEnv ι) (call : LogCall ι) : List UInt8 := env.track call ++ chars "<br>"

/-- The bytes that `send` writes. -/
def frame (env : LogEnv ι) (call : LogCall ι) : List UInt8 := textFrame (text env call)

/-- A handler has been run: the write of its line is under way. -/
def sending (env : LogEnv ι) (st : LogServer ι) (board : Board ι (LogCall ι)) (s : ι)
    (call : LogCall ι) : LogServer ι :=
  { st with
    board := board
    session := Function.update st.session s
      { st.session s with sink := (st.session s).sink.start (frame env call) }
    pending := st.pending ++ [(s, (st.session s).sink.writes.length)] }

/-- What a step can be. -/
inductive Steps (env : LogEnv ι) (st : LogServer ι) : Label ι → LogServer ι → Prop
  | logs {call calls} : Steps env st (.logs call) (st.said calls)
  | connected {s : ι} : s ∉ st.known →
      Steps env st (.connected s)
        { st.update s ⟨true, .empty⟩ with
          board := st.board.join s
          known := st.known ++ [s]
          existing := st.existing ++ [s] }
  | runPosted {junk k call board} {s : ι} : st.board.posted[k]? = some (s, call) →
      st.board.take k = some board →
      Steps env st (.runPosted junk k) (st.sending env board s call)
  | writeSome {op count sink} {s : ι} : (st.session s).isOpen →
      (st.session s).sink.writeSome op count = some sink →
      Steps env st (.writeSome s op count) (st.update s { st.session s with sink := sink })
  | sent {k ecShutdown ecClose write} : st.pending[k]? = some write → st.Sent write →
      Steps env st (.writeCompletes k 0 ecShutdown ecClose)
        { st with pending := st.pending.eraseIdx k }
  | fails {k error ecShutdown ecClose write calls} : error ≠ 0 → st.pending[k]? = some write →
      Steps env st (.writeCompletes k error ecShutdown ecClose)
        (if (st.session write.1).isOpen then
          { st with pending := st.pending.eraseIdx k }.left write.1 calls
        else { st with pending := st.pending.eraseIdx k }.said calls)
  | destroyed {ecShutdown ecClose calls} {s : ι} : s ∈ st.existing → ¬ st.Referenced s →
      Steps env st (.destroyed s ecShutdown ecClose)
        (if (st.session s).isOpen then
          { st with existing := st.existing.erase s }.left s calls
        else { st with existing := st.existing.erase s }.said calls)

/-- There are no steps but these. -/
theorem steps_of_step {label : Label ι} (h : st.step env label = some st') :
    Steps env st label st' := by
  cases label with
  | logs call =>
      obtain ⟨calls, hcalls⟩ := log_cases env st call
      rw [← Option.some.inj h, hcalls]
      exact .logs
  | connected s =>
      obtain ⟨hknown, h⟩ := Option.ite_none_left_eq_some.mp h
      rw [← Option.some.inj h]
      exact .connected (by simpa using hknown)
  | runPosted junk k =>
      obtain ⟨⟨s, call⟩, hget, h⟩ := Option.bind_eq_some_iff.mp h
      obtain ⟨board, hboard, h⟩ := Option.bind_eq_some_iff.mp h
      have hsend : st' = st.sending env board s call := by
        rw [← Option.some.inj h, send, MyLogSession.send, flatten_ofString]
        rfl
      rw [hsend]
      exact .runPosted hget hboard
  | writeSome s op count =>
      simp only [step] at h
      split at h
      · cases h
      · next hopen =>
          obtain ⟨sink, hsink, h⟩ := Option.bind_eq_some_iff.mp h
          rw [← Option.some.inj h]
          exact .writeSome (by simpa using hopen) hsink
  | writeCompletes k error ecShutdown ecClose =>
      obtain ⟨write, hget, h⟩ := Option.bind_eq_some_iff.mp h
      obtain ⟨hsent, h⟩ := Option.ite_none_left_eq_some.mp h
      rw [← Option.some.inj h, onWriteQuiet]
      by_cases herror : error = 0
      · subst herror
        exact .sent hget (by simpa using hsent)
      · obtain ⟨calls, hcalls⟩ := onError_cases env { st with pending := st.pending.eraseIdx k }
          write.1 [] ecShutdown ecClose
        rw [if_pos herror, hcalls]
        exact .fails herror hget
  | destroyed s ecShutdown ecClose =>
      obtain ⟨⟨hexisting, hreferenced⟩, h⟩ := Option.ite_none_right_eq_some.mp h
      obtain ⟨first, hfirst⟩ := log_cases env { st with existing := st.existing.erase s }
        ⟨.info, s, env.destructor s⟩
      obtain ⟨second, hsecond⟩ := shutdown_cases env
        (said { st with existing := st.existing.erase s } first) s ecShutdown ecClose
      have hst' : st' = if (st.session s).isOpen then
          { st with existing := st.existing.erase s }.left s (first ++ second)
          else { st with existing := st.existing.erase s }.said (first ++ second) := by
        rw [← Option.some.inj h, destructor, hfirst, hsecond]
        simp only [said, left, update, Board.publishAll, List.foldl_append]
        rfl
      rw [hst']
      exact .destroyed (by simpa using hexisting) hreferenced

end LogServer

end Splice

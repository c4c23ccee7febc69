import Splice.AsyncWrite
import Splice.PayloadBound
import Splice.ServerFrames
import Splice.WsSession

/-!
# Splice.WsAnswers

A connection of a class derived from `ws_session`, after its handshake: a message that reaches
`on_read` is answered at once, or left without an answer.  Reads go on while writes are
outstanding, so what the client gets depends on the order in which the socket serves them.

As long as it serves the oldest write, a client that takes the frames off the stream gets the
answers whole and in the order of the messages (`answers_in_order`).  A client that sends the
next frame only when it has got everything leaves the socket no choice
(`orderly_of_patient`).

`echo_ws_server` answers each message with itself (`echoes`).
-/

namespace Splice

open ComposedWrite
open DataFrameParser
open StreamReader
open Transition
open WsSession (Call)

/-- `on_read` of a derived class: what it passes to `async_write` for a message, where `τ` is
what it looks at besides; none if it returns without an answer. -/
abbrev OnRead (τ : Type) := τ → List UInt8 → Option (List UInt8)

/-- A connection: the parser that the outstanding read is bound to, the writes whose handlers
have not run, all calls so far, and the messages with what `on_read` found besides. -/
structure WsConn (τ : Type) where
  isOpen : Bool
  reading : Option State
  sink : Sink UInt8
  pending : List Nat
  calls : List Call
  heard : List (τ × List UInt8)

namespace WsConn

variable {τ : Type}

/-- After `on_handshake_success`. -/
def start : WsConn τ where
  isOpen := true
  reading := WsSession.outstanding WsSession.onHandshakeSuccess
  sink := .empty
  pending := []
  calls := WsSession.onHandshakeSuccess
  heard := []

/-- `ws_session::async_write`. -/
def asyncWrite (host : Endian) (junk : MaskingKey) (conn : WsConn τ) (msg : List UInt8) :
    WsConn τ :=
  { conn with
    sink := conn.sink.start (WsSession.asyncWrite host junk msg).flatten
    pending := conn.pending ++ [conn.sink.writes.length] }

/-- `on_read` of the derived class. -/
def onRead (host : Endian) (up : OnRead τ) (junk : MaskingKey) (now : τ) (conn : WsConn τ)
    (msg : List UInt8) : WsConn τ :=
  let conn := { conn with heard := conn.heard ++ [(now, msg)] }
  match up now msg with
  | some answer => conn.asyncWrite host junk answer
  | none => conn

def shutdown (conn : WsConn τ) : WsConn τ := { conn with isOpen := false }

/-- Make a call. -/
def perform (host : Endian) (up : OnRead τ) (junk : MaskingKey) (now : τ) (conn : WsConn τ) :
    Call → WsConn τ
  | .onRead msg => conn.onRead host up junk now msg
  | .onError _ => conn.shutdown
  | .onErrorCode _ => conn.shutdown
  | .asyncReadSome frameParser => { conn with reading := some frameParser }

def onWriteDataframe (conn : WsConn τ) (error : ErrorCode) : WsConn τ :=
  if error ≠ 0 then conn.shutdown else conn

/-- What happens on the connection: a read completes, with what the members of the frame
objects hold that nothing has set; the socket takes some bytes of a write; a write
completes. -/
inductive Label (τ : Type) where
  | readCompletes (junk writeJunk : MaskingKey) (now : τ) (error : ErrorCode)
      (incoming : List UInt8)
  | writeSome (op count : Nat)
  | writeCompletes (k : Nat) (error : ErrorCode)

/-- All of a write has been taken by the socket. -/
def Sent (conn : WsConn τ) (op : Nat) : Prop := ∀ w ∈ conn.sink.writes[op]?, w.unsent = []

instance (conn : WsConn τ) (op : Nat) : Decidable (conn.Sent op) :=
  inferInstanceAs (Decidable (∀ w ∈ _, _))

/-- One step.  A read brings at most as much as the buffer holds. -/
def step (host : Endian) (up : OnRead τ) (conn : WsConn τ) : Label τ → Option (WsConn τ)
  | .readCompletes junk writeJunk now error incoming => do
      let frameParser ← conn.reading
      if 8192 < incoming.length then none
      else
        let calls := WsSession.onReadDataframe host junk frameParser error incoming
        return calls.foldl (perform host up writeJunk now)
          { conn with reading := none, calls := conn.calls ++ calls }
  | .writeSome op count =>
      if !conn.isOpen then none
      else do
        let sink ← conn.sink.writeSome op count
        return { conn with sink := sink }
  | .writeCompletes k error => do
      let op ← conn.pending[k]?
      if error = 0 ∧ ¬ conn.Sent op then none
      else return { conn with pending := conn.pending.eraseIdx k }.onWriteDataframe error

/-- The runs whose steps all satisfy `guard`. -/
abbrev Run (host : Endian) (up : OnRead τ) (guard : WsConn τ → Label τ → Prop) :
    List (Label τ) → WsConn τ → Prop :=
  Reaches (fun conn label conn' => conn.step host up label = some conn') guard start

/-- The messages that have reached `on_read`. -/
def messages (conn : WsConn τ) : List (List UInt8) := WsSession.delivered conn.calls

/-- What `on_read` has answered them with. -/
def answers (up : OnRead τ) (conn : WsConn τ) : List (List UInt8) :=
  conn.heard.filterMap fun (now, msg) => up now msg

/-- The reads of a run that brought something. -/
def readsOf (labels : List (Label τ)) : List (List UInt8) :=
  labels.filterMap fun
    | .readCompletes _ _ _ error incoming => if error = 0 then some incoming else none
    | _ => none

/-- The socket serves the oldest write unfinished. -/
def Orderly (conn : WsConn τ) : Label τ → Prop
  | .writeSome op _ => conn.sink.Oldest op
  | _ => True

instance (conn : WsConn τ) : (label : Label τ) → Decidable (conn.Orderly label)
  | .readCompletes _ _ _ _ _ => isTrue trivial
  | .writeSome op _ => inferInstanceAs (Decidable (conn.sink.Oldest op))
  | .writeCompletes _ _ => isTrue trivial

/-- The client sends something only when all that was written has been sent. -/
def Patient (conn : WsConn τ) : Label τ → Prop
  | .readCompletes _ _ _ _ _ => conn.sink.Finished
  | _ => True

/-! ## What a step does -/

variable {host : Endian} {up : OnRead τ} {conn conn' : WsConn τ} {label : Label τ}
  {labels : List (Label τ)}

/-- What a read can lead to: a message, more reads, or the end. -/
theorem calls_cases (host : Endian) (junk : MaskingKey) (frameParser : State) (error : ErrorCode)
    (incoming : List UInt8) :
    (∃ msg, WsSession.onReadDataframe host junk frameParser error incoming =
        [.onRead msg, .asyncReadSome .finOpcode] ∧ msg.length ≤ incoming.length) ∨
      (∃ frameParser', WsSession.onReadDataframe host junk frameParser error incoming =
        [.asyncReadSome frameParser']) ∨
      (∃ text, WsSession.onReadDataframe host junk frameParser error incoming =
        [.onError text]) ∨
      WsSession.onReadDataframe host junk frameParser error incoming = [.onErrorCode error] := by
  by_cases herror : error ≠ 0
  · exact .inr (.inr (.inr (if_pos herror)))
  · have hlen := length_payload_parse host frameParser (.new junk) incoming
    rw [WsSession.onReadDataframe, if_neg herror]
    rcases hparse : parse host frameParser (.new junk) incoming with
      ⟨result, ⟨state, readFrame⟩, rest⟩
    have hpayload : readFrame.payload.length ≤ incoming.length := by
      have hempty : (DataFrame.new junk).payload.length = 0 := rfl
      simp only [hparse, hempty] at hlen
      omega
    cases result with
    | false => exact .inr (.inr (.inl ⟨_, rfl⟩))
    | indeterminate => exact .inr (.inl ⟨state, rfl⟩)
    | true =>
        simp only [WsSession.onParsed, WsSession.onReadDataFrame]
        cases readFrame.opcode with
        | textFrame => exact .inl ⟨readFrame.payload, rfl, hpayload⟩
        | ping | pong => exact .inr (.inl ⟨_, rfl⟩)
        | continuationFrame | binaryFrame | connectionClose | reserved =>
            exact .inr (.inr (.inl ⟨_, rfl⟩))

/-- The write of an answer is under way. -/
def writing (conn : WsConn τ) (answer : List UInt8) : WsConn τ :=
  { conn with
    sink := conn.sink.start (textFrame answer)
    pending := conn.pending ++ [conn.sink.writes.length] }

/-- A message has come, and is answered if it is to be. -/
def answering (up : OnRead τ) (conn : WsConn τ) (now : τ) (msg : List UInt8) : WsConn τ :=
  let next := (up now msg).elim conn conn.writing
  { next with
    reading := some .finOpcode
    calls := conn.calls ++ [.onRead msg, .asyncReadSome .finOpcode]
    heard := conn.heard ++ [(now, msg)] }

/-- What a step can be. -/
inductive Steps (host : Endian) (up : OnRead τ) (conn : WsConn τ) : Label τ → WsConn τ → Prop
  | message {junk writeJunk now error incoming frameParser msg} :
      conn.reading = some frameParser →
      WsSession.onReadDataframe host junk frameParser error incoming =
        [.onRead msg, .asyncReadSome .finOpcode] → msg.length ≤ 8192 →
      Steps host up conn (.readCompletes junk writeJunk now error incoming)
        (conn.answering up now msg)
  | more {junk writeJunk now error incoming frameParser frameParser'} :
      conn.reading = some frameParser →
      WsSession.onReadDataframe host junk frameParser error incoming =
        [.asyncReadSome frameParser'] →
      Steps host up conn (.readCompletes junk writeJunk now error incoming)
        { conn with
          reading := some frameParser'
          calls := conn.calls ++ [.asyncReadSome frameParser'] }
  | ends {junk writeJunk now error incoming frameParser call} : conn.reading = some frameParser →
      WsSession.onReadDataframe host junk frameParser error incoming = [call] →
      WsSession.delivered [call] = [] → WsSession.outstanding [call] = none →
      Steps host up conn (.readCompletes junk writeJunk now error incoming)
        { conn with isOpen := false, reading := none, calls := conn.calls ++ [call] }
  | writeSome {op count sink} : conn.isOpen → conn.sink.writeSome op count = some sink →
      Steps host up conn (.writeSome op count) { conn with sink := sink }
  | sent {k op} : conn.pending[k]? = some op → conn.Sent op →
      Steps host up conn (.writeCompletes k 0) { conn with pending := conn.pending.eraseIdx k }
  | fails {k error op} : error ≠ 0 → conn.pending[k]? = some op →
      Steps host up conn (.writeCompletes k error)
        { conn with pending := conn.pending.eraseIdx k, isOpen := false }

/-- There are no steps but these. -/
theorem steps_of_step (h : conn.step host up label = some conn') :
    Steps host up conn label conn' := by
  cases label with
  | readCompletes junk writeJunk now error incoming =>
      obtain ⟨frameParser, hreading, h⟩ := Option.bind_eq_some_iff.mp h
      obtain ⟨hlen, h⟩ := Option.ite_none_left_eq_some.mp h
      rw [← Option.some.inj h]
      rcases calls_cases host junk frameParser error incoming with
        ⟨msg, hcalls, hmsg⟩ | ⟨frameParser', hcalls⟩ | ⟨text, hcalls⟩ | hcalls
      · have hanswering : Steps host up conn (.readCompletes junk writeJunk now error incoming)
            (conn.answering up now msg) := .message hreading hcalls (by omega)
        rw [hcalls]
        simp only [List.foldl_cons, List.foldl_nil, perform, onRead]
        unfold answering at hanswering
        cases hup : up now msg with
        | none =>
            rw [hup] at hanswering
            exact hanswering
        | some answer =>
            rw [hup] at hanswering
            simp only [asyncWrite, WsSession.asyncWrite, flatten_ofString]
            exact hanswering
      · rw [hcalls]
        exact .more hreading hcalls
      · rw [hcalls]
        exact .ends hreading hcalls rfl rfl
      · rw [hcalls]
        exact .ends hreading hcalls rfl rfl
  | writeSome op count =>
      simp only [step] at h
      split at h
      · cases h
      · next hopen =>
          obtain ⟨sink, hsink, h⟩ := Option.bind_eq_some_iff.mp h
          rw [← Option.some.inj h]
          exact .writeSome (by simpa using hopen) hsink
  | writeCompletes k error =>
      obtain ⟨op, hget, h⟩ := Option.bind_eq_some_iff.mp h
      obtain ⟨hsent, h⟩ := Option.ite_none_left_eq_some.mp h
      rw [← Option.some.inj h, onWriteDataframe]
      by_cases herror : error = 0
      · subst herror
        exact .sent hget (by simpa using hsent)
      · rw [if_pos herror]
        exact .fails herror hget

/-! ## What is written -/

/-- Each answer has a write, and those not sent yet are outstanding. -/
structure Inv (up : OnRead τ) (conn : WsConn τ) : Prop where
  writes : conn.sink.writes.map Write.bytes = (conn.answers up).map textFrame
  heard : conn.heard.map Prod.snd = conn.messages
  short : ∀ msg ∈ conn.messages, msg.length ≤ 8192
  pending : conn.isOpen → conn.sink.Accounted fun op => op ∈ conn.pending

/-- The invariant holds of a new connection. -/
theorem inv_start : (start : WsConn τ).Inv up where
  writes := rfl
  heard := rfl
  short := nofun
  pending _ := Sink.accounted_empty

theorem messages_append (conn : WsConn τ) (calls : List Call) :
    WsSession.delivered (conn.calls ++ calls) = conn.messages ++ WsSession.delivered calls :=
  List.filterMap_append

/-- A message more is answered behind the others. -/
theorem answers_answering (up : OnRead τ) (conn : WsConn τ) (now : τ) (msg : List UInt8) :
    (conn.answering up now msg).answers up = conn.answers up ++ (up now msg).toList := by
  simp only [answers, answering, List.filterMap_append]
  cases hup : up now msg <;> simp [hup]

/-- The answer to a message that fits its buffer keeps the invariant. -/
theorem inv_answering (h : conn.Inv up) (now : τ) {msg : List UInt8} (hmsg : msg.length ≤ 8192) :
    (conn.answering up now msg).Inv up := by
  have hmessages : (conn.answering up now msg).messages = conn.messages ++ [msg] :=
    messages_append conn _
  refine ⟨?_, ?_, ?_, ?_⟩
  · rw [answers_answering, List.map_append, ← h.writes, answering]
    cases up now msg with
    | none => simp
    | some answer => simp [writing, Sink.start]
  · rw [hmessages, ← h.heard]
    exact List.map_append
  · rw [hmessages]
    simpa [or_imp, forall_and] using ⟨h.short, hmsg⟩
  · rw [answering]
    cases up now msg with
    | none => exact h.pending
    | some answer =>
        intro hopen
        have hmore : conn.sink.Accounted fun op =>
            op ∈ conn.pending ++ [conn.sink.writes.length] :=
          (h.pending hopen).imp fun op hop => .inl (List.mem_append_left _ hop)
        exact Sink.accounted_start hmore (by simp) _

/-- A completion takes its write off the ones outstanding. -/
theorem inv_eraseIdx (h : conn.Inv up) {k op : Nat} (hget : conn.pending[k]? = some op)
    (hsent : conn.Sent op) : Inv up { conn with pending := conn.pending.eraseIdx k } := by
  refine ⟨h.writes, h.heard, h.short, fun hopen => (h.pending hopen).imp fun i hi => ?_⟩
  refine (mem_eraseIdx_or_eq hget hi).imp_right ?_
  rintro rfl
  exact hsent

/-- Calls that bring no message. -/
theorem inv_quiet (h : conn.Inv up) {call : Call} (hnone : WsSession.delivered [call] = [])
    {isOpen : Bool} (hopen : isOpen → conn.isOpen) (reading : Option State) :
    Inv up { conn with isOpen := isOpen, reading := reading, calls := conn.calls ++ [call] } := by
  have hmessages : WsSession.delivered (conn.calls ++ [call]) = conn.messages := by
    rw [messages_append, hnone, List.append_nil]
  refine ⟨h.writes, ?_, ?_, fun hopen' => h.pending (hopen hopen')⟩
  · simpa only [messages, hmessages] using h.heard
  · simpa only [messages, hmessages] using h.short

/-- Every step keeps the invariant. -/
theorem inv_step (h : conn.Inv up) (hstep : conn.step host up label = some conn') :
    conn'.Inv up := by
  cases steps_of_step hstep with
  | message _ _ hmsg => exact inv_answering h _ hmsg
  | more _ _ => exact inv_quiet h rfl id _
  | ends _ _ hnone _ => exact inv_quiet h hnone (fun hopen => absurd hopen Bool.false_ne_true) _
  | writeSome _ hwrite =>
      exact ⟨(Sink.map_bytes_writeSome hwrite).trans h.writes, h.heard, h.short,
        fun hopen => Sink.accounted_writeSome (h.pending hopen) hwrite⟩
  | sent hget hsent => exact inv_eraseIdx h hget hsent
  | fails _ _ =>
      exact ⟨h.writes, h.heard, h.short, fun hopen => absurd hopen Bool.false_ne_true⟩

/-- It holds at the end of every run. -/
theorem inv_of_run {guard : WsConn τ → Label τ → Prop} (hrun : Run host up guard labels conn) :
    conn.Inv up :=
  hrun.invariant (I := fun _ conn => conn.Inv up) inv_start
    fun _ _ _ _ h _ hstep => inv_step h hstep

/-- Every orderly step keeps the wire in order. -/
theorem inOrder_step (h : conn.sink.InOrder) (hguard : conn.Orderly label)
    (hstep : conn.step host up label = some conn') : conn'.sink.InOrder := by
  cases steps_of_step hstep with
  | @message _ _ now _ _ _ msg _ _ _ =>
      rw [answering]
      cases up now msg with
      | none => exact h
      | some answer => exact Sink.inOrder_start h _
  | writeSome _ hwrite => exact Sink.inOrder_writeSome h hguard hwrite
  | more _ _ | ends _ _ _ _ | sent _ _ | fails _ _ => exact h

/-- In orderly runs the wire is in order. -/
theorem inOrder_of_run (hrun : Run host up Orderly labels conn) : conn.sink.InOrder :=
  hrun.invariant (I := fun _ conn => conn.sink.InOrder) Sink.inOrder_empty
    fun _ _ _ _ h hguard hstep => inOrder_step h hguard hstep

/-! ## What is delivered -/

/-- The run is one of `ws_session` on its reads, and goes on as that one would. -/
structure Follows (host : Endian) (reads : List (List UInt8)) (conn : WsConn τ) : Prop where
  delivered : ∃ junk, conn.messages = WsSession.deliveredFrom host junk .finOpcode reads
  goesOn : conn.reading.isSome → ∀ junk more, ∃ junk',
    WsSession.deliveredFrom host junk' .finOpcode (reads ++ more) =
      conn.messages ++ WsSession.delivered (WsSession.runReads host junk conn.reading more)

theorem follows_start : (start : WsConn τ).Follows host [] where
  delivered := ⟨fun _ => #v[0, 0, 0, 0], rfl⟩
  goesOn _ junk _ := ⟨junk, rfl⟩

/-- What the members of the next frame object hold, and those of the later ones. -/
def junkThen (junk : MaskingKey) (later : Nat → MaskingKey) : Nat → MaskingKey
  | 0 => junk
  | i + 1 => later i

/-- A read has been completed, with the calls that `on_read_dataframe` makes. -/
theorem follows_read {reads : List (List UInt8)} (h : conn.Follows host reads) {junk : MaskingKey}
    {frameParser : State} {error : ErrorCode} {incoming : List UInt8} {calls : List Call}
    (hreading : conn.reading = some frameParser)
    (hcalls : WsSession.onReadDataframe host junk frameParser error incoming = calls)
    {next : WsConn τ} (hnext : next.calls = conn.calls ++ calls)
    (houtstanding : next.reading = WsSession.outstanding calls) :
    next.Follows host (reads ++ if error = 0 then [incoming] else []) := by
  have hmessages : next.messages = conn.messages ++ WsSession.delivered calls := by
    rw [messages, hnext, messages_append]
  have hsome : conn.reading.isSome := by rw [hreading]; rfl
  by_cases herror : error = 0
  · subst herror
    rw [if_pos rfl]
    refine ⟨?_, fun _ junk' more => ?_⟩
    · obtain ⟨all, hall⟩ := h.goesOn hsome (fun _ => junk) [incoming]
      refine ⟨all, ?_⟩
      rw [hall, hmessages, hreading, WsSession.runReads, hcalls]
      simp [WsSession.delivered, WsSession.runReads]
    · obtain ⟨all, hall⟩ := h.goesOn hsome (junkThen junk junk') (incoming :: more)
      refine ⟨all, ?_⟩
      rw [List.append_assoc, List.singleton_append, hall, hmessages, hreading, houtstanding,
        WsSession.runReads, junkThen, hcalls]
      simp [WsSession.delivered, junkThen]
  · rw [if_neg herror, List.append_nil]
    have hone : calls = [.onErrorCode error] := by
      rw [← hcalls, WsSession.onReadDataframe, if_pos herror]
    obtain ⟨all, hall⟩ := h.delivered
    refine ⟨⟨all, ?_⟩, fun hnextSome => ?_⟩
    · rw [hmessages, hone, hall]
      exact List.append_nil _
    · rw [houtstanding, hone] at hnextSome
      exact absurd hnextSome Bool.false_ne_true

/-- The bytes of a completion are read if it brings no error. -/
theorem readsOf_readCompletes (junk writeJunk : MaskingKey) (now : τ) (error : ErrorCode)
    (incoming : List UInt8) : readsOf [.readCompletes junk writeJunk now error incoming] =
      if error = 0 then [incoming] else [] := by
  by_cases herror : error = 0 <;> simp [readsOf, herror]

/-- Every step follows the reads that it adds. -/
theorem follows_step {reads : List (List UInt8)} (h : conn.Follows host reads)
    (hstep : conn.step host up label = some conn') :
    conn'.Follows host (reads ++ readsOf [label]) := by
  cases steps_of_step hstep with
  | message hreading hcalls _ | more hreading hcalls =>
      rw [readsOf_readCompletes]
      exact follows_read h hreading hcalls rfl rfl
  | ends hreading hcalls _ hnone =>
      rw [readsOf_readCompletes]
      exact follows_read h hreading hcalls rfl hnone.symm
  | writeSome _ _ | sent _ _ | fails _ _ =>
      show Follows host (reads ++ []) _
      rw [List.append_nil]
      exact ⟨h.delivered, h.goesOn⟩

/-- A run follows its reads. -/
theorem follows_of_run {guard : WsConn τ → Label τ → Prop} (hrun : Run host up guard labels conn) :
    conn.Follows host (readsOf labels) := by
  refine hrun.invariant (I := fun labels conn => conn.Follows host (readsOf labels))
    follows_start ?_
  intro labels conn label conn' h _ hstep
  rw [readsOf, List.filterMap_append]
  exact follows_step h hstep

/-! ## The answers -/

/-- A client that waits leaves the socket no choice. -/
theorem orderly_of_patient (hrun : Run host up Patient labels conn) :
    Run host up Orderly labels conn := by
  have hinv : Run host up Orderly labels conn ∧ OneOutstanding conn.sink := by
    refine hrun.invariant
      (I := fun labels conn => Run host up Orderly labels conn ∧ OneOutstanding conn.sink)
      ⟨.init, by simp [OneOutstanding, start, Sink.empty]⟩ ?_
    rintro labels conn label conn' ⟨hreach, hone⟩ hguard hstep
    cases steps_of_step hstep with
    | @message _ _ now _ _ _ msg _ _ _ =>
        refine ⟨.step hreach trivial hstep, ?_⟩
        rw [answering]
        cases up now msg with
        | none => exact hone
        | some answer =>
            show OneOutstanding (conn.sink.start (textFrame answer))
            rw [OneOutstanding, Sink.start, List.dropLast_concat]
            exact hguard
    | writeSome _ hwrite =>
        obtain ⟨hold, hone'⟩ := oldest_of_oneOutstanding hone hwrite
        exact ⟨.step hreach hold hstep, hone'⟩
    | more _ _ | ends _ _ _ _ | sent _ _ | fails _ _ => exact ⟨.step hreach trivial hstep, hone⟩
  exact hinv.1

/-- **The answers come in the order of the messages, each whole**, if the socket serves the
oldest write: what has been received of the stream are the frames of the answers from the
first one on, and all of them when nothing is outstanding on the open connection. -/
theorem wire_of_run (hrun : Run host up Orderly labels conn) :
    conn.sink.wire <+: (conn.answers up).flatMap textFrame ∧
      (conn.isOpen → conn.pending = [] → conn.sink.wire = (conn.answers up).flatMap textFrame) := by
  have hinv := inv_of_run hrun
  have horder := inOrder_of_run hrun
  have hexpected : conn.sink.expected = (conn.answers up).flatMap textFrame := by
    rw [Sink.expected, List.flatMap_def, hinv.writes, ← List.flatMap_def]
  rw [← hexpected]
  refine ⟨horder.wire_first, fun hopen hpending => horder.eq_of_finished ?_⟩
  exact (hinv.pending hopen).finished (by simp [hpending])

/-- So a client gets the answers, off the sizes that a frame cannot have. -/
theorem answers_in_order (hrun : Run host up Orderly labels conn)
    (hsize : ∀ answer ∈ conn.answers up, Sendable answer) :
    (readAll readServerFrame conn.sink.wire).1 <+:
        (conn.answers up).map (fun answer => (true, .textFrame, answer)) ∧
      (conn.isOpen → conn.pending = [] → (readAll readServerFrame conn.sink.wire).1 =
        (conn.answers up).map fun answer => (true, .textFrame, answer)) := by
  obtain ⟨hfirst, hall⟩ := wire_of_run hrun
  obtain ⟨hread, hreadAll⟩ := readAll_textFrames hsize hfirst
  exact ⟨hread, fun hopen hpending => hreadAll (hall hopen hpending)⟩

/-- The messages are the texts that the client sent, if each of them arrived in a read of its
own, or in two that cut it behind the first byte, with a size that the host reads right; an
empty one has to be in the 7-bit form. -/
theorem messages_of_arrives {guard : WsConn τ → Label τ → Prop}
    (hrun : Run host up guard labels conn) {frames : List ClientFrame}
    (htext : ∀ frame ∈ frames, frame.opcode = 1 ∧ (frame.payload = [] → frame.form = .len7))
    (harrives : WsSession.Arrives host frames (readsOf labels)) :
    conn.messages = frames.map ClientFrame.payload := by
  obtain ⟨junk, hjunk⟩ := (follows_of_run hrun).delivered
  rw [hjunk]
  exact WsSession.delivers_of_arrives htext harrives junk

end WsConn

/-! ## `echo_ws_server` -/

namespace EchoWsServer

open WsConn

variable {host : Endian} {conn : WsConn Unit} {labels : List (WsConn.Label Unit)}

/-- `my_session::on_read`: send it back. -/
def onRead : OnRead Unit := fun _ msg => some msg

/-- The answers of the echo session are the messages. -/
theorem answers_onRead {guard : WsConn Unit → WsConn.Label Unit → Prop}
    (hrun : Run host onRead guard labels conn) :
    conn.answers onRead = conn.messages := by
  rw [← (inv_of_run hrun).heard, answers, ← List.filterMap_eq_map]
  rfl

/-- **The client gets back what was delivered**, whole and in order, if the socket serves the
oldest write or the client waits: what it has received of the stream are the messages from the
first one on, and all of them when nothing is outstanding on the open connection.  Delivered
are the texts that the client sent, if each of them arrived in a read of its own (or in two,
cut behind the first byte) with a size that the host reads right, an empty one in the 7-bit
form. -/
theorem echoes (host : Endian) (labels : List (WsConn.Label Unit)) (conn : WsConn Unit)
    (hrun : Run host onRead Orderly labels conn ∨ Run host onRead Patient labels conn) :
    (readAll readServerFrame conn.sink.wire).1 <+:
        conn.messages.map (fun msg => (true, .textFrame, msg)) ∧
      (conn.isOpen → conn.pending = [] → (readAll readServerFrame conn.sink.wire).1 =
        conn.messages.map fun msg => (true, .textFrame, msg)) ∧
      ∀ frames, (∀ frame ∈ frames, frame.opcode = 1 ∧
          (frame.payload = [] → frame.form = .len7)) →
        WsSession.Arrives host frames (WsConn.readsOf labels) →
          conn.messages = frames.map ClientFrame.payload := by
  replace hrun : Run host onRead Orderly labels conn := hrun.elim id orderly_of_patient
  have hanswers := answers_onRead hrun
  have hsize : ∀ answer ∈ conn.answers onRead, Sendable answer := by
    intro answer hanswer
    rw [hanswers] at hanswer
    have hshort := (inv_of_run hrun).short answer hanswer
    exact ⟨by omega, by omega⟩
  rw [← hanswers]
  obtain ⟨hfirst, hall⟩ := answers_in_order hrun hsize
  refine ⟨hfirst, hall, fun frames htext harrives => ?_⟩
  rw [hanswers]
  exact messages_of_arrives hrun htext harrives

/-- "Hi" arrives, and goes back in two parts. -/
theorem echoes_hi :
    ∃ conn, Run .little onRead Orderly
        [.readCompletes #v[0, 0, 0, 0] #v[0, 0, 0, 0] () 0 [0x81, 0x82, 0, 0, 0, 0, 0x48, 0x69],
          .writeSome 0 3, .writeSome 0 1, .writeCompletes 0 0] conn ∧
      (readAll readServerFrame conn.sink.wire).1 = [(true, .textFrame, [0x48, 0x69])] := by
  have hrun : ∃ conn, Run .little onRead Orderly
      [.readCompletes #v[0, 0, 0, 0] #v[0, 0, 0, 0] () 0 [0x81, 0x82, 0, 0, 0, 0, 0x48, 0x69],
        .writeSome 0 3, .writeSome 0 1, .writeCompletes 0 0] conn ∧
      decide (conn.isOpen ∧ conn.pending = [] ∧ conn.messages = [[0x48, 0x69]]) = true :=
    Reaches.exists_of_runFrom
      (fun conn : WsConn Unit =>
        decide (conn.isOpen ∧ conn.pending = [] ∧ conn.messages = [[0x48, 0x69]]))
      (by decide)
  obtain ⟨conn, hrun, hview⟩ := hrun
  obtain ⟨hopen, hpending, hmessages⟩ := of_decide_eq_true hview
  refine ⟨conn, hrun, ?_⟩
  rw [(echoes .little _ conn (.inl hrun)).2.1 hopen hpending, hmessages]
  rfl

end EchoWsServer

end Splice

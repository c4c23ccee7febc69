import Splice.HandlerEnds
import Splice.Lib.Transition

/-!
# Splice.MultiProtocol

`multi_protocol`: one accepted connection, from `on_accept` on.

A connection steps when a pending call is made or when the socket completes the read
or the write that is outstanding; the client chooses the bytes and the sizes of the
reads.  Its log is what an observer of the calls and of the wire sees.
-/

namespace Splice

open Transition

/-- `multi_protocol` and the server class derived from it.  `doNextHandshake` gives the
session that the derived class makes for an index; none where its `switch` asserts. -/
structure Server where
  protocolCount : UInt32
  one_le_protocolCount : 1 ≤ protocolCount
  constructSession : Session
  doNextHandshake : UInt32 → Option Session

/-- `on_handshake_fail`, on the index bound to it: none if there is nothing left to try,
otherwise the index passed to `do_next_handshake` and bound to the new handler. -/
def onHandshakeFail (protocolIndex : UInt32) : Option UInt32 :=
  if protocolIndex = 0 then none else some (protocolIndex - 1)

/-- What is seen of a connection. -/
inductive Event where
  | read (incoming : List UInt8)
  | doNextHandshake (protocolIndex : UInt32) (tag : HandShake) (incoming : List UInt8)
  | asyncWrite (response : Response) (buffers : List (List UInt8))
  | onHandshakeSuccess (kind : Kind)
  | wsSession (call : WsSession.Call)
  | stop (ending : Ending)
  deriving DecidableEq, Repr

/-- What makes a connection step.  `junk` is what uninitialised memory holds. -/
inductive Label where
  | call
  | readCompletes (junk : MaskingKey) (error : ErrorCode) (incoming : List UInt8)
  | writeCompletes (error : ErrorCode)

/-- What is seen of the end of a handler. -/
def Next.events {η : Type} : Next η → List Event
  | .handshakeFail _ _ | .asyncReadSome _ _ => []
  | .asyncWrite response _ => [.asyncWrite response response.toBuffers]
  | .onHandshakeSuccess kind _ => [.onHandshakeSuccess kind]
  | .stop ending => [.stop ending]

/-- A connection: the buffers, what is pending and the log. -/
structure Conn where
  store : Store
  next : Next UInt32
  log : List Event

namespace Conn

/-- `on_accept`, and `on_socket_connected` of the new session. -/
def onAccept (server : Server) : Conn :=
  let (incomingData, store) := Store.mkIncomingData []
  { store := store
    next := .asyncReadSome incomingData
      (.onFirstRead server.constructSession (server.protocolCount - 1))
    log := [] }

/-- A handler has run. -/
def proceed (c : Conn) (events : List Event) (ran : Store × Next UInt32) : Conn where
  store := ran.1
  next := ran.2
  log := c.log ++ events ++ ran.2.events

/-- The call of a handshake_fail handler: `on_handshake_fail` and the derived class's
`do_next_handshake`. -/
def callHandshakeFail (server : Server) (env : Env) (c : Conn) (protocolIndex : UInt32)
    (incoming : HandShakeData) : Conn :=
  match onHandshakeFail protocolIndex with
  | none => c.proceed [] (c.store, .stop .unableToConnect)
  | some protocolIndex =>
      let tried := .doNextHandshake protocolIndex incoming.tag (incoming.string c.store)
      match server.doNextHandshake protocolIndex with
      | none => c.proceed [tried] (c.store, .stop .assertionFailed)
      | some session =>
          c.proceed [tried] (c.store, session.handshake env protocolIndex c.store incoming)

/-- The calls of a `ws_session` that reads into a buffer. -/
def wsSession (c : Conn) (events : List Event) (store : Store) (incomingData : Nat)
    (calls : List WsSession.Call) : Conn :=
  c.proceed (events ++ calls.map .wsSession)
    (store,
      match WsSession.outstanding calls with
      | some frameParser => .asyncReadSome incomingData (.onReadDataframe frameParser)
      | none => .stop .nothingPending)

/-- The completion of a read. -/
def completeRead (env : Env) (c : Conn) (incomingData : Nat) (junk : MaskingKey)
    (error : ErrorCode) (incoming : List UInt8) (handler : ReadHandler UInt32) : Conn :=
  let store := c.store.fill incomingData incoming
  let size := incoming.length
  match handler with
  | .onFirstRead session handshakeFail =>
      c.proceed [.read incoming]
        (store, session.onFirstRead env handshakeFail store incomingData size error)
  | .onGuidRead up handshakeFail frameParser =>
      c.proceed [.read incoming]
        (WsHandshake.onGuidRead env.host junk up handshakeFail store incomingData frameParser error
          size)
  | .handleRead site requestParser request =>
      c.proceed [.read incoming]
        (store, HttpSession.handleRead env.operationAborted site requestParser request store
          incomingData error size)
  | .onReadDataframe frameParser =>
      c.wsSession [.read incoming] store incomingData
        (WsSession.onReadDataframe env.host junk frameParser error (store.front incomingData size))

/-- The completion of a write. -/
def completeWrite (env : Env) (c : Conn) (error : ErrorCode) : WriteHandler UInt32 → Conn
  | .onSecondRead up handshakeFail reply =>
      c.proceed [] (WsHandshake.onSecondRead up handshakeFail reply c.store error)
  | .handleWrite => c.proceed [] (c.store, HttpSession.handleWrite env.operationAborted error)

/-- One step. -/
def step (server : Server) (env : Env) (c : Conn) : Label → Option Conn
  | .call =>
      match c.next with
      | .handshakeFail handler incoming => some (c.callHandshakeFail server env handler incoming)
      | .onHandshakeSuccess .webSocket calls =>
          let (incomingData, store) := c.store.mkIncomingData
          some (c.wsSession [] store incomingData calls)
      | _ => none
  | .readCompletes junk error incoming =>
      match c.next with
      | .asyncReadSome incomingData handler =>
          if incoming.length ≤ 8192 then
            some (c.completeRead env incomingData junk error incoming handler)
          else none
      | _ => none
  | .writeCompletes error =>
      match c.next with
      | .asyncWrite _ handler => some (c.completeWrite env error handler)
      | _ => none

/-- What the call of a handshake_fail handler comes to: there is nothing left to try, the
derived class has no session for the index, or the next session's `handshake` runs. -/
inductive FallsThrough (server : Server) (env : Env) (c : Conn) (handler : UInt32)
    (incoming : HandShakeData) : Conn → Prop
  | unable : onHandshakeFail handler = none →
      FallsThrough server env c handler incoming
        (c.proceed [] (c.store, .stop .unableToConnect))
  | asserts {i} : onHandshakeFail handler = some i → server.doNextHandshake i = none →
      FallsThrough server env c handler incoming
        (c.proceed [.doNextHandshake i incoming.tag (incoming.string c.store)]
          (c.store, .stop .assertionFailed))
  | tries {i session next} : onHandshakeFail handler = some i →
      server.doNextHandshake i = some session →
      Session.Handshake env i c.store incoming session next →
      FallsThrough server env c handler incoming
        (c.proceed [.doNextHandshake i incoming.tag (incoming.string c.store)] (c.store, next))

/-- What a step can be. -/
inductive Steps (server : Server) (env : Env) (c : Conn) : Label → Conn → Prop
  | handshakeFail {handler incoming c'} : c.next = .handshakeFail handler incoming →
      FallsThrough server env c handler incoming c' → Steps server env c .call c'
  | onHandshakeSuccess {calls} : c.next = .onHandshakeSuccess .webSocket calls →
      Steps server env c .call
        (c.wsSession [] c.store.mkIncomingData.2 c.store.mkIncomingData.1 calls)
  | asyncReadSome {incomingData handler junk error incoming} :
      c.next = .asyncReadSome incomingData handler → incoming.length ≤ 8192 →
      Steps server env c (.readCompletes junk error incoming)
        (c.completeRead env incomingData junk error incoming handler)
  | asyncWrite {response handler error} : c.next = .asyncWrite response handler →
      Steps server env c (.writeCompletes error) (c.completeWrite env error handler)

variable {server : Server} {env : Env} {c c' : Conn} {label : Label}

/-- These are all the ways in which it ends. -/
theorem callHandshakeFail_ends {handler : UInt32} {incoming : HandShakeData} :
    FallsThrough server env c handler incoming
      (c.callHandshakeFail server env handler incoming) := by
  unfold callHandshakeFail
  split
  · next hfail => exact .unable hfail
  · next hfail =>
      dsimp only
      split
      · next hsession => exact .asserts hfail hsession
      · next hsession => exact .tries hfail hsession Session.handshake_ends

/-- There are no steps but these. -/
theorem steps_of_step (h : c.step server env label = some c') : Steps server env c label c' := by
  unfold step at h
  split at h
  · split at h
    · next hnext =>
        rw [← Option.some.inj h]
        exact .handshakeFail hnext callHandshakeFail_ends
    · next hnext =>
        rw [← Option.some.inj h]
        exact .onHandshakeSuccess hnext
    · cases h
  · split at h
    · next hnext =>
        obtain ⟨hlen, h⟩ := Option.ite_none_right_eq_some.mp h
        rw [← Option.some.inj h]
        exact .asyncReadSome hnext hlen
    · cases h
  · split at h
    · next hnext =>
        rw [← Option.some.inj h]
        exact .asyncWrite hnext
    · cases h

/-- A connection only adds to its log. -/
theorem log_prefix_of_step (hstep : c.step server env label = some c') : c.log <+: c'.log := by
  have hproceed : ∀ events ran, c.log <+: (c.proceed events ran).log := by
    intro events ran
    rw [proceed, List.append_assoc]
    exact List.prefix_append _ _
  cases steps_of_step hstep with
  | handshakeFail _ hfalls => cases hfalls <;> exact hproceed _ _
  | onHandshakeSuccess => exact hproceed _ _
  | @asyncReadSome _ handler => cases handler <;> exact hproceed _ _
  | @asyncWrite _ handler => cases handler <;> exact hproceed _ _

/-- The runs of a connection whose steps all satisfy `guard`. -/
abbrev Run (server : Server) (env : Env) (guard : Conn → Label → Prop) : List Label → Conn → Prop :=
  Reaches (fun c label c' => c.step server env label = some c') guard (onAccept server)

end Conn

/-! ## What a log holds -/

/-- The reply written. -/
@[simp] def Event.response : Event → Option Response
  | .asyncWrite response _ => some response
  | .read _ | .doNextHandshake _ _ _ | .onHandshakeSuccess _ | .wsSession _ | .stop _ => none

/-- The index passed to `do_next_handshake`. -/
@[simp] def Event.protocolIndex : Event → Option UInt32
  | .doNextHandshake protocolIndex _ _ => some protocolIndex
  | .read _ | .asyncWrite _ _ | .onHandshakeSuccess _ | .wsSession _ | .stop _ => none

/-- The bytes read. -/
@[simp] def Event.incoming : Event → Option (List UInt8)
  | .read incoming => some incoming
  | .doNextHandshake _ _ _ | .asyncWrite _ _ | .onHandshakeSuccess _ | .wsSession _
  | .stop _ => none

def responses (log : List Event) : List Response := log.filterMap Event.response

def tried (log : List Event) : List UInt32 := log.filterMap Event.protocolIndex

def firstRead (log : List Event) : Option (List UInt8) := log.findSome? Event.incoming

/-- A 101 Switching Protocols has been written. -/
def Upgraded (log : List Event) : Prop := ∃ reply, Response.upgrade reply ∈ responses log

@[simp] theorem responses_append (log more : List Event) :
    responses (log ++ more) = responses log ++ responses more := List.filterMap_append

@[simp] theorem responses_nil : responses [] = [] := rfl

@[simp] theorem responses_cons (e : Event) (log : List Event) :
    responses (e :: log) = e.response.toList ++ responses log := by
  cases e <;> rfl

@[simp] theorem tried_append (log more : List Event) :
    tried (log ++ more) = tried log ++ tried more := List.filterMap_append

@[simp] theorem tried_nil : tried [] = [] := rfl

@[simp] theorem tried_cons (e : Event) (log : List Event) :
    tried (e :: log) = e.protocolIndex.toList ++ tried log := by
  cases e <;> rfl

@[simp] theorem firstRead_append (log more : List Event) :
    firstRead (log ++ more) = (firstRead log).or (firstRead more) := List.findSome?_append

@[simp] theorem firstRead_singleton (e : Event) : firstRead [e] = e.incoming := by
  cases e <;> rfl

end Splice

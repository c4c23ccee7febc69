import Splice.MultiProtocol

/-!
# Splice.MonoProtocol

`mono_protocol`: one accepted connection of a server that speaks WebSocket only, from
`on_accept` on.  The functions of `ws_handshake` here are those without a
`handshake_fail`.
-/

namespace Splice

open Transition

namespace MonoProtocol

/-- Handlers of `async_read_some`. -/
inductive ReadHandler where
  | onFirstRead
  | onReadDataframe (frameParser : DataFrameParser.State)

/-- What a handler does last.  The handler of a write is `on_second_read`, with the reply. -/
inductive Next where
  | asyncReadSome (incomingData : Nat) (handler : ReadHandler)
  | asyncWrite (reply : Rfc6455Engine.Reply)
  | onHandshakeSuccess
  | stop (ending : Ending)

/-- `ws_handshake::first_write`. -/
def firstWrite (boost : Rfc6455Engine.Boost) (store : Store) (incoming : HandShakeData) : Next :=
  match Rfc6455Engine.parseRequest (incoming.string store) with
  | (.true, (_, hsReq), _) =>
      let reply := Rfc6455Engine.handleRequest boost hsReq
      match reply.status with
      | .badRequest | .internalServerError => .stop (.onError "")
      | .switchingProtocols => .asyncWrite reply
  | (.false, _, _) | (.indeterminate, _, _) => .stop (.onError "")

/-- `ws_handshake::on_first_read`. -/
def onFirstRead (boost : Rfc6455Engine.Boost) (store : Store) (incomingData bytesTransferred : Nat)
    (error : ErrorCode) : Next :=
  if error ≠ 0 then .stop (.onErrorCode error)
  else firstWrite boost store ⟨.none, incomingData, bytesTransferred⟩

/-- `ws_handshake::on_second_read`. -/
def onSecondRead (reply : Rfc6455Engine.Reply) (error : ErrorCode) : Next :=
  if error ≠ 0 then .stop (.onErrorCode error)
  else
    match reply.status with
    | .switchingProtocols => .onHandshakeSuccess
    | .badRequest | .internalServerError => .stop .onBadRequest

/-- What `on_first_read` can end in. -/
inductive OnFirstRead (error : ErrorCode) : Next → Prop
  | error : error ≠ 0 → OnFirstRead error (.stop (.onErrorCode error))
  | invalid : error = 0 → OnFirstRead error (.stop (.onError ""))
  | writes {reply} : error = 0 → reply.status = .switchingProtocols →
      OnFirstRead error (.asyncWrite reply)

/-- What `on_second_read` can end in. -/
inductive OnSecondRead (reply : Rfc6455Engine.Reply) (error : ErrorCode) : Next → Prop
  | error : error ≠ 0 → OnSecondRead reply error (.stop (.onErrorCode error))
  | badRequest : error = 0 → reply.status ≠ .switchingProtocols →
      OnSecondRead reply error (.stop .onBadRequest)
  | succeeds : error = 0 → reply.status = .switchingProtocols →
      OnSecondRead reply error .onHandshakeSuccess

section Ends

variable {error : ErrorCode}

/-- These are all the ways in which `on_first_read` ends. -/
theorem onFirstRead_ends {boost : Rfc6455Engine.Boost} {store : Store}
    {incomingData bytesTransferred : Nat} :
    OnFirstRead error (onFirstRead boost store incomingData bytesTransferred error) := by
  unfold onFirstRead
  split
  · next herror => exact .error herror
  · next hgood =>
      have hzero : error = 0 := by simpa using hgood
      unfold firstWrite
      split
      · dsimp only
        split
        · exact .invalid hzero
        · exact .invalid hzero
        · next hstatus => exact .writes hzero hstatus
      · exact .invalid hzero
      · exact .invalid hzero

/-- These are all the ways in which `on_second_read` ends. -/
theorem onSecondRead_ends {reply : Rfc6455Engine.Reply} :
    OnSecondRead reply error (onSecondRead reply error) := by
  unfold onSecondRead
  split
  · next herror => exact .error herror
  · next hgood =>
      have hzero : error = 0 := by simpa using hgood
      split
      · next hstatus => exact .succeeds hzero hstatus
      · next hstatus => exact .badRequest hzero (by simp [hstatus])
      · next hstatus => exact .badRequest hzero (by simp [hstatus])

end Ends

/-- What is seen of the end of a handler. -/
def Next.events : Next → List Event
  | .asyncReadSome _ _ => []
  | .asyncWrite reply => [.asyncWrite (.upgrade reply) reply.toBuffers]
  | .onHandshakeSuccess => [.onHandshakeSuccess .webSocket]
  | .stop ending => [.stop ending]

/-- A connection: the buffers, what is pending and the log. -/
structure Conn where
  store : Store
  next : Next
  log : List Event

namespace Conn

/-- `on_accept`, and `on_socket_connected` of the new session. -/
def onAccept : Conn :=
  let (incomingData, store) := Store.mkIncomingData []
  { store := store, next := .asyncReadSome incomingData .onFirstRead, log := [] }

/-- A handler has run. -/
def proceed (c : Conn) (events : List Event) (store : Store) (next : Next) : Conn where
  store := store
  next := next
  log := c.log ++ events ++ next.events

/-- The calls of the `ws_session` that reads into a buffer. -/
def wsSession (c : Conn) (events : List Event) (store : Store) (incomingData : Nat)
    (calls : List WsSession.Call) : Conn :=
  c.proceed (events ++ calls.map .wsSession) store
    (match WsSession.outstanding calls with
      | some frameParser => .asyncReadSome incomingData (.onReadDataframe frameParser)
      | none => .stop .nothingPending)

/-- The completion of a read. -/
def completeRead (env : Env) (c : Conn) (incomingData : Nat) (junk : MaskingKey)
    (error : ErrorCode) (incoming : List UInt8) (handler : ReadHandler) : Conn :=
  let store := c.store.fill incomingData incoming
  let size := incoming.length
  match handler with
  | .onFirstRead =>
      c.proceed [.read incoming] store (onFirstRead env.boost store incomingData size error)
  | .onReadDataframe frameParser =>
      c.wsSession [.read incoming] store incomingData
        (WsSession.onReadDataframe env.host junk frameParser error (store.front incomingData size))

/-- One step.  `calls` are those of the session in its `on_handshake_success`. -/
def step (env : Env) (calls : List WsSession.Call) (c : Conn) : Label → Option Conn
  | .call =>
      match c.next with
      | .onHandshakeSuccess =>
          let (incomingData, store) := c.store.mkIncomingData
          some (c.wsSession [] store incomingData calls)
      | _ => none
  | .readCompletes junk error incoming =>
      match c.next with
      | .asyncReadSome incomingData handler =>
          if incoming.length ≤ 8192 then
            some (c.completeRead env incomingData junk error incoming handler)
          else none
      | _ => none
  | .writeCompletes error =>
      match c.next with
      | .asyncWrite reply => some (c.proceed [] c.store (onSecondRead reply error))
      | _ => none

/-- The runs of a connection whose steps all satisfy `guard`. -/
abbrev Run (env : Env) (calls : List WsSession.Call) (guard : Conn → Label → Prop) :
    List Label → Conn → Prop :=
  Reaches (fun c label c' => c.step env calls label = some c') guard onAccept

end Conn

end MonoProtocol

end Splice

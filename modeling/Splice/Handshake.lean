import Splice.HttpServer
import Splice.Rfc6455Engine
import Splice.WsSession

/-!
# Splice.Handshake

The handshakes of a multi protocol server: the handlers of `tcp_session`,
`ws_handshake` and `http_session` that are called with a `handshake_fail`, as
functions to what they do last (`Next`).

A handshake_fail handler is a value of any type `η` here: the sessions only keep it
and call it.  Constructors of `ReadHandler` and `WriteHandler` are the completion
handlers, with all that the source binds to them.
-/

namespace Splice

open Incremental (Tribool)

/-- `try_handshake` of a derived class: the tag and the bytes of the incoming data. -/
abbrev TryHandshake := HandShake → List UInt8 → Bool

/-- The session classes. -/
inductive Kind where
  | webSocket
  | http
  | tcp
  | serialization
  deriving DecidableEq, Repr

/-- What a class derived from `ws_session` adds.  `onHandshakeSuccess` is the one of
`ws_session` unless the derived class has its own. -/
structure WsClass where
  tryHandshake : TryHandshake
  onHandshakeSuccess : List WsSession.Call

/-- A session, with what its derived class adds. -/
inductive Session where
  | ws (up : WsClass)
  | http (site : HttpServer.Site)
  | tcp (tryHandshake : TryHandshake)
  | serialization (tryHandshake : TryHandshake)

/-- What the sessions take from their host: its byte order, Boost, and the value of
`boost::asio::error::operation_aborted`. -/
structure Env where
  host : Endian
  boost : Rfc6455Engine.Boost
  operationAborted : ErrorCode

/-- The replies that are written during a handshake. -/
inductive Response where
  | upgrade (reply : Rfc6455Engine.Reply)
  | http (reply : HttpServer.Reply)
  deriving DecidableEq, Repr

/-- `reply->to_buffers()`. -/
def Response.toBuffers : Response → List (List UInt8)
  | .upgrade reply => reply.toBuffers
  | .http reply => reply.toBuffers

/-- Handlers of `async_read_some`. -/
inductive ReadHandler (η : Type) where
  | onFirstRead (session : Session) (handshakeFail : η)
  | onGuidRead (up : WsClass) (handshakeFail : η) (frameParser : DataFrameParser.State)
  | handleRead (site : HttpServer.Site) (requestParser : RequestParser.State) (request : Request)
  | onReadDataframe (frameParser : DataFrameParser.State)

/-- Handlers of `async_write`. -/
inductive WriteHandler (η : Type) where
  | onSecondRead (up : WsClass) (handshakeFail : η) (reply : Rfc6455Engine.Reply)
  | handleWrite

/-- How a connection ends. -/
inductive Ending where
  | onError (msg : String)
  | onErrorCode (error : ErrorCode)
  | onBadRequest
  | close
  | unableToConnect
  | assertionFailed
  | nothingPending
  deriving DecidableEq, Repr

/-- What a handler does last.  `calls` are those of a `ws_session` in its
`on_handshake_success`. -/
inductive Next (η : Type) where
  | handshakeFail (handler : η) (incoming : HandShakeData)
  | asyncReadSome (incomingData : Nat) (handler : ReadHandler η)
  | asyncWrite (response : Response) (handler : WriteHandler η)
  | onHandshakeSuccess (kind : Kind) (calls : List WsSession.Call)
  | stop (ending : Ending)

variable {η : Type}

/-! ## `tcp_session` -/

namespace TcpSession

/-- `on_first_read`.  Without an error nothing is done. -/
def onFirstRead (error : ErrorCode) : Next η :=
  if error ≠ 0 then .stop (.onErrorCode error) else .stop .nothingPending

/-- `handshake`; `kind` is the derived class's. -/
def handshake (kind : Kind) (tryHandshake : TryHandshake) (handshakeFail : η) (store : Store)
    (incoming : HandShakeData) : Next η :=
  if tryHandshake incoming.tag (incoming.string store) then .onHandshakeSuccess kind []
  else .handshakeFail handshakeFail incoming

end TcpSession

/-! ## `ws_handshake` -/

namespace WsHandshake

def firstWrite (boost : Rfc6455Engine.Boost) (up : WsClass) (handshakeFail : η)
    (store : Store) (incoming : HandShakeData) : Next η :=
  match Rfc6455Engine.parseRequest (incoming.string store) with
  | (.true, (_, hsReq), _) =>
      let reply := Rfc6455Engine.handleRequest boost hsReq
      match reply.status with
      | .badRequest | .internalServerError => .handshakeFail handshakeFail incoming
      | .switchingProtocols =>
          .asyncWrite (.upgrade reply) (.onSecondRead up handshakeFail reply)
  | (.false, _, _) | (.indeterminate, _, _) => .handshakeFail handshakeFail incoming

def onFirstRead (boost : Rfc6455Engine.Boost) (up : WsClass) (handshakeFail : η)
    (store : Store) (incomingData bytesTransferred : Nat) (error : ErrorCode) : Next η :=
  if error ≠ 0 then .stop (.onErrorCode error)
  else if contains (chars "Sec-WebSocket-Key:") (store.front incomingData bytesTransferred) then
    firstWrite boost up handshakeFail store ⟨.none, incomingData, bytesTransferred⟩
  else
    -- can't be a web socket request
    .handshakeFail handshakeFail ⟨.http, incomingData, bytesTransferred⟩

def guidRead (up : WsClass) (handshakeFail : η) (store : Store) : Store × Next η :=
  let (incomingData, store) := store.mkIncomingData
  (store, .asyncReadSome incomingData (.onGuidRead up handshakeFail .finOpcode))

def onSecondRead (up : WsClass) (handshakeFail : η) (reply : Rfc6455Engine.Reply)
    (store : Store) (error : ErrorCode) : Store × Next η :=
  if error ≠ 0 then (store, .stop (.onErrorCode error))
  else
    match reply.status with
    | .switchingProtocols => guidRead up handshakeFail store
    | .badRequest | .internalServerError => (store, .stop .onBadRequest)

def doCustomHandshake (up : WsClass) (handshakeFail : η) (store : Store)
    (incoming : HandShakeData) : Next η :=
  if !up.tryHandshake incoming.tag (incoming.string store) then
    .handshakeFail handshakeFail incoming
  else .onHandshakeSuccess .webSocket up.onHandshakeSuccess

/-- `on_guid_read`; `junk` is what `masking_key_` of the local `read_frame` happens to
hold. -/
def onGuidRead (host : Endian) (junk : MaskingKey) (up : WsClass) (handshakeFail : η)
    (store : Store) (incomingData : Nat) (frameParser : DataFrameParser.State) (error : ErrorCode)
    (bytesTransferred : Nat) : Store × Next η :=
  if error ≠ 0 then (store, .stop (.onErrorCode error))
  else
    match DataFrameParser.parse host frameParser (.new junk)
      (store.front incomingData bytesTransferred) with
    | (.false, _, _) => (store, .stop (.onError ""))
    | (.indeterminate, _, _) => (store, .stop .nothingPending)
    | (.true, (_, readFrame), _) =>
        match readFrame.opcode with
        | .textFrame =>
            let size := readFrame.payload.length
            let (idp, store) := store.mkIncomingData
            let store := store.fill idp readFrame.payload
            (store, doCustomHandshake up handshakeFail store ⟨.wsGuid, idp, size⟩)
        | .continuationFrame | .binaryFrame | .connectionClose | .ping | .pong | .reserved =>
            (store, .stop (.onError ""))

def handshake (boost : Rfc6455Engine.Boost) (up : WsClass) (handshakeFail : η) (store : Store)
    (incoming : HandShakeData) : Next η :=
  match incoming.tag with
  | .http => firstWrite boost up handshakeFail store incoming
  | .wsGuid => doCustomHandshake up handshakeFail store incoming
  | .webSocket | .none => .handshakeFail handshakeFail incoming

end WsHandshake

/-! ## `http_session` -/

namespace HttpSession

def onFirstRead (operationAborted : ErrorCode) (site : HttpServer.Site) (handshakeFail : η)
    (store : Store) (incomingData bytesTransferred : Nat) (ec : ErrorCode) : Next η :=
  if ec ≠ 0 then
    if ec ≠ operationAborted then .stop (.onErrorCode ec) else .stop .nothingPending
  else
    let request := store.front incomingData bytesTransferred
    if contains (chars "Sec-WebSocket-Key:") request then
      -- could be a web socket request
      .handshakeFail handshakeFail ⟨.http, incomingData, bytesTransferred⟩
    else
      match HttpServer.parseRequest .methodStart .new request with
      | (.true, (_, req), _) =>
          .asyncWrite (.http (HttpServer.handleRequest site req)) .handleWrite
      | (.false, _, _) => .handshakeFail handshakeFail ⟨.http, incomingData, bytesTransferred⟩
      | (.indeterminate, (requestParser, req), _) =>
          .asyncReadSome incomingData (.handleRead site requestParser req)

def handshake (operationAborted : ErrorCode) (site : HttpServer.Site) (handshakeFail : η)
    (store : Store) (incoming : HandShakeData) : Next η :=
  if incoming.tag ≠ .http then .handshakeFail handshakeFail incoming
  else onFirstRead operationAborted site handshakeFail store incoming.data incoming.size 0

def handleRead (operationAborted : ErrorCode) (site : HttpServer.Site)
    (requestParser : RequestParser.State) (request : Request) (store : Store) (buffer : Nat)
    (e : ErrorCode) (bytesTransferred : Nat) : Next η :=
  if e = 0 then
    match HttpServer.parseRequest requestParser request (store.front buffer bytesTransferred) with
    | (.true, (_, req), _) =>
        .asyncWrite (.http (HttpServer.handleRequest site req)) .handleWrite
    | (.false, _, _) => .asyncWrite (.http (.stockReply .badRequest)) .handleWrite
    | (.indeterminate, (requestParser, req), _) =>
        .asyncReadSome buffer (.handleRead site requestParser req)
  else if e ≠ operationAborted then .stop .close
  else .stop .nothingPending

def handleWrite (operationAborted : ErrorCode) (e : ErrorCode) : Next η :=
  if e ≠ operationAborted then .stop .close else .stop .nothingPending

end HttpSession

/-! ## All sessions -/

namespace Session

def onFirstRead (env : Env) (session : Session) (handshakeFail : η) (store : Store)
    (incomingData bytesTransferred : Nat) (error : ErrorCode) : Next η :=
  match session with
  | ws up =>
      WsHandshake.onFirstRead env.boost up handshakeFail store incomingData bytesTransferred error
  | http site =>
      HttpSession.onFirstRead env.operationAborted site handshakeFail store incomingData
        bytesTransferred error
  | tcp _ | serialization _ => TcpSession.onFirstRead error

def handshake (env : Env) (session : Session) (handshakeFail : η) (store : Store)
    (incoming : HandShakeData) : Next η :=
  match session with
  | ws up => WsHandshake.handshake env.boost up handshakeFail store incoming
  | http site => HttpSession.handshake env.operationAborted site handshakeFail store incoming
  | tcp tryHandshake => TcpSession.handshake .tcp tryHandshake handshakeFail store incoming
  | serialization tryHandshake =>
      TcpSession.handshake .serialization tryHandshake handshakeFail store incoming

/-- Whether the session reads and writes without frames, and accepts some data as its
handshake. -/
def acceptsUnframed (tag : HandShake) (incoming : List UInt8) : Session → Bool
  | tcp tryHandshake | serialization tryHandshake => tryHandshake tag incoming
  | ws _ | http _ => false

end Session

end Splice

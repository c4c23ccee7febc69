import Splice.Handshake

/-!
# Splice.HandlerStatements

The handlers of `ws_handshake` and `http_session` once more, statement by statement: a
`HandlerM` runs on the buffers and on the list of what it has called so far, so that a branch
can call two things, or none.  `Does` ties each to the function of `Splice.Handshake` that
says what it does last: that is all that the handler does.
-/

namespace Splice

variable {η : Type}

/-- What a handler can do. -/
inductive Action (η : Type) where
  | asyncReadSome (incomingData : Nat) (handler : ReadHandler η)
  | asyncWrite (response : Response) (handler : WriteHandler η)
  | handshakeFail (handler : η) (incoming : HandShakeData)
  | onHandshakeSuccess
  | onError (msg : String)
  | onErrorCode (error : ErrorCode)
  | onBadRequest

namespace HandlerStatements

/-- Statements of a handler: the buffers, and what it has done. -/
abbrev HandlerM (η : Type) := StateM (Store × List (Action η))

def perform (action : Action η) : HandlerM η Unit :=
  modify fun (store, actions) => (store, actions ++ [action])

def getStore : HandlerM η Store := return (← get).1

def mkIncomingData : HandlerM η Nat :=
  modifyGet fun (store, actions) => (store.mkIncomingData.1, store.mkIncomingData.2, actions)

def fill (ptr : Nat) (bytes : List UInt8) : HandlerM η Unit :=
  modify fun (store, actions) => (store.fill ptr bytes, actions)

/-! ## `ws_handshake` -/

namespace WsHandshake

def firstWrite (boost : Rfc6455Engine.Boost) (up : WsClass) (handshakeFail : η)
    (incoming : HandShakeData) : HandlerM η Unit := do
  let (result, (_, hsReq), _) := Rfc6455Engine.parseRequest (incoming.string (← getStore))
  if result = .true then
    let reply := Rfc6455Engine.handleRequest boost hsReq
    match reply.status with
    | .badRequest | .internalServerError =>
        perform (.handshakeFail handshakeFail incoming)
        return
    | .switchingProtocols =>
        perform (.asyncWrite (.upgrade reply) (.onSecondRead up handshakeFail reply))
  else
    perform (.handshakeFail handshakeFail incoming)

def onFirstRead (boost : Rfc6455Engine.Boost) (up : WsClass) (handshakeFail : η)
    (incomingData bytesTransferred : Nat) (error : ErrorCode) : HandlerM η Unit := do
  if error ≠ 0 then
    perform (.onErrorCode error)
    return
  let request := (← getStore).front incomingData bytesTransferred
  if !contains (chars "Sec-WebSocket-Key:") request then
    -- can't be a web socket request
    perform (.handshakeFail handshakeFail ⟨.http, incomingData, bytesTransferred⟩)
    return
  firstWrite boost up handshakeFail ⟨.none, incomingData, bytesTransferred⟩

def guidRead (up : WsClass) (handshakeFail : η) : HandlerM η Unit := do
  let incomingData ← mkIncomingData
  perform (.asyncReadSome incomingData (.onGuidRead up handshakeFail .finOpcode))

def onSecondRead (up : WsClass) (handshakeFail : η) (reply : Rfc6455Engine.Reply)
    (error : ErrorCode) : HandlerM η Unit := do
  if error ≠ 0 then
    perform (.onErrorCode error)
    return
  match reply.status with
  | .switchingProtocols => guidRead up handshakeFail
  | .badRequest | .internalServerError => perform .onBadRequest

def doCustomHandshake (up : WsClass) (handshakeFail : η) (incoming : HandShakeData) :
    HandlerM η Unit := do
  if !up.tryHandshake incoming.tag (incoming.string (← getStore)) then
    perform (.handshakeFail handshakeFail incoming)
  else
    perform .onHandshakeSuccess

def onGuidRead (host : Endian) (junk : MaskingKey) (up : WsClass) (handshakeFail : η)
    (incomingData : Nat) (frameParser : DataFrameParser.State) (error : ErrorCode)
    (bytesTransferred : Nat) : HandlerM η Unit := do
  if error ≠ 0 then
    perform (.onErrorCode error)
    return
  let (result, (_, readFrame), _) := DataFrameParser.parse host frameParser (.new junk)
    ((← getStore).front incomingData bytesTransferred)
  match result with
  | .false => perform (.onError "")
  | .indeterminate =>
      -- the next read is commented out
      return
  | .true =>
      match readFrame.opcode with
      | .textFrame =>
          let size := readFrame.payload.length
          let idp ← mkIncomingData
          fill idp readFrame.payload
          doCustomHandshake up handshakeFail ⟨.wsGuid, idp, size⟩
      | .continuationFrame | .binaryFrame | .connectionClose | .ping | .pong | .reserved =>
          perform (.onError "")

def handshake (boost : Rfc6455Engine.Boost) (up : WsClass) (handshakeFail : η)
    (incoming : HandShakeData) : HandlerM η Unit := do
  match incoming.tag with
  | .http => firstWrite boost up handshakeFail incoming
  | .wsGuid => doCustomHandshake up handshakeFail incoming
  | .webSocket | .none => perform (.handshakeFail handshakeFail incoming)

end WsHandshake

/-! ## `http_session` -/

namespace HttpSession

def onFirstRead (operationAborted : ErrorCode) (site : HttpServer.Site) (handshakeFail : η)
    (incomingData bytesTransferred : Nat) (ec : ErrorCode) : HandlerM η Unit := do
  if ec ≠ 0 then
    if ec ≠ operationAborted then
      perform (.onErrorCode ec)
    return
  let request := (← getStore).front incomingData bytesTransferred
  if contains (chars "Sec-WebSocket-Key:") request then
    -- could be a web socket request
    perform (.handshakeFail handshakeFail ⟨.http, incomingData, bytesTransferred⟩)
    return
  let (result, (requestParser, req), _) := HttpServer.parseRequest .methodStart .new request
  if result = .true then
    perform (.asyncWrite (.http (HttpServer.handleRequest site req)) .handleWrite)
  else if result = .false then
    perform (.handshakeFail handshakeFail ⟨.http, incomingData, bytesTransferred⟩)
    return
  else
    perform (.asyncReadSome incomingData (.handleRead site requestParser req))

def handshake (operationAborted : ErrorCode) (site : HttpServer.Site) (handshakeFail : η)
    (incoming : HandShakeData) : HandlerM η Unit := do
  if incoming.tag ≠ .http then
    perform (.handshakeFail handshakeFail incoming)
    return
  onFirstRead operationAborted site handshakeFail incoming.data incoming.size 0

end HttpSession

end HandlerStatements

/-! ## All that they do -/

/-- What a handler has done that ends so. -/
def Next.actions : Next η → List (Action η)
  | .handshakeFail handler incoming => [.handshakeFail handler incoming]
  | .asyncReadSome incomingData handler => [.asyncReadSome incomingData handler]
  | .asyncWrite response handler => [.asyncWrite response handler]
  | .onHandshakeSuccess _ _ => [.onHandshakeSuccess]
  | .stop (.onError msg) => [.onError msg]
  | .stop (.onErrorCode error) => [.onErrorCode error]
  | .stop .onBadRequest => [.onBadRequest]
  | .stop .close | .stop .unableToConnect | .stop .assertionFailed | .stop .nothingPending => []

namespace HandlerStatements

/-- The result of some statements, with the buffers and all that has been done then. -/
def after {α : Type} (statements : HandlerM η α) (store : Store) (done : List (Action η)) :
    α × Store × List (Action η) := (statements.run (store, done)).run

section After

variable {α β : Type} (store : Store) (done : List (Action η))

@[simp] theorem after_pure (a : α) : after (pure a) store done = (a, store, done) := rfl

/-- One statement after the other. -/
@[simp] theorem after_bind (first : HandlerM η α) (next : α → HandlerM η β) :
    after (first >>= next) store done =
      after (next (after first store done).1) (after first store done).2.1
        (after first store done).2.2 := rfl

@[simp] theorem after_perform (action : Action η) :
    after (perform action) store done = ((), store, done ++ [action]) := rfl

@[simp] theorem after_getStore : after getStore store done = (store, store, done) := rfl

@[simp] theorem after_mkIncomingData :
    after mkIncomingData store done =
      (store.mkIncomingData.1, store.mkIncomingData.2, done) := rfl

@[simp] theorem after_fill (ptr : Nat) (bytes : List UInt8) :
    after (fill ptr bytes) store done = ((), store.fill ptr bytes, done) := rfl

end After

/-- The statements come to what a function on the buffers says. -/
def Does (statements : HandlerM η Unit) (ran : Store → Store × Next η) : Prop :=
  ∀ store done, after statements store done =
    ((), (ran store).1, done ++ (ran store).2.actions)

/-- The statements of `first_write`. -/
theorem WsHandshake.does_firstWrite (boost : Rfc6455Engine.Boost) (up : WsClass)
    (handshakeFail : η) (incoming : HandShakeData) :
    Does (firstWrite boost up handshakeFail incoming) fun store =>
      (store, Splice.WsHandshake.firstWrite boost up handshakeFail store incoming) := by
  intro store done
  unfold firstWrite Splice.WsHandshake.firstWrite
  cases hparse : Rfc6455Engine.parseRequest (incoming.string store) with
  | mk result p =>
      cases result with
      | false | indeterminate => simp [hparse, Next.actions]
      | true =>
          cases hstatus : (Rfc6455Engine.handleRequest boost p.1.2).status <;>
            simp [hparse, hstatus, Next.actions]

/-- The statements of `do_custom_handshake`. -/
theorem WsHandshake.does_doCustomHandshake (up : WsClass) (handshakeFail : η)
    (incoming : HandShakeData) :
    Does (doCustomHandshake up handshakeFail incoming) fun store =>
      (store, Splice.WsHandshake.doCustomHandshake up handshakeFail store incoming) := by
  intro store done
  unfold doCustomHandshake Splice.WsHandshake.doCustomHandshake
  by_cases htry : up.tryHandshake incoming.tag (incoming.string store) <;>
    simp [htry, Next.actions]

/-- The statements of `on_first_read`. -/
theorem WsHandshake.does_onFirstRead (boost : Rfc6455Engine.Boost) (up : WsClass)
    (handshakeFail : η) (incomingData bytesTransferred : Nat) (error : ErrorCode) :
    Does (onFirstRead boost up handshakeFail incomingData bytesTransferred error) fun store =>
      (store, Splice.WsHandshake.onFirstRead boost up handshakeFail store incomingData
        bytesTransferred error) := by
  intro store done
  unfold onFirstRead Splice.WsHandshake.onFirstRead
  by_cases herror : error = 0
  · by_cases hkey : contains (chars "Sec-WebSocket-Key:")
      (store.front incomingData bytesTransferred)
    · simpa [herror, hkey] using does_firstWrite boost up handshakeFail _ store done
    · simp [herror, hkey, Next.actions]
  · simp [herror, Next.actions]

/-- The statements of `guid_read`. -/
theorem WsHandshake.does_guidRead (up : WsClass) (handshakeFail : η) :
    Does (guidRead up handshakeFail) fun store =>
      Splice.WsHandshake.guidRead up handshakeFail store := by
  intro store done
  simp [guidRead, Splice.WsHandshake.guidRead, Next.actions]

/-- The statements of `on_second_read`. -/
theorem WsHandshake.does_onSecondRead (up : WsClass) (handshakeFail : η)
    (reply : Rfc6455Engine.Reply) (error : ErrorCode) :
    Does (onSecondRead up handshakeFail reply error) fun store =>
      Splice.WsHandshake.onSecondRead up handshakeFail reply store error := by
  intro store done
  unfold onSecondRead Splice.WsHandshake.onSecondRead
  by_cases herror : error = 0
  · cases hstatus : reply.status with
    | switchingProtocols => simpa [herror] using does_guidRead up handshakeFail store done
    | badRequest | internalServerError => simp [herror, Next.actions]
  · simp [herror, Next.actions]

/-- The statements of `on_guid_read`. -/
theorem WsHandshake.does_onGuidRead (host : Endian) (junk : MaskingKey) (up : WsClass)
    (handshakeFail : η) (incomingData : Nat) (frameParser : DataFrameParser.State)
    (error : ErrorCode) (bytesTransferred : Nat) :
    Does (onGuidRead host junk up handshakeFail incomingData frameParser error bytesTransferred)
      fun store =>
        Splice.WsHandshake.onGuidRead host junk up handshakeFail store incomingData frameParser
          error bytesTransferred := by
  intro store done
  unfold onGuidRead Splice.WsHandshake.onGuidRead
  by_cases herror : error = 0
  · cases hparse : DataFrameParser.parse host frameParser (.new junk)
      (store.front incomingData bytesTransferred) with
    | mk result p =>
        cases result with
        | false | indeterminate => simp [herror, hparse, Next.actions]
        | true =>
            cases hopcode : p.1.2.opcode with
            | textFrame =>
                let store' := store.mkIncomingData.2.fill store.mkIncomingData.1 p.1.2.payload
                simpa [herror, hparse, hopcode] using
                  does_doCustomHandshake up handshakeFail
                    ⟨.wsGuid, store.mkIncomingData.1, p.1.2.payload.length⟩ store' done
            | continuationFrame | binaryFrame | connectionClose | ping | pong | reserved =>
                simp [herror, hparse, hopcode, Next.actions]
  · simp [herror, Next.actions]

/-- The statements of `handshake`. -/
theorem WsHandshake.does_handshake (boost : Rfc6455Engine.Boost) (up : WsClass)
    (handshakeFail : η) (incoming : HandShakeData) :
    Does (handshake boost up handshakeFail incoming) fun store =>
      (store, Splice.WsHandshake.handshake boost up handshakeFail store incoming) := by
  intro store done
  unfold handshake Splice.WsHandshake.handshake
  cases htag : incoming.tag with
  | http => exact does_firstWrite boost up handshakeFail incoming store done
  | wsGuid => exact does_doCustomHandshake up handshakeFail incoming store done
  | webSocket | none => simp [Next.actions]

/-- The statements of `on_first_read` of `http_session`. -/
theorem HttpSession.does_onFirstRead (operationAborted : ErrorCode) (site : HttpServer.Site)
    (handshakeFail : η) (incomingData bytesTransferred : Nat) (ec : ErrorCode) :
    Does (onFirstRead operationAborted site handshakeFail incomingData bytesTransferred ec)
      fun store =>
        (store, Splice.HttpSession.onFirstRead operationAborted site handshakeFail store
          incomingData bytesTransferred ec) := by
  intro store done
  unfold onFirstRead Splice.HttpSession.onFirstRead
  by_cases hec : ec = 0
  · by_cases hkey : contains (chars "Sec-WebSocket-Key:")
      (store.front incomingData bytesTransferred)
    · simp [hec, hkey, Next.actions]
    · cases hparse : HttpServer.parseRequest .methodStart .new
        (store.front incomingData bytesTransferred) with
      | mk result p => cases result <;> simp [hec, hkey, hparse, Next.actions]
  · by_cases haborted : ec = operationAborted
    · simp [← haborted, hec, Next.actions]
    · simp [hec, haborted, Next.actions]

/-- The statements of `handshake` of `http_session`. -/
theorem HttpSession.does_handshake (operationAborted : ErrorCode) (site : HttpServer.Site)
    (handshakeFail : η) (incoming : HandShakeData) :
    Does (handshake operationAborted site handshakeFail incoming) fun store =>
      (store, Splice.HttpSession.handshake operationAborted site handshakeFail store incoming) := by
  intro store done
  unfold handshake Splice.HttpSession.handshake
  by_cases htag : incoming.tag = .http
  · simpa [htag] using does_onFirstRead operationAborted site handshakeFail incoming.data
      incoming.size 0 store done
  · simp [htag, Next.actions]

end HandlerStatements

/-! ## Calls of them -/

/-- A call of a handshake handler.  `do_custom_handshake` asserts its tag, as its two callers
have it. -/
inductive HandlerCall (η : Type) where
  | wsOnFirstRead (up : WsClass) (handshakeFail : η) (incomingData bytesTransferred : Nat)
      (error : ErrorCode)
  | wsFirstWrite (up : WsClass) (handshakeFail : η) (incoming : HandShakeData)
  | wsOnSecondRead (up : WsClass) (handshakeFail : η) (reply : Rfc6455Engine.Reply)
      (error : ErrorCode)
  | wsGuidRead (up : WsClass) (handshakeFail : η)
  | wsOnGuidRead (junk : MaskingKey) (up : WsClass) (handshakeFail : η) (incomingData : Nat)
      (frameParser : DataFrameParser.State) (error : ErrorCode) (bytesTransferred : Nat)
  | wsDoCustomHandshake (up : WsClass) (handshakeFail : η) (incoming : HandShakeData)
      (tag : incoming.tag = .wsGuid)
  | wsHandshake (up : WsClass) (handshakeFail : η) (incoming : HandShakeData)
  | httpOnFirstRead (site : HttpServer.Site) (handshakeFail : η)
      (incomingData bytesTransferred : Nat) (ec : ErrorCode)
  | httpHandshake (site : HttpServer.Site) (handshakeFail : η) (incoming : HandShakeData)

namespace HandlerCall

open HandlerStatements (HandlerM Does after)

variable (env : Env) (store : Store)

/-- The body of the handler. -/
def statements : HandlerCall η → HandlerM η Unit
  | wsOnFirstRead up h incomingData size error =>
      HandlerStatements.WsHandshake.onFirstRead env.boost up h incomingData size error
  | wsFirstWrite up h incoming =>
      HandlerStatements.WsHandshake.firstWrite env.boost up h incoming
  | wsOnSecondRead up h reply error =>
      HandlerStatements.WsHandshake.onSecondRead up h reply error
  | wsGuidRead up h => HandlerStatements.WsHandshake.guidRead up h
  | wsOnGuidRead junk up h incomingData frameParser error size =>
      HandlerStatements.WsHandshake.onGuidRead env.host junk up h incomingData frameParser error
        size
  | wsDoCustomHandshake up h incoming _ =>
      HandlerStatements.WsHandshake.doCustomHandshake up h incoming
  | wsHandshake up h incoming => HandlerStatements.WsHandshake.handshake env.boost up h incoming
  | httpOnFirstRead site h incomingData size ec =>
      HandlerStatements.HttpSession.onFirstRead env.operationAborted site h incomingData size ec
  | httpHandshake site h incoming =>
      HandlerStatements.HttpSession.handshake env.operationAborted site h incoming

/-- The function for it. -/
def ran : HandlerCall η → Store × Next η
  | wsOnFirstRead up h incomingData size error =>
      (store, WsHandshake.onFirstRead env.boost up h store incomingData size error)
  | wsFirstWrite up h incoming => (store, WsHandshake.firstWrite env.boost up h store incoming)
  | wsOnSecondRead up h reply error => WsHandshake.onSecondRead up h reply store error
  | wsGuidRead up h => WsHandshake.guidRead up h store
  | wsOnGuidRead junk up h incomingData frameParser error size =>
      WsHandshake.onGuidRead env.host junk up h store incomingData frameParser error size
  | wsDoCustomHandshake up h incoming _ =>
      (store, WsHandshake.doCustomHandshake up h store incoming)
  | wsHandshake up h incoming => (store, WsHandshake.handshake env.boost up h store incoming)
  | httpOnFirstRead site h incomingData size ec =>
      (store, HttpSession.onFirstRead env.operationAborted site h store incomingData size ec)
  | httpHandshake site h incoming =>
      (store, HttpSession.handshake env.operationAborted site h store incoming)

/-- The statements of every call come to what its function says. -/
theorem does (call : HandlerCall η) :
    Does (call.statements env) fun store => call.ran env store := by
  cases call with
  | wsOnFirstRead => exact HandlerStatements.WsHandshake.does_onFirstRead _ _ _ _ _ _
  | wsFirstWrite => exact HandlerStatements.WsHandshake.does_firstWrite _ _ _ _
  | wsOnSecondRead => exact HandlerStatements.WsHandshake.does_onSecondRead _ _ _ _
  | wsGuidRead => exact HandlerStatements.WsHandshake.does_guidRead _ _
  | wsOnGuidRead => exact HandlerStatements.WsHandshake.does_onGuidRead _ _ _ _ _ _ _ _
  | wsDoCustomHandshake => exact HandlerStatements.WsHandshake.does_doCustomHandshake _ _ _
  | wsHandshake => exact HandlerStatements.WsHandshake.does_handshake _ _ _ _
  | httpOnFirstRead => exact HandlerStatements.HttpSession.does_onFirstRead _ _ _ _ _ _
  | httpHandshake => exact HandlerStatements.HttpSession.does_handshake _ _ _ _

/-- What the handler does, in order. -/
def actions (call : HandlerCall η) : List (Action η) :=
  (after (call.statements env) store []).2.2

/-- It is no more and no less than what the function says. -/
theorem actions_eq (call : HandlerCall η) :
    call.actions env store = (call.ran env store).2.actions := by
  simp [actions, does env call store []]

end HandlerCall

end Splice

import Splice.Handshake

/-!
# Splice.HandlerEnds

What each handler of a multi protocol server can end in, and when.  A relation has one
constructor for each way, `*_ends` says that there is no other one, and what is shown of all
handlers is shown by cases of these: their bodies are not opened again.
-/

namespace Splice

variable {η : Type}

/-! ## `ws_handshake` -/

namespace WsHandshake

/-- What `first_write` can end in: the 101 of a request with a key, or a hand-over. -/
inductive FirstWrite (boost : Rfc6455Engine.Boost) (up : WsClass) (h : η) (store : Store)
    (incoming : HandShakeData) : Next η → Prop
  | fails : FirstWrite boost up h store incoming (.handshakeFail h incoming)
  | writes {state req rest} :
      Rfc6455Engine.parseRequest (incoming.string store) = (.true, (state, req), rest) →
      (Rfc6455Engine.handleRequest boost req).status = .switchingProtocols →
      FirstWrite boost up h store incoming
        (.asyncWrite (.upgrade (Rfc6455Engine.handleRequest boost req))
          (.onSecondRead up h (Rfc6455Engine.handleRequest boost req)))

/-- What `do_custom_handshake` can end in. -/
inductive DoCustomHandshake (up : WsClass) (h : η) (store : Store) (incoming : HandShakeData) :
    Next η → Prop
  | fails : up.tryHandshake incoming.tag (incoming.string store) = false →
      DoCustomHandshake up h store incoming (.handshakeFail h incoming)
  | succeeds : up.tryHandshake incoming.tag (incoming.string store) = true →
      DoCustomHandshake up h store incoming (.onHandshakeSuccess .webSocket up.onHandshakeSuccess)

/-- What `on_second_read` can end in. -/
inductive OnSecondRead (up : WsClass) (h : η) (reply : Rfc6455Engine.Reply) (store : Store)
    (error : ErrorCode) : Store × Next η → Prop
  | error : error ≠ 0 → OnSecondRead up h reply store error (store, .stop (.onErrorCode error))
  | badRequest : error = 0 → reply.status ≠ .switchingProtocols →
      OnSecondRead up h reply store error (store, .stop .onBadRequest)
  | reads : error = 0 → reply.status = .switchingProtocols →
      OnSecondRead up h reply store error (guidRead up h store)

end WsHandshake

/-- A complete frame has not been read: `on_guid_read` has to wait for the rest. -/
def AsksForMore (host : Endian) (junk : MaskingKey) (frameParser : DataFrameParser.State)
    (error : ErrorCode) (incoming : List UInt8) : Prop :=
  error = 0 ∧ (DataFrameParser.parse host frameParser (.new junk) incoming).1 = .indeterminate

namespace WsHandshake

/-- What `on_guid_read` can end in, of the bytes `incoming`. -/
inductive OnGuidRead (host : Endian) (junk : MaskingKey) (up : WsClass) (h : η) (store : Store)
    (frameParser : DataFrameParser.State) (error : ErrorCode) (incoming : List UInt8) :
    Store × Next η → Prop
  | error : error ≠ 0 →
      OnGuidRead host junk up h store frameParser error incoming
        (store, .stop (.onErrorCode error))
  | invalid : ¬ AsksForMore host junk frameParser error incoming →
      OnGuidRead host junk up h store frameParser error incoming (store, .stop (.onError ""))
  | nothing : AsksForMore host junk frameParser error incoming →
      OnGuidRead host junk up h store frameParser error incoming (store, .stop .nothingPending)
  | guid {store' data next} : ¬ AsksForMore host junk frameParser error incoming →
      data.tag = .wsGuid → DoCustomHandshake up h store' data next →
      OnGuidRead host junk up h store frameParser error incoming (store', next)

variable {boost : Rfc6455Engine.Boost} {up : WsClass} {h : η} {store : Store}
  {incoming : HandShakeData} {error : ErrorCode}

/-- These are all the ways in which `first_write` ends. -/
theorem firstWrite_ends :
    FirstWrite boost up h store incoming (firstWrite boost up h store incoming) := by
  unfold firstWrite
  split
  · next hparse =>
      dsimp only
      split
      · exact .fails
      · exact .fails
      · next hstatus => exact .writes hparse hstatus
  · exact .fails
  · exact .fails

/-- These are all the ways in which `do_custom_handshake` ends. -/
theorem doCustomHandshake_ends :
    DoCustomHandshake up h store incoming (doCustomHandshake up h store incoming) := by
  unfold doCustomHandshake
  split
  · next hrefuses => exact .fails (by simpa using hrefuses)
  · next htakes => exact .succeeds (by simpa using htakes)

/-- These are all the ways in which `on_second_read` ends. -/
theorem onSecondRead_ends {reply : Rfc6455Engine.Reply} :
    OnSecondRead up h reply store error (onSecondRead up h reply store error) := by
  unfold onSecondRead
  split
  · next herror => exact .error herror
  · next hgood =>
      have hzero : error = 0 := by simpa using hgood
      split
      · next hstatus => exact .reads hzero hstatus
      · next hstatus => exact .badRequest hzero (by simp [hstatus])
      · next hstatus => exact .badRequest hzero (by simp [hstatus])

/-- These are all the ways in which `on_guid_read` ends. -/
theorem onGuidRead_ends {host : Endian} {junk : MaskingKey} {incomingData bytesTransferred : Nat}
    {frameParser : DataFrameParser.State} :
    OnGuidRead host junk up h store frameParser error (store.front incomingData bytesTransferred)
      (onGuidRead host junk up h store incomingData frameParser error bytesTransferred) := by
  unfold onGuidRead
  split
  · next herror => exact .error herror
  · next hgood =>
      have hzero : error = 0 := by simpa using hgood
      split
      · next hparse => exact .invalid (by simp [AsksForMore, hparse])
      · next hparse => exact .nothing ⟨hzero, by rw [hparse]⟩
      · next hparse =>
          have hwhole : ¬ AsksForMore host junk frameParser error
              (store.front incomingData bytesTransferred) := by simp [AsksForMore, hparse]
          split
          · exact .guid hwhole rfl doCustomHandshake_ends
          all_goals exact .invalid hwhole

end WsHandshake

/-! ## All sessions -/

namespace Session

/-- The session has the `on_first_read` of `tcp_session`, which does nothing. -/
def InheritsOnFirstRead : Session → Prop
  | tcp _ | serialization _ => True
  | ws _ | http _ => False

/-- What `on_first_read` can end in. -/
inductive OnFirstRead (env : Env) (h : η) (store : Store) (incomingData bytesTransferred : Nat)
    (error : ErrorCode) : Session → Next η → Prop
  | error {session} : error ≠ 0 → (∀ site, session = .http site → error ≠ env.operationAborted) →
      OnFirstRead env h store incomingData bytesTransferred error session
        (.stop (.onErrorCode error))
  | aborted {site} : error ≠ 0 → error = env.operationAborted →
      OnFirstRead env h store incomingData bytesTransferred error (.http site)
        (.stop .nothingPending)
  | nothing {session} : error = 0 → session.InheritsOnFirstRead →
      OnFirstRead env h store incomingData bytesTransferred error session (.stop .nothingPending)
  | passes {session} : error = 0 → ¬ session.InheritsOnFirstRead →
      OnFirstRead env h store incomingData bytesTransferred error session
        (.handshakeFail h ⟨.http, incomingData, bytesTransferred⟩)
  | firstWrite {up next} : error = 0 →
      WsHandshake.FirstWrite env.boost up h store ⟨.none, incomingData, bytesTransferred⟩ next →
      OnFirstRead env h store incomingData bytesTransferred error (.ws up) next
  | answers {site state req rest} : error = 0 →
      HttpServer.parseRequest .methodStart .new (store.front incomingData bytesTransferred) =
        (.true, (state, req), rest) →
      OnFirstRead env h store incomingData bytesTransferred error (.http site)
        (.asyncWrite (.http (HttpServer.handleRequest site req)) .handleWrite)
  | reads {site state req rest} : error = 0 →
      HttpServer.parseRequest .methodStart .new (store.front incomingData bytesTransferred) =
        (.indeterminate, (state, req), rest) →
      OnFirstRead env h store incomingData bytesTransferred error (.http site)
        (.asyncReadSome incomingData (.handleRead site state req))

/-- What `handshake` can end in. -/
inductive Handshake (env : Env) (h : η) (store : Store) (incoming : HandShakeData) :
    Session → Next η → Prop
  | passes {session} :
      session.acceptsUnframed incoming.tag (incoming.string store) = false →
      Handshake env h store incoming session (.handshakeFail h incoming)
  | firstWrite {up next} : incoming.tag = .http →
      WsHandshake.FirstWrite env.boost up h store incoming next →
      Handshake env h store incoming (.ws up) next
  | doCustomHandshake {up next} : incoming.tag = .wsGuid →
      WsHandshake.DoCustomHandshake up h store incoming next →
      Handshake env h store incoming (.ws up) next
  | onFirstRead {site next} : incoming.tag = .http →
      OnFirstRead env h store incoming.data incoming.size 0 (.http site) next →
      Handshake env h store incoming (.http site) next
  | succeeds {session kind} :
      session.acceptsUnframed incoming.tag (incoming.string store) = true → kind ≠ .webSocket →
      Handshake env h store incoming session (.onHandshakeSuccess kind [])

variable {env : Env} {session : Session} {h : η} {store : Store} {incoming : HandShakeData}
  {incomingData bytesTransferred : Nat} {error : ErrorCode}

/-- The ways in which `on_first_read` of `http_session` ends. -/
theorem onFirstRead_ends_http (site : HttpServer.Site) :
    OnFirstRead env h store incomingData bytesTransferred error (.http site)
      (HttpSession.onFirstRead env.operationAborted site h store incomingData bytesTransferred
        error) := by
  unfold HttpSession.onFirstRead
  split
  · next herror =>
      split
      · next hother => exact .error herror fun _ _ => hother
      · next haborted => exact .aborted herror (by simpa using haborted)
  · next hgood =>
      have hzero : error = 0 := by simpa using hgood
      dsimp only
      split
      · exact .passes hzero not_false
      · split
        · next hparse => exact .answers hzero hparse
        · exact .passes hzero not_false
        · next hparse => exact .reads hzero hparse

/-- The ways in which `on_first_read` of `ws_handshake` ends. -/
theorem onFirstRead_ends_ws (env : Env) (up : WsClass) :
    OnFirstRead env h store incomingData bytesTransferred error (.ws up)
      (WsHandshake.onFirstRead env.boost up h store incomingData bytesTransferred error) := by
  unfold WsHandshake.onFirstRead
  split
  · next herror => exact .error herror (by simp)
  · next hgood =>
      have hzero : error = 0 := by simpa using hgood
      split
      · exact .firstWrite hzero WsHandshake.firstWrite_ends
      · exact .passes hzero not_false

/-- These are all the ways in which an `on_first_read` ends. -/
theorem onFirstRead_ends :
    OnFirstRead env h store incomingData bytesTransferred error session
      (session.onFirstRead env h store incomingData bytesTransferred error) := by
  cases session with
  | ws up => exact onFirstRead_ends_ws env up
  | http site => exact onFirstRead_ends_http site
  | tcp tryHandshake | serialization tryHandshake =>
      simp only [Session.onFirstRead, TcpSession.onFirstRead]
      split
      · next herror => exact .error herror (by simp)
      · next hgood => exact .nothing (by simpa using hgood) trivial

/-- The ways in which `handshake` of `ws_handshake` ends. -/
theorem handshake_ends_ws (env : Env) (up : WsClass) :
    Handshake env h store incoming (.ws up)
      (WsHandshake.handshake env.boost up h store incoming) := by
  unfold WsHandshake.handshake
  split
  · next htag => exact .firstWrite htag WsHandshake.firstWrite_ends
  · next htag => exact .doCustomHandshake htag WsHandshake.doCustomHandshake_ends
  · exact .passes rfl
  · exact .passes rfl

/-- The ways in which `handshake` of `http_session` ends. -/
theorem handshake_ends_http (site : HttpServer.Site) :
    Handshake env h store incoming (.http site)
      (HttpSession.handshake env.operationAborted site h store incoming) := by
  unfold HttpSession.handshake
  split
  · exact .passes rfl
  · next htag => exact .onFirstRead (by simpa using htag) (onFirstRead_ends_http site)

/-- These are all the ways in which a `handshake` ends. -/
theorem handshake_ends :
    Handshake env h store incoming session (session.handshake env h store incoming) := by
  cases session with
  | ws up => exact handshake_ends_ws env up
  | http site => exact handshake_ends_http site
  | tcp tryHandshake | serialization tryHandshake =>
      simp only [Session.handshake, TcpSession.handshake]
      split
      · next htakes => exact .succeeds htakes (by simp)
      · next hrefuses => exact .passes (by simpa [acceptsUnframed] using hrefuses)

end Session

/-! ## `http_session` -/

namespace HttpSession

/-- What `handle_read` can end in. -/
inductive HandleRead (operationAborted : ErrorCode) (site : HttpServer.Site)
    (requestParser : RequestParser.State) (request : Request) (store : Store) (buffer : Nat)
    (e : ErrorCode) (bytesTransferred : Nat) : Next η → Prop
  | answers {state req rest} : e = 0 →
      HttpServer.parseRequest requestParser request (store.front buffer bytesTransferred) =
        (.true, (state, req), rest) →
      HandleRead operationAborted site requestParser request store buffer e bytesTransferred
        (.asyncWrite (.http (HttpServer.handleRequest site req)) .handleWrite)
  | badRequest : e = 0 →
      HandleRead operationAborted site requestParser request store buffer e bytesTransferred
        (.asyncWrite (.http (.stockReply .badRequest)) .handleWrite)
  | reads {state req rest} : e = 0 →
      HttpServer.parseRequest requestParser request (store.front buffer bytesTransferred) =
        (.indeterminate, (state, req), rest) →
      HandleRead operationAborted site requestParser request store buffer e bytesTransferred
        (.asyncReadSome buffer (.handleRead site state req))
  | closes : e ≠ 0 → e ≠ operationAborted →
      HandleRead operationAborted site requestParser request store buffer e bytesTransferred
        (.stop .close)
  | aborted : e ≠ 0 → e = operationAborted →
      HandleRead operationAborted site requestParser request store buffer e bytesTransferred
        (.stop .nothingPending)

/-- What `handle_write` can end in. -/
inductive HandleWrite (operationAborted e : ErrorCode) : Next η → Prop
  | closes : e ≠ operationAborted → HandleWrite operationAborted e (.stop .close)
  | aborted : e = operationAborted → HandleWrite operationAborted e (.stop .nothingPending)

variable {operationAborted e : ErrorCode}

/-- These are all the ways in which `handle_read` ends. -/
theorem handleRead_ends {site : HttpServer.Site} {requestParser : RequestParser.State}
    {request : Request} {store : Store} {buffer bytesTransferred : Nat} :
    HandleRead (η := η) operationAborted site requestParser request store buffer e bytesTransferred
      (handleRead operationAborted site requestParser request store buffer e
        bytesTransferred) := by
  unfold handleRead
  split
  · next hzero =>
      split
      · next hparse => exact .answers hzero hparse
      · exact .badRequest hzero
      · next hparse => exact .reads hzero hparse
  · next herror =>
      split
      · next hother => exact .closes herror hother
      · next haborted => exact .aborted herror (by simpa using haborted)

/-- These are all the ways in which `handle_write` ends. -/
theorem handleWrite_ends :
    HandleWrite (η := η) operationAborted e (handleWrite operationAborted e) := by
  unfold handleWrite
  split
  · next hother => exact .closes hother
  · next haborted => exact .aborted (by simpa using haborted)

end HttpSession

end Splice

import Splice.DeadEnd
import Splice.EchoServer
import Splice.MonoProtocol
import Splice.Serialization

/-!
# Splice.SocketLifetime

The socket of one session, from the moment the session holds it open to its destruction:
who closes it, and whether `on_shutdown` hears of it.

`tcp_session::shutdown` is the only function that tells, and all error paths but those of
`http_session` go through it: its `handle_read` and `handle_write` close the socket
themselves.  `Label`s are the calls that a session can get from outside, in any order; what
the functions of a derived class call while a handler runs comes before whatever the handler
itself does to the socket, and is a step of its own.
-/

namespace Splice

open Transition

/-- What has become of the socket; `is_open` holds of the first. -/
inductive SocketStatus where
  | opened
  | closed
  | movedOn
  deriving DecidableEq, Repr

/-- What is done to the socket and said of it. -/
inductive SocketEvent where
  | close
  | onShutdown
  | move
  deriving DecidableEq, Repr

/-- A session, as far as its socket goes. -/
structure SessionSocket where
  socket : SocketStatus
  log : List SocketEvent
  destroyed : Bool
  deriving DecidableEq, Repr

/-- What a function of a session calls on its own session, as far as the socket goes;
`handshakeFail` with the index bound to the handler. -/
inductive SocketCall where
  | onError (msg : String)
  | onErrorCode (error : ErrorCode)
  | onBadRequest
  | close
  | handshakeFail (protocolIndex : UInt32)
  deriving DecidableEq, Repr

namespace SessionSocket

/-- A session that holds an open socket. -/
def holding : SessionSocket := ⟨.opened, [], false⟩

/-! ## `tcp_session` -/

def shutdown (s : SessionSocket) : SessionSocket :=
  if s.socket ≠ .opened then s
  else { s with socket := .closed, log := s.log ++ [.close, .onShutdown] }

def onError (s : SessionSocket) (_msg : String) : SessionSocket := s.shutdown

def onErrorCode (s : SessionSocket) (_error : ErrorCode) : SessionSocket := s.shutdown

/-- `ws_handshake::on_bad_request`. -/
def onBadRequest (s : SessionSocket) : SessionSocket := s.shutdown

/-- `get_socket().close()`. -/
def close (s : SessionSocket) : SessionSocket :=
  if s.socket ≠ .opened then s else { s with socket := .closed, log := s.log ++ [.close] }

/-- The next session is constructed with `std::move(socket)`. -/
def move (s : SessionSocket) : SessionSocket :=
  if s.socket ≠ .opened then s else { s with socket := .movedOn, log := s.log ++ [.move] }

/-- The call of a handshake_fail handler: without a next session the socket stays. -/
def handshakeFail (server : Server) (s : SessionSocket) (protocolIndex : UInt32) : SessionSocket :=
  match onHandshakeFail protocolIndex with
  | none => s
  | some protocolIndex =>
      match server.doNextHandshake protocolIndex with
      | none => s
      | some _ => s.move

/-- `~tcp_session`. -/
def destroy (s : SessionSocket) : SessionSocket := { s.shutdown with destroyed := true }

/-- One call. -/
def perform (server : Server) (s : SessionSocket) : SocketCall → SessionSocket
  | .onError msg => s.onError msg
  | .onErrorCode error => s.onErrorCode error
  | .onBadRequest => s.onBadRequest
  | .close => s.close
  | .handshakeFail protocolIndex => s.handshakeFail server protocolIndex

end SessionSocket

/-! ## Handlers -/

/-- What the end of a handler means for the socket. -/
def Ending.socketCalls : Ending → List SocketCall
  | .onError msg => [.onError msg]
  | .onErrorCode error => [.onErrorCode error]
  | .onBadRequest => [.onBadRequest]
  | .close => [.close]
  | .unableToConnect | .assertionFailed | .nothingPending => []

def WsSession.Call.socketCalls : WsSession.Call → List SocketCall
  | .onError msg => [.onError msg]
  | .onErrorCode error => [.onErrorCode error]
  | .onRead _ | .asyncReadSome _ => []

def Serialization.Call.socketCalls {μ : Type} : Serialization.Call μ → List SocketCall
  | .onErrorCode error => [.onErrorCode error]
  | .onRead _ | .onReadStruct _ | .onErrorExEc _ | .assertFailed _ | .lengthError
  | .asyncReadSome _ _ => []

def Next.socketCalls : Next UInt32 → List SocketCall
  | .handshakeFail handler _ => [.handshakeFail handler]
  | .asyncReadSome _ _ | .asyncWrite _ _ => []
  | .onHandshakeSuccess _ calls => calls.flatMap WsSession.Call.socketCalls
  | .stop ending => ending.socketCalls

def MonoProtocol.Next.socketCalls : MonoProtocol.Next → List SocketCall
  | .asyncReadSome _ _ | .asyncWrite _ | .onHandshakeSuccess => []
  | .stop ending => ending.socketCalls

/-- A completion handler that only reports an error. -/
def reportError (error : ErrorCode) : List SocketCall :=
  if error ≠ 0 then [.onErrorCode error] else []

/-- `tcp_session::on_async_read_string`, up to `on_read_string` of the derived class. -/
def TcpSession.onAsyncReadString (error : ErrorCode) : List SocketCall := reportError error

/-- `tcp_session::on_write`. -/
def TcpSession.onWrite (error : ErrorCode) : List SocketCall := reportError error

/-- `serialization_session::on_write`, through `on_write_msg`. -/
def SerializationSession.onWrite (ec : ErrorCode) : List SocketCall := reportError ec

/-- `serialization_session::handle_read`. -/
def SerializationSession.handleRead (error : ErrorCode) : List SocketCall := reportError error

/-- `serialization_engine::on_write_struct`. -/
def SerializationEngine.onWriteStruct (ec : ErrorCode) : List SocketCall := reportError ec

/-- `serialization_engine::handle_read`. -/
def SerializationEngine.handleRead (error : ErrorCode) : List SocketCall := reportError error

/-- `ws_session::on_write_dataframe`: another report, without the error. -/
def WsSession.onWriteDataframe (error : ErrorCode) : List SocketCall :=
  if error ≠ 0 then [.onError ""] else []

/-- The class of a session. -/
def Session.kind : Session → Kind
  | .ws _ => .webSocket
  | .http _ => .http
  | .tcp _ => .tcp
  | .serialization _ => .serialization

/-- Handlers of the session classes, with what they are called with: the handshakes that a
multi protocol server begins, the completions of reads and writes. -/
inductive SessionHandler where
  | handshake (session : Session) (handshakeFail : UInt32) (store : Store)
      (incoming : HandShakeData)
  | read (handler : ReadHandler UInt32) (store : Store) (incomingData : Nat) (junk : MaskingKey)
      (error : ErrorCode) (bytesTransferred : Nat)
  | write (handler : WriteHandler UInt32) (store : Store) (error : ErrorCode)
  | monoFirstRead (store : Store) (incomingData bytesTransferred : Nat) (error : ErrorCode)
  | monoSecondRead (reply : Rfc6455Engine.Reply) (error : ErrorCode)
  | onWriteDataframe (error : ErrorCode)
  | onAsyncReadString (error : ErrorCode)
  | onWrite (error : ErrorCode)
  | messageRead (receiver : Serialization.Receiver) (handler : Serialization.Handler)
      (inbound : List UInt8) (ec : ErrorCode) (bytesTransferred : Nat)
  | messageWritten (receiver : Serialization.Receiver) (ec : ErrorCode)
  | messageHandled (receiver : Serialization.Receiver) (error : ErrorCode)

namespace SessionHandler

variable {μ : Type}

/-- What a read handler calls. -/
def readCalls (env : Env) (store : Store) (incomingData : Nat) (junk : MaskingKey)
    (error : ErrorCode) (bytesTransferred : Nat) : ReadHandler UInt32 → List SocketCall
  | .onFirstRead session handshakeFail =>
      (session.onFirstRead env handshakeFail store incomingData bytesTransferred error).socketCalls
  | .onGuidRead up handshakeFail frameParser =>
      (WsHandshake.onGuidRead env.host junk up handshakeFail store incomingData frameParser error
        bytesTransferred).2.socketCalls
  | .handleRead site requestParser request =>
      (HttpSession.handleRead (η := UInt32) env.operationAborted site requestParser request store
        incomingData error bytesTransferred).socketCalls
  | .onReadDataframe frameParser =>
      (WsSession.onReadDataframe env.host junk frameParser error
        (store.front incomingData bytesTransferred)).flatMap WsSession.Call.socketCalls

/-- What a write handler calls. -/
def writeCalls (env : Env) (store : Store) (error : ErrorCode) :
    WriteHandler UInt32 → List SocketCall
  | .onSecondRead up handshakeFail reply =>
      (WsHandshake.onSecondRead up handshakeFail reply store error).2.socketCalls
  | .handleWrite =>
      (HttpSession.handleWrite (η := UInt32) env.operationAborted error).socketCalls

/-- What a handler calls. -/
def socketCalls (env : Env) (unarchive : List UInt8 → Option μ) :
    SessionHandler → List SocketCall
  | handshake session handshakeFail store incoming =>
      (session.handshake env handshakeFail store incoming).socketCalls
  | read handler store incomingData junk error bytesTransferred =>
      readCalls env store incomingData junk error bytesTransferred handler
  | write handler store error => writeCalls env store error handler
  | monoFirstRead store incomingData bytesTransferred error =>
      (MonoProtocol.onFirstRead env.boost store incomingData bytesTransferred error).socketCalls
  | monoSecondRead reply error => (MonoProtocol.onSecondRead reply error).socketCalls
  | onWriteDataframe error => WsSession.onWriteDataframe error
  | onAsyncReadString error => TcpSession.onAsyncReadString error
  | onWrite error => TcpSession.onWrite error
  | messageRead receiver handler inbound ec bytesTransferred =>
      (receiver.handle unarchive handler inbound ec bytesTransferred).flatMap
        Serialization.Call.socketCalls
  | messageWritten .session ec => SerializationSession.onWrite ec
  | messageWritten .engine ec => SerializationEngine.onWriteStruct ec
  | messageHandled .session error => SerializationSession.handleRead error
  | messageHandled .engine error => SerializationEngine.handleRead error

/-- The class that a handler belongs to; none if it is one of `tcp_session`, which they all
have. -/
def kind : SessionHandler → Option Kind
  | handshake session _ _ _ | read (.onFirstRead session _) _ _ _ _ _ => some session.kind
  | read (.handleRead _ _ _) _ _ _ _ _ | write .handleWrite _ _ => some .http
  | read (.onGuidRead _ _ _) _ _ _ _ _ | read (.onReadDataframe _) _ _ _ _ _
  | write (.onSecondRead _ _ _) _ _ | monoFirstRead _ _ _ _ | monoSecondRead _ _
  | onWriteDataframe _ => some .webSocket
  | messageRead _ _ _ _ _ | messageWritten _ _ | messageHandled _ _ => some .serialization
  | onAsyncReadString _ | onWrite _ => none

end SessionHandler

/-! ## Runs -/

/-- What a session gets. -/
inductive SessionSocket.Label where
  | onError (msg : String)
  | onErrorCode (error : ErrorCode)
  | shutdown
  | handler (handler : SessionHandler)
  | destroy

namespace SessionSocket

variable {μ : Type}

/-- One step of a session of a class. -/
def step (server : Server) (env : Env) (unarchive : List UInt8 → Option μ) (kind : Kind)
    (s : SessionSocket) (label : Label) : Option SessionSocket :=
  if s.destroyed then none
  else
    match label with
    | .onError msg => some (s.onError msg)
    | .onErrorCode error => some (s.onErrorCode error)
    | .shutdown => some s.shutdown
    | .handler handler =>
        if handler.kind.all (· = kind) then
          some ((handler.socketCalls env unarchive).foldl (perform server) s)
        else none
    | .destroy => some s.destroy

/-- The runs of a session whose steps all satisfy `guard`. -/
abbrev Run (server : Server) (env : Env) (unarchive : List UInt8 → Option μ) (kind : Kind)
    (guard : SessionSocket → Label → Prop) : List Label → SessionSocket → Prop :=
  Reaches (fun s label s' => s.step server env unarchive kind label = some s') guard holding

/-- `on_shutdown` is called once, when the socket is closed, and not else; and no open
socket is left behind. -/
structure ShutsDownOnce (s : SessionSocket) : Prop where
  once : s.socket = .closed → s.log = [.close, .onShutdown]
  never : s.socket ≠ .closed → .onShutdown ∉ s.log
  ended : s.destroyed → s.socket ≠ .opened

/-- The completions on which `http_session` closes the socket itself. -/
def closesItself (env : Env) : SessionHandler → Bool
  | .read (.handleRead _ _ _) _ _ _ e _ => e ≠ 0 && e ≠ env.operationAborted
  | .write .handleWrite _ e => e ≠ env.operationAborted
  | _ => false

/-- A step that is not such a completion, or one that finds the socket not open any more. -/
def Notifies (env : Env) (s : SessionSocket) : Label → Prop
  | .handler handler => s.socket = .opened → ¬ closesItself env handler
  | .onError _ | .onErrorCode _ | .shutdown | .destroy => True

end SessionSocket

/-! ## Who closes the socket -/

theorem Ending.close_mem_socketCalls {ending : Ending} :
    .close ∈ ending.socketCalls ↔ ending = .close := by
  cases ending <;> simp [Ending.socketCalls]

/-- The calls of a `ws_session` close nothing. -/
theorem WsSession.close_notMem_socketCalls (calls : List WsSession.Call) :
    .close ∉ calls.flatMap WsSession.Call.socketCalls := by
  intro h
  obtain ⟨call, -, hcall⟩ := List.mem_flatMap.mp h
  cases call <;> simp [WsSession.Call.socketCalls] at hcall

/-- The calls of a serialization session close nothing. -/
theorem Serialization.close_notMem_socketCalls {μ : Type} (calls : List (Serialization.Call μ)) :
    .close ∉ calls.flatMap Serialization.Call.socketCalls := by
  intro h
  obtain ⟨call, -, hcall⟩ := List.mem_flatMap.mp h
  cases call <;> simp [Serialization.Call.socketCalls] at hcall

/-- A handler closes the socket exactly if that is how it ends. -/
theorem Next.close_mem_socketCalls {next : Next UInt32} :
    .close ∈ next.socketCalls ↔ next = .stop .close := by
  cases next with
  | onHandshakeSuccess kind calls =>
      simpa [Next.socketCalls] using WsSession.close_notMem_socketCalls calls
  | stop ending => simp [Next.socketCalls, Ending.close_mem_socketCalls]
  | _ => simp [Next.socketCalls]

/-- The same holds of a mono protocol server. -/
theorem MonoProtocol.close_mem_socketCalls {next : MonoProtocol.Next} :
    .close ∈ next.socketCalls ↔ next = .stop .close := by
  cases next with
  | stop ending => simp [MonoProtocol.Next.socketCalls, Ending.close_mem_socketCalls]
  | _ => simp [MonoProtocol.Next.socketCalls]

theorem close_notMem_reportError (error : ErrorCode) : .close ∉ reportError error := by
  unfold reportError
  split <;> simp

/-- A handshake handler that does one thing of its own closes nothing. -/
theorem Next.Acts.ne_close {next : Next UInt32} (hacts : next.Acts) : next ≠ .stop .close := by
  rintro rfl
  obtain ⟨action, haction⟩ := hacts.one
  simp [Next.actions] at haction

section Ends

variable {env : Env} {session : Session} {h : UInt32} {store : Store} {next : Next UInt32}
  {bytesTransferred : Nat} {error : ErrorCode}

/-- A first read closes nothing. -/
theorem Session.OnFirstRead.ne_close {incomingData : Nat}
    (hends : OnFirstRead env h store incomingData bytesTransferred error session next) :
    next ≠ .stop .close := by
  cases hends with
  | firstWrite _ hwrite => exact hwrite.acts.ne_close
  | _ => simp

/-- A GUID read closes nothing. -/
theorem WsHandshake.OnGuidRead.ne_close {host : Endian} {junk : MaskingKey} {up : WsClass}
    {frameParser : DataFrameParser.State} {bytes : List UInt8} {ran : Store × Next UInt32}
    (hends : OnGuidRead host junk up h store frameParser error bytes ran) :
    ran.2 ≠ .stop .close := by
  cases hends with
  | error | invalid | nothing => simp
  | guid _ _ hcustom => exact hcustom.acts.ne_close

/-- `handle_read` closes exactly behind an error that is not its own. -/
theorem HttpSession.HandleRead.eq_close_iff {operationAborted : ErrorCode}
    {site : HttpServer.Site} {requestParser : RequestParser.State} {request : Request}
    {buffer : Nat}
    (hends : HandleRead operationAborted site requestParser request store buffer error
      bytesTransferred next) :
    next = .stop .close ↔ error ≠ 0 ∧ error ≠ operationAborted := by
  cases hends with
  | answers hzero | badRequest hzero | reads hzero => simp [hzero]
  | closes hne hother => simp [hne, hother]
  | aborted _ haborted => simp [haborted]

/-- `handle_write` closes unless it has been aborted. -/
theorem HttpSession.HandleWrite.eq_close_iff {operationAborted : ErrorCode}
    (hends : HandleWrite operationAborted error next) :
    next = .stop .close ↔ error ≠ operationAborted := by
  cases hends with
  | closes hother => simp [hother]
  | aborted haborted => simp [haborted]

end Ends

namespace MonoProtocol

/-- `on_first_read` closes nothing. -/
theorem OnFirstRead.ne_close {error : ErrorCode} {next : MonoProtocol.Next}
    (hends : OnFirstRead error next) : next ≠ .stop .close := by
  cases hends <;> simp

/-- `on_second_read` closes nothing. -/
theorem OnSecondRead.ne_close {reply : Rfc6455Engine.Reply} {error : ErrorCode}
    {next : MonoProtocol.Next} (hends : OnSecondRead reply error next) :
    next ≠ .stop .close := by
  cases hends <;> simp

end MonoProtocol

namespace SessionSocket

open SessionHandler

variable {μ : Type} {server : Server} {env : Env} {unarchive : List UInt8 → Option μ}
  {s s' : SessionSocket}

/-- A handler that closes the socket itself does nothing else to it. -/
theorem socketCalls_of_closesItself {handler : SessionHandler} (h : closesItself env handler) :
    handler.socketCalls env unarchive = [.close] := by
  cases handler with
  | read handler store incomingData junk error bytesTransferred =>
      cases handler with
      | handleRead site requestParser request =>
          have herror : error ≠ 0 ∧ error ≠ env.operationAborted := by
            simpa [closesItself] using h
          rw [socketCalls, readCalls, HttpSession.handleRead_ends.eq_close_iff.mpr herror]
          rfl
      | _ => simp [closesItself] at h
  | write handler store error =>
      cases handler with
      | handleWrite =>
          have herror : error ≠ env.operationAborted := by simpa [closesItself] using h
          rw [socketCalls, writeCalls, HttpSession.handleWrite_ends.eq_close_iff.mpr herror]
          rfl
      | _ => simp [closesItself] at h
  | _ => simp [closesItself] at h

/-- No other handler closes it. -/
theorem close_notMem_of_not_closesItself {handler : SessionHandler}
    (h : ¬ closesItself env handler) : .close ∉ handler.socketCalls env unarchive := by
  cases handler with
  | handshake session handshakeFail store incoming =>
      rw [socketCalls, Next.close_mem_socketCalls]
      exact Session.handshake_ends.acts.ne_close
  | read handler store incomingData junk error bytesTransferred =>
      cases handler with
      | onFirstRead session handshakeFail =>
          rw [socketCalls, readCalls, Next.close_mem_socketCalls]
          exact Session.onFirstRead_ends.ne_close
      | onGuidRead up handshakeFail frameParser =>
          rw [socketCalls, readCalls, Next.close_mem_socketCalls]
          exact WsHandshake.onGuidRead_ends.ne_close
      | onReadDataframe frameParser => exact WsSession.close_notMem_socketCalls _
      | handleRead site requestParser request =>
          rw [socketCalls, readCalls, Next.close_mem_socketCalls,
            HttpSession.handleRead_ends.eq_close_iff]
          simpa [closesItself] using h
  | write handler store error =>
      cases handler with
      | onSecondRead up handshakeFail reply =>
          rw [socketCalls, writeCalls, Next.close_mem_socketCalls]
          exact WsHandshake.onSecondRead_ends.acts.ne_close
      | handleWrite =>
          rw [socketCalls, writeCalls, Next.close_mem_socketCalls,
            HttpSession.handleWrite_ends.eq_close_iff]
          simpa [closesItself] using h
  | monoFirstRead store incomingData bytesTransferred error =>
      rw [socketCalls, MonoProtocol.close_mem_socketCalls]
      exact MonoProtocol.onFirstRead_ends.ne_close
  | monoSecondRead reply error =>
      rw [socketCalls, MonoProtocol.close_mem_socketCalls]
      exact MonoProtocol.onSecondRead_ends.ne_close
  | onWriteDataframe error =>
      rw [socketCalls, WsSession.onWriteDataframe]
      split <;> simp
  | onAsyncReadString error | onWrite error => exact close_notMem_reportError error
  | messageRead receiver handler inbound ec bytesTransferred =>
      exact Serialization.close_notMem_socketCalls _
  | messageWritten receiver ec => cases receiver <;> exact close_notMem_reportError ec
  | messageHandled receiver error => cases receiver <;> exact close_notMem_reportError error

/-! ## One call -/

/-- What the log says of a socket, if `on_shutdown` heard of its end. -/
def told : SocketStatus → List SocketEvent
  | .opened => []
  | .closed => [.close, .onShutdown]
  | .movedOn => [.move]

/-- The invariant: the log says so, or the socket was closed and nobody was told. -/
structure Accounted (s : SessionSocket) : Prop where
  log : s.log = told s.socket ∨ s.socket = .closed ∧ s.log = [.close]
  ended : s.destroyed → s.socket ≠ .opened

/-- `on_shutdown` has been called as it should exactly if the log is what the socket's state
tells. -/
theorem shutsDownOnce_iff_told (h : s.Accounted) : s.ShutsDownOnce ↔ s.log = told s.socket := by
  constructor
  · rintro hs
    refine h.log.resolve_right ?_
    rintro ⟨hclosed, hlog⟩
    simp [hs.once hclosed] at hlog
  · intro hlog
    refine ⟨fun hclosed => by rw [hlog, hclosed, told], fun hne => ?_, h.ended⟩
    rw [hlog]
    cases hsocket : s.socket <;> simp_all [told]

@[simp] theorem destroyed_shutdown (s : SessionSocket) : s.shutdown.destroyed = s.destroyed := by
  unfold shutdown
  split <;> rfl

@[simp] theorem destroyed_close (s : SessionSocket) : s.close.destroyed = s.destroyed := by
  unfold close
  split <;> rfl

@[simp] theorem destroyed_move (s : SessionSocket) : s.move.destroyed = s.destroyed := by
  unfold move
  split <;> rfl

/-- A call on the socket destroys no session. -/
theorem destroyed_perform (s : SessionSocket) (call : SocketCall) :
    (s.perform server call).destroyed = s.destroyed := by
  cases call with
  | handshakeFail protocolIndex =>
      simp only [perform, handshakeFail]
      split
      · rfl
      · split <;> simp
  | _ => simp [perform, onError, onErrorCode, onBadRequest]

/-- Several calls destroy none. -/
theorem destroyed_foldl_perform (s : SessionSocket) (calls : List SocketCall) :
    (calls.foldl (perform server) s).destroyed = s.destroyed := by
  induction calls generalizing s with
  | nil => rfl
  | cons call calls ih => rw [List.foldl_cons, ih, destroyed_perform]

/-- Nothing happens to a socket that is not open. -/
theorem perform_of_ne (h : s.socket ≠ .opened) (call : SocketCall) :
    s.perform server call = s := by
  cases call with
  | handshakeFail protocolIndex =>
      simp only [perform, handshakeFail, move, h, ne_eq, not_false_eq_true, if_true]
      split
      · rfl
      · split <;> rfl
  | _ => simp [perform, onError, onErrorCode, onBadRequest, shutdown, close, h]

/-- On a socket that is not open any more, calls do nothing. -/
theorem foldl_perform_of_ne (h : s.socket ≠ .opened) (calls : List SocketCall) :
    calls.foldl (perform server) s = s := by
  induction calls with
  | nil => rfl
  | cons call calls ih => rw [List.foldl_cons, perform_of_ne h, ih]

/-- A shutdown is told. -/
theorem told_shutdown (h : s.log = told s.socket) : s.shutdown.log = told s.shutdown.socket := by
  by_cases hopen : s.socket = .opened
  · simp [shutdown, hopen, h, told]
  · simp [shutdown, hopen, h]

/-- A call that does not close the socket itself is told. -/
theorem told_perform {call : SocketCall} (h : s.log = told s.socket) (hcall : call ≠ .close) :
    (s.perform server call).log = told (s.perform server call).socket := by
  cases call with
  | onError msg | onErrorCode error | onBadRequest => exact told_shutdown h
  | close => exact absurd rfl hcall
  | handshakeFail protocolIndex =>
      simp only [perform, handshakeFail]
      split
      · exact h
      · split
        · exact h
        · by_cases hopen : s.socket = .opened
          · simp [move, hopen, h, told]
          · simp [move, hopen, h]

/-- So are several of them. -/
theorem told_foldl_perform {calls : List SocketCall} (h : s.log = told s.socket)
    (hcalls : .close ∉ calls) :
    (calls.foldl (perform server) s).log = told (calls.foldl (perform server) s).socket := by
  induction calls generalizing s with
  | nil => exact h
  | cons call calls ih =>
      obtain ⟨hcall, hcalls⟩ := not_or.mp (List.mem_cons.not.mp hcalls)
      exact ih (told_perform h (Ne.symm hcall)) hcalls

/-! ## One step -/

variable {kind : Kind} {label : Label}

/-- What a step can be. -/
inductive Steps (server : Server) (env : Env) (unarchive : List UInt8 → Option μ) (kind : Kind)
    (s : SessionSocket) : Label → SessionSocket → Prop
  | onError {msg} : Steps server env unarchive kind s (.onError msg) s.shutdown
  | onErrorCode {error} : Steps server env unarchive kind s (.onErrorCode error) s.shutdown
  | shutdown : Steps server env unarchive kind s .shutdown s.shutdown
  | handler {handler} : handler.kind.all (· = kind) →
      Steps server env unarchive kind s (.handler handler)
        ((handler.socketCalls env unarchive).foldl (perform server) s)
  | destroy : Steps server env unarchive kind s .destroy { s.shutdown with destroyed := true }

/-- There are no steps but these, and only of a session that exists. -/
theorem steps_of_step (h : s.step server env unarchive kind label = some s') :
    s.destroyed = false ∧ Steps server env unarchive kind s label s' := by
  obtain ⟨hlive, h⟩ := Option.ite_none_left_eq_some.mp h
  refine ⟨by simpa using hlive, ?_⟩
  cases label with
  | onError msg => exact Option.some.inj h ▸ .onError
  | onErrorCode error => exact Option.some.inj h ▸ .onErrorCode
  | shutdown => exact Option.some.inj h ▸ .shutdown
  | destroy => exact Option.some.inj h ▸ .destroy
  | handler handler =>
      obtain ⟨hkind, h⟩ := Option.ite_none_right_eq_some.mp h
      exact Option.some.inj h ▸ .handler hkind

theorem shutdown_of_ne (h : s.socket ≠ .opened) : s.shutdown = s := if_pos h

/-- After a shutdown the socket is not open. -/
theorem shutdown_ne_opened (s : SessionSocket) : s.shutdown.socket ≠ .opened := by
  unfold shutdown
  split
  · assumption
  · simp

/-- Once the socket is not open any more, a step changes neither it nor the log. -/
theorem step_of_ne (h : s.socket ≠ .opened)
    (hstep : s.step server env unarchive kind label = some s') :
    s'.socket = s.socket ∧ s'.log = s.log := by
  cases (steps_of_step hstep).2 with
  | handler hkind => simp [foldl_perform_of_ne h]
  | _ => simp [shutdown_of_ne h]

/-- A step that finds the socket open tells of what it does to it, unless it is a completion
on which `http_session` closes the socket itself. -/
theorem told_step_iff (h : s.log = told s.socket)
    (hstep : s.step server env unarchive kind label = some s') :
    s'.log = told s'.socket ↔ s.Notifies env label := by
  by_cases hopen : s.socket = .opened
  · cases (steps_of_step hstep).2 with
    | onError | onErrorCode | shutdown => simp [told_shutdown h, Notifies]
    | destroy => simpa [Notifies] using told_shutdown h
    | @handler handler hkind =>
        by_cases hcloses : closesItself env handler
        · simp [Notifies, hopen, hcloses, socketCalls_of_closesItself hcloses, perform, close, h,
            told]
        · simp [Notifies, hcloses, told_foldl_perform h (close_notMem_of_not_closesItself hcloses)]
  · obtain ⟨hsocket, hlog⟩ := step_of_ne hopen hstep
    rw [hsocket, hlog]
    cases label <;> simp [Notifies, hopen, h]

/-- A session is destroyed with its socket closed or moved on. -/
theorem ended_step (hstep : s.step server env unarchive kind label = some s')
    (hdestroyed : s'.destroyed) : s'.socket ≠ .opened := by
  obtain ⟨hlive, hsteps⟩ := steps_of_step hstep
  cases hsteps with
  | handler hkind => simp [destroyed_foldl_perform, hlive] at hdestroyed
  | _ => exact shutdown_ne_opened s

/-- Every step is accounted for. -/
theorem accounted_step (h : s.Accounted)
    (hstep : s.step server env unarchive kind label = some s') : s'.Accounted := by
  refine ⟨?_, ended_step hstep⟩
  by_cases hopen : s.socket = .opened
  · have hlog : s.log = told s.socket := h.log.resolve_right fun hclosed => by simp_all
    cases (steps_of_step hstep).2 with
    | onError | onErrorCode | shutdown | destroy => exact .inl (told_shutdown hlog)
    | @handler handler hkind =>
        by_cases hcloses : closesItself env handler
        · rw [socketCalls_of_closesItself hcloses]
          simp [perform, close, hopen, hlog, told]
        · exact .inl (told_foldl_perform hlog (close_notMem_of_not_closesItself hcloses))
  · obtain ⟨hsocket, hlog⟩ := step_of_ne hopen hstep
    rw [hsocket, hlog]
    exact h.log

/-- A socket closed behind `on_shutdown`'s back stays so. -/
theorem told_of_step (h : s.Accounted)
    (hstep : s.step server env unarchive kind label = some s') (hlog : s'.log = told s'.socket) :
    s.log = told s.socket := by
  refine h.log.resolve_right ?_
  rintro ⟨hclosed, hclose⟩
  obtain ⟨hsocket', hlog'⟩ := step_of_ne (by simp [hclosed]) hstep
  rw [hsocket', hlog', hclosed, hclose] at hlog
  simp [told] at hlog

/-- A session that holds its socket has nothing to account for. -/
theorem accounted_holding : holding.Accounted := ⟨.inl rfl, by simp [holding]⟩

/-! ## Runs -/

/-- Every run is accounted for. -/
theorem accounted_of_run {guard : SessionSocket → Label → Prop} {labels : List Label}
    (h : Run server env unarchive kind guard labels s) : s.Accounted :=
  Reaches.invariant (I := fun _ s => s.Accounted) accounted_holding
    (fun _ _ _ _ hs _ hstep => accounted_step hs hstep) h

/-- Only a session of class `http_session` has such completions. -/
theorem notifies_of_step (hkind : kind ≠ .http)
    (hstep : s.step server env unarchive kind label = some s') : s.Notifies env label := by
  cases (steps_of_step hstep).2 with
  | @handler handler hclass =>
      intro _ hcloses
      cases handler with
      | read handler =>
          cases handler <;> simp_all [closesItself, SessionHandler.kind]
      | write handler =>
          cases handler <;> simp_all [closesItself, SessionHandler.kind]
      | _ => simp [closesItself] at hcloses
  | _ => trivial

/-- **`on_shutdown`**: in the runs of a session that holds an open socket it is called once,
when the socket is closed, and not if the socket is moved on — exactly if `http_session` does
not close the socket itself.  Sessions of the other classes always are so. -/
theorem shutsDownOnce_iff (server : Server) (env : Env) (unarchive : List UInt8 → Option μ)
    (kind : Kind) {labels : List Label} {s : SessionSocket}
    (hrun : Run server env unarchive kind AnyStep labels s) :
    (s.ShutsDownOnce ↔ Run server env unarchive kind (Notifies env) labels s) ∧
      (kind ≠ .http → s.ShutsDownOnce) := by
  have htold : s.log = told s.socket ↔ Run server env unarchive kind (Notifies env) labels s :=
    Reaches.guarded_iff (I := fun _ s => s.Accounted) (P := fun _ s => s.log = told s.socket)
      accounted_holding rfl (fun _ _ _ _ hs hstep => accounted_step hs hstep)
      (fun _ _ _ _ hs hstep => told_of_step hs hstep)
      (fun _ _ _ _ _ hlog hstep => told_step_iff hlog hstep) hrun
  rw [shutsDownOnce_iff_told (accounted_of_run hrun)]
  refine ⟨htold, fun hkind => ?_⟩
  exact Reaches.invariant (I := fun _ s => s.log = told s.socket) rfl
    (fun _ _ _ _ hlog _ hstep => (told_step_iff hlog hstep).mpr (notifies_of_step hkind hstep))
    hrun

section Echo

open EchoServer

/-- A session that is told of an error twice, and destroyed. -/
theorem shutsDownOnce_iff_reset :
    ShutsDownOnce ⟨.closed, [.close, .onShutdown], true⟩ ∧
      Run (myServer noFiles) answering (fun _ => (none : Option Unit)) .webSocket
        (Notifies answering)
        [.handler (.read (.onReadDataframe .finOpcode) [] 0 #v[0, 0, 0, 0] 104 0),
          .handler (.onWriteDataframe 32), .destroy]
        ⟨.closed, [.close, .onShutdown], true⟩ := by
  have hrun : Run (myServer noFiles) answering (fun _ => (none : Option Unit)) .webSocket AnyStep
      [.handler (.read (.onReadDataframe .finOpcode) [] 0 #v[0, 0, 0, 0] 104 0),
        .handler (.onWriteDataframe 32), .destroy]
      ⟨.closed, [.close, .onShutdown], true⟩ := Reaches.of_runFrom (by decide)
  obtain ⟨hiff, hclass⟩ := shutsDownOnce_iff _ _ _ .webSocket hrun
  exact ⟨hclass (by decide), hiff.mp (hclass (by decide))⟩

/-- What an `http_session` gets for a request: the handshake, the completion of the write of
its reply, and its destruction. -/
def answered (request : List UInt8) : List Label :=
  let store := (Store.mkIncomingData []).2.fill 0 request
  [.handler (.handshake (myHttpSession noFiles) 3 store ⟨.http, 0, request.length⟩),
    .handler (.write .handleWrite store 0), .destroy]

/-- `handle_write` closes the socket, and `on_shutdown` is never called. -/
theorem shutsDownOnce_counterexample :
    ¬ ∀ labels s, Run (myServer noFiles) answering (fun _ => (none : Option Unit)) .http AnyStep
      labels s → s.ShutsDownOnce := by
  intro h
  have hrun : Run (myServer noFiles) answering (fun _ => (none : Option Unit)) .http AnyStep
      (answered (chars "GET / HTTP/1.0\r\n\r\n")) ⟨.closed, [.close], true⟩ :=
    Reaches.of_runFrom (by decide)
  exact absurd ((h _ _ hrun).once rfl) (by decide)

end Echo

end SessionSocket

end Splice

import Splice.HandlerStatements
import Splice.Upgrade

/-!
# Splice.DeadEnd

Whether a handshake ends or goes on.  Each handler does one thing, but for `on_guid_read`
when a frame is not complete: it only asks itself for more data, and the connection is left
with nothing pending and nobody told.  The same comes of a first session that does not
define `on_first_read`, and `noDeadEnd_iff` says that there is no third way.
-/

namespace Splice

open Transition
open Incremental (Tribool)

variable {η : Type}

/-! ## One handler -/

/-- What is pending belongs to a handshake, not to an established session. -/
@[simp] def Next.OfHandshake : Next η → Prop
  | .asyncReadSome _ (.onReadDataframe _) => False
  | .asyncReadSome _ _ | .handshakeFail _ _ | .asyncWrite _ _ | .onHandshakeSuccess _ _
  | .stop _ => True

/-- The handler does one thing, and it belongs to the handshake. -/
structure Next.Acts (next : Next η) : Prop where
  one : ∃ action, next.actions = [action]
  ofHandshake : next.OfHandshake

section Acts

variable {env : Env} {session : Session} {h : η} {store : Store} {incoming : HandShakeData}
  {up : WsClass} {next : Next η} {ran : Store × Next η} {error : ErrorCode}

@[simp] theorem acts_handshakeFail : (Next.handshakeFail h incoming).Acts :=
  ⟨⟨_, rfl⟩, trivial⟩

@[simp] theorem acts_asyncReadSome {incomingData : Nat} {handler : ReadHandler η} :
    (Next.asyncReadSome incomingData handler).Acts ↔
      (Next.asyncReadSome incomingData handler).OfHandshake :=
  ⟨Next.Acts.ofHandshake, fun h => ⟨⟨_, rfl⟩, h⟩⟩

@[simp] theorem acts_asyncWrite (response : Response) (handler : WriteHandler η) :
    (Next.asyncWrite response handler).Acts :=
  ⟨⟨_, rfl⟩, trivial⟩

@[simp] theorem acts_onHandshakeSuccess (kind : Kind) (calls : List WsSession.Call) :
    (Next.onHandshakeSuccess (η := η) kind calls).Acts :=
  ⟨⟨_, rfl⟩, trivial⟩

@[simp] theorem acts_onError (msg : String) : (Next.stop (η := η) (.onError msg)).Acts :=
  ⟨⟨_, rfl⟩, trivial⟩

@[simp] theorem acts_onErrorCode (error : ErrorCode) :
    (Next.stop (η := η) (.onErrorCode error)).Acts :=
  ⟨⟨_, rfl⟩, trivial⟩

@[simp] theorem acts_onBadRequest : (Next.stop (η := η) .onBadRequest).Acts :=
  ⟨⟨_, rfl⟩, trivial⟩

/-- A handler that does one thing does not stop with nothing pending. -/
theorem Next.Acts.ne (hacts : next.Acts) : next ≠ .stop .nothingPending := by
  rintro rfl
  obtain ⟨action, haction⟩ := hacts.one
  simp [Next.actions] at haction

theorem WsHandshake.FirstWrite.acts {boost : Rfc6455Engine.Boost}
    (hends : FirstWrite boost up h store incoming next) : next.Acts := by
  cases hends <;> simp

theorem WsHandshake.DoCustomHandshake.acts
    (hends : DoCustomHandshake up h store incoming next) : next.Acts := by
  cases hends <;> simp

theorem WsHandshake.acts_guidRead : (WsHandshake.guidRead up h store).2.Acts := by
  simp [WsHandshake.guidRead]

/-- `on_second_read` does one thing. -/
theorem WsHandshake.OnSecondRead.acts {reply : Rfc6455Engine.Reply}
    (hends : OnSecondRead up h reply store error ran) : ran.2.Acts := by
  cases hends with
  | error => exact acts_onErrorCode error
  | badRequest => exact acts_onBadRequest
  | reads => exact WsHandshake.acts_guidRead

section OnGuidRead

variable {host : Endian} {junk : MaskingKey} {frameParser : DataFrameParser.State}
  {bytes : List UInt8}

/-- With a part of a frame `on_guid_read` does nothing, -/
theorem WsHandshake.OnGuidRead.eq_of_asksForMore
    (hends : OnGuidRead host junk up h store frameParser error bytes ran)
    (hasks : AsksForMore host junk frameParser error bytes) :
    ran = (store, .stop .nothingPending) := by
  cases hends with
  | error hne => exact absurd hasks.1 hne
  | invalid hwhole | guid hwhole => exact absurd hasks hwhole
  | nothing => rfl

/-- and otherwise one thing. -/
theorem WsHandshake.OnGuidRead.acts
    (hends : OnGuidRead host junk up h store frameParser error bytes ran)
    (hwhole : ¬ AsksForMore host junk frameParser error bytes) : ran.2.Acts := by
  cases hends with
  | error => exact acts_onErrorCode error
  | invalid => exact acts_onError ""
  | nothing hasks => exact absurd hasks hwhole
  | guid _ _ hcustom => exact hcustom.acts

/-- What `on_guid_read` leaves pending belongs to the handshake. -/
theorem WsHandshake.OnGuidRead.ofHandshake
    (hends : OnGuidRead host junk up h store frameParser error bytes ran) :
    ran.2.OfHandshake := by
  cases hends with
  | error | invalid | nothing => trivial
  | guid _ _ hcustom => exact hcustom.acts.ofHandshake

end OnGuidRead

section OnFirstRead

variable {incomingData bytesTransferred : Nat}

/-- An `on_first_read` that is inherited does nothing with what it reads, -/
theorem Session.OnFirstRead.eq_of_inherits
    (hends : OnFirstRead env h store incomingData bytesTransferred error session next)
    (hzero : error = 0) (hinherits : session.InheritsOnFirstRead) :
    next = .stop .nothingPending := by
  cases hends with
  | error hne | aborted hne => exact absurd hzero hne
  | nothing => rfl
  | passes _ hown => exact absurd hinherits hown
  | firstWrite | answers | reads => exact hinherits.elim

/-- that of `http_session` does nothing when the read has been aborted, -/
theorem Session.OnFirstRead.eq_of_aborted {site : HttpServer.Site}
    (hends : OnFirstRead env h store incomingData bytesTransferred error (.http site) next)
    (hec : error ≠ 0 ∧ error = env.operationAborted) : next = .stop .nothingPending := by
  cases hends with
  | error _ hother => exact absurd hec.2 (hother site rfl)
  | aborted | nothing => rfl
  | passes hzero | answers hzero | reads hzero => exact absurd hzero hec.1

/-- and all others do one thing. -/
theorem Session.OnFirstRead.acts
    (hends : OnFirstRead env h store incomingData bytesTransferred error session next)
    (hown : error = 0 → ¬ session.InheritsOnFirstRead)
    (hgoing : ∀ site, session = .http site → ¬ (error ≠ 0 ∧ error = env.operationAborted)) :
    next.Acts := by
  cases hends with
  | error => exact acts_onErrorCode error
  | aborted hne haborted => exact absurd ⟨hne, haborted⟩ (hgoing _ rfl)
  | nothing hzero hinherits => exact absurd hinherits (hown hzero)
  | firstWrite _ hwrite => exact hwrite.acts
  | passes | answers | reads => simp

/-- What an `on_first_read` leaves pending belongs to the handshake. -/
theorem Session.OnFirstRead.ofHandshake
    (hends : OnFirstRead env h store incomingData bytesTransferred error session next) :
    next.OfHandshake := by
  cases hends with
  | firstWrite _ hwrite => exact hwrite.acts.ofHandshake
  | _ => trivial

end OnFirstRead

/-- A `handshake` always does one thing. -/
theorem Session.Handshake.acts (hends : Handshake env h store incoming session next) :
    next.Acts := by
  cases hends with
  | passes => exact acts_handshakeFail
  | firstWrite _ hwrite => exact hwrite.acts
  | doCustomHandshake _ hcustom => exact hcustom.acts
  | onFirstRead _ hread => exact hread.acts (fun _ => not_false) (by simp)
  | succeeds => exact acts_onHandshakeSuccess _ _

section Http

variable {operationAborted : ErrorCode} {site : HttpServer.Site}
  {requestParser : RequestParser.State} {request : Request} {buffer bytesTransferred : Nat}

/-- `handle_read` establishes no session. -/
theorem HttpSession.HandleRead.ofHandshake
    (hends : HandleRead operationAborted site requestParser request store buffer error
      bytesTransferred next) : next.OfHandshake := by
  cases hends <;> trivial

/-- `handle_read` leaves something pending or says how it ends, unless it has been aborted. -/
theorem HttpSession.HandleRead.ne
    (hends : HandleRead operationAborted site requestParser request store buffer error
      bytesTransferred next) (hec : ¬ (error ≠ 0 ∧ error = operationAborted)) :
    next ≠ .stop .nothingPending := by
  cases hends with
  | aborted hne haborted => exact absurd ⟨hne, haborted⟩ hec
  | _ => simp

theorem HttpSession.HandleWrite.ofHandshake
    (hends : HandleWrite operationAborted error next) : next.OfHandshake := by
  cases hends <;> trivial

/-- `handle_write` says how it ends, unless it has been aborted. -/
theorem HttpSession.HandleWrite.ne (hends : HandleWrite operationAborted error next)
    (hec : error ≠ operationAborted) : next ≠ .stop .nothingPending := by
  cases hends with
  | closes => simp
  | aborted haborted => exact absurd haborted hec

end Http

end Acts

namespace HandlerCall

/-- The return of `http_session` that tells nobody. -/
def Aborted (env : Env) : HandlerCall η → Prop
  | httpOnFirstRead _ _ _ _ ec => ec ≠ 0 ∧ ec = env.operationAborted
  | _ => False

/-- `on_guid_read` with a part of a frame. -/
def AwaitsFrame (env : Env) (store : Store) : HandlerCall η → Prop
  | wsOnGuidRead junk _ _ incomingData frameParser error size =>
      AsksForMore env.host junk frameParser error (store.front incomingData size)
  | _ => False

/-- The handler starts one operation, calls `handshake_fail` or `on_handshake_success` once,
or reports one error; or it is `http_session`'s, its read has been aborted, and it returns. -/
def DoesOneThing (env : Env) (store : Store) (call : HandlerCall η) : Prop :=
  (∃ action, call.actions env store = [action]) ∨
    call.Aborted env ∧ call.actions env store = []

/-- A handler that waits for the rest of a frame has started nothing. -/
theorem ran_of_awaitsFrame {store : Store} {call : HandlerCall η}
    (hawaits : call.AwaitsFrame env store) :
    (call.ran env store).2 = .stop .nothingPending := by
  cases call with
  | wsOnGuidRead => exact congrArg Prod.snd (WsHandshake.onGuidRead_ends.eq_of_asksForMore hawaits)
  | _ => exact hawaits.elim

/-- A handler whose read has been aborted has done nothing. -/
theorem ran_of_aborted {call : HandlerCall η} (haborted : call.Aborted env) (store : Store) :
    (call.ran env store).2 = .stop .nothingPending := by
  cases call with
  | httpOnFirstRead site => exact (Session.onFirstRead_ends_http site).eq_of_aborted haborted
  | _ => exact haborted.elim

/-- All other calls do one thing. -/
theorem acts_ran {store : Store} {call : HandlerCall η} (hgoing : ¬ call.Aborted env)
    (hwhole : ¬ call.AwaitsFrame env store) : (call.ran env store).2.Acts := by
  cases call with
  | wsOnFirstRead up =>
      exact (Session.onFirstRead_ends_ws env up).acts (fun _ => not_false) (by simp)
  | wsFirstWrite => exact WsHandshake.firstWrite_ends.acts
  | wsOnSecondRead => exact WsHandshake.onSecondRead_ends.acts
  | wsGuidRead => exact WsHandshake.acts_guidRead
  | wsOnGuidRead => exact WsHandshake.onGuidRead_ends.acts hwhole
  | wsDoCustomHandshake => exact WsHandshake.doCustomHandshake_ends.acts
  | wsHandshake up => exact (Session.handshake_ends_ws env up).acts
  | httpOnFirstRead site =>
      exact (Session.onFirstRead_ends_http site).acts (fun _ => not_false) fun _ _ => hgoing
  | httpHandshake site => exact (Session.handshake_ends_http site).acts

/-- A handler does one thing, or has been aborted, unless it waits for the rest of a frame. -/
theorem doesOneThing_iff (env : Env) (store : Store) (call : HandlerCall η) :
    call.DoesOneThing env store ↔ ¬ call.AwaitsFrame env store := by
  rw [DoesOneThing, actions_eq]
  by_cases hwhole : call.AwaitsFrame env store
  · have hgoing : ¬ call.Aborted env := by cases call <;> simp_all [AwaitsFrame, Aborted]
    simp [ran_of_awaitsFrame hwhole, Next.actions, hgoing, hwhole]
  · by_cases haborted : call.Aborted env
    · simp [ran_of_aborted haborted, Next.actions, haborted, hwhole]
    · simp [(acts_ran haborted hwhole).one, hwhole]

end HandlerCall

/-! ## Connections -/

/-- A handshake has been successful. -/
def Succeeded (log : List Event) : Prop := ∃ kind, Event.onHandshakeSuccess kind ∈ log

/-- A completion after which `http_session` says no more. -/
def Label.Aborted (env : Env) : Label → Prop
  | .call => False
  | .readCompletes _ error _ => error ≠ 0 ∧ error = env.operationAborted
  | .writeCompletes error => error = env.operationAborted

/-- What is pending once a handshake has been successful. -/
@[simp] def Next.Established : Next η → Prop
  | .onHandshakeSuccess _ _ | .asyncReadSome _ (.onReadDataframe _) => True
  | .handshakeFail _ _ | .asyncReadSome _ _ | .asyncWrite _ _ | .stop _ => False

namespace Conn

variable {server : Server} {env : Env} {c c' : Conn} {labels : List Label} {label : Label}
  {events : List Event} {ran : Store × Next UInt32}

/-- A handshake has been successful, or the connection has ended with a word about it, or
the last operation was aborted. -/
def Resolved (env : Env) (labels : List Label) (c : Conn) : Prop :=
  Succeeded c.log ∨ (∃ ending, c.next = .stop ending ∧ ending ≠ .nothingPending) ∨
    ∃ label ∈ labels.getLast?, label.Aborted env

/-- One operation is outstanding. -/
def OneOutstanding (c : Conn) : Prop :=
  (∃ incomingData handler, c.next = .asyncReadSome incomingData handler) ∨
    ∃ response handler, c.next = .asyncWrite response handler

/-- A handler has called `handshake_fail` and has not returned. -/
def HandsOver (c : Conn) : Prop := ∃ handler incoming, c.next = .handshakeFail handler incoming

/-- The connection is no dead end. -/
def Alive (env : Env) (labels : List Label) (c : Conn) : Prop :=
  c.Resolved env labels ∨ c.OneOutstanding ∨ c.HandsOver

/-- What the bytes are that a handler finds in the buffer of its read. -/
def received (c : Conn) (incomingData : Nat) (incoming : List UInt8) : List UInt8 :=
  (c.store.fill incomingData incoming).front incomingData incoming.length

/-- A step that leads to no dead end: a GUID is read in a complete frame, and the first
read is that of a session with an `on_first_read` of its own. -/
def GoesOn (env : Env) (c : Conn) : Label → Prop
  | .call | .writeCompletes _ => True
  | .readCompletes junk error incoming =>
      match c.next with
      | .asyncReadSome incomingData (.onGuidRead _ _ frameParser) =>
          ¬ AsksForMore env.host junk frameParser error (c.received incomingData incoming)
      | .asyncReadSome _ (.onFirstRead (.tcp _) _)
      | .asyncReadSome _ (.onFirstRead (.serialization _) _) => error ≠ 0
      | _ => True

/-! ## The step -/

/-- A connection goes on unless its handler stops with nothing pending. -/
theorem alive_proceed (h : ran.2 ≠ .stop .nothingPending) :
    (c.proceed events ran).Alive env labels := by
  cases hran : ran.2 with
  | handshakeFail handler incoming => exact Or.inr (Or.inr ⟨handler, incoming, hran⟩)
  | asyncReadSome incomingData handler =>
      exact Or.inr (Or.inl (Or.inl ⟨incomingData, handler, hran⟩))
  | asyncWrite response handler => exact Or.inr (Or.inl (Or.inr ⟨response, handler, hran⟩))
  | onHandshakeSuccess kind calls =>
      exact Or.inl (Or.inl ⟨kind, by simp [proceed, hran, Next.events]⟩)
  | stop ending =>
      refine Or.inl (Or.inr (Or.inl ⟨ending, hran, ?_⟩))
      rintro rfl
      exact h hran

/-- A handler makes a connection successful by calling `on_handshake_success`. -/
theorem succeeded_proceed (hquiet : ∀ e ∈ events, Quiet e) :
    Succeeded (c.proceed events ran).log ↔
      Succeeded c.log ∨ ∃ kind calls, ran.2 = .onHandshakeSuccess kind calls := by
  have hevents : ∀ kind, Event.onHandshakeSuccess kind ∉ events := fun kind hkind =>
    (hquiet _ hkind).2 kind rfl
  simp only [Succeeded, proceed, List.mem_append, hevents, or_false, exists_or]
  cases ran.2 <;> simp [Next.events]

/-- A handler that stops with nothing pending leaves a dead end. -/
theorem not_alive_proceed (h : ran.2 = .stop .nothingPending) (hquiet : ∀ e ∈ events, Quiet e)
    (hlog : ¬ Succeeded c.log) (hlabel : ¬ label.Aborted env) :
    ¬ (c.proceed events ran).Alive env (labels ++ [label]) := by
  have hsucceeded : ¬ Succeeded (c.proceed events ran).log := by
    simp [succeeded_proceed hquiet, hlog, h]
  have hnext : (c.proceed events ran).next = .stop .nothingPending := h
  simp [Alive, Resolved, OneOutstanding, HandsOver, hsucceeded, hnext, hlabel]

/-- Where something is pending, a session is established exactly if a handshake has been
successful. -/
def Consistent (c : Conn) : Prop :=
  (∃ ending, c.next = .stop ending) ∨ (Succeeded c.log ↔ c.next.Established)

/-- A handler of the handshake keeps the log consistent with what is pending. -/
theorem consistent_proceed (hquiet : ∀ e ∈ events, Quiet e) (hlog : ¬ Succeeded c.log)
    (hran : ran.2.OfHandshake) : (c.proceed events ran).Consistent := by
  have hsucceeded : Succeeded (c.proceed events ran).log ↔ _ := succeeded_proceed hquiet
  have hnext : (c.proceed events ran).next = ran.2 := rfl
  rw [Consistent, hsucceeded, hnext]
  cases hcase : ran.2 with
  | asyncReadSome incomingData handler => cases handler <;> simp_all
  | _ => simp [hlog]

/-- The calls of an established session keep them consistent. -/
theorem consistent_wsSession (hlog : Succeeded c.log) (store : Store) (incomingData : Nat)
    (calls : List WsSession.Call) :
    (c.wsSession events store incomingData calls).Consistent := by
  obtain ⟨kind, hkind⟩ := hlog
  have hsucceeded : Succeeded (c.wsSession events store incomingData calls).log :=
    ⟨kind, by simp [wsSession, proceed, hkind]⟩
  cases houtstanding : WsSession.outstanding calls with
  | none => exact Or.inl ⟨.nothingPending, by simp [wsSession, proceed, houtstanding]⟩
  | some frameParser =>
      have hnext : (c.wsSession events store incomingData calls).next =
          .asyncReadSome incomingData (.onReadDataframe frameParser) := by
        simp [wsSession, proceed, houtstanding]
      exact Or.inr (by simp [hsucceeded, hnext])

/-- A call of handshake_fail keeps them consistent. -/
theorem FallsThrough.consistent {h : UInt32} {incoming : HandShakeData}
    (hfalls : FallsThrough server env c h incoming c') (hlog : ¬ Succeeded c.log) :
    c'.Consistent := by
  cases hfalls with
  | unable => exact consistent_proceed quiet_nil hlog trivial
  | asserts => exact consistent_proceed (quiet_doNextHandshake _ _ _) hlog trivial
  | tries _ _ hhandshake =>
      exact consistent_proceed (quiet_doNextHandshake _ _ _) hlog hhandshake.acts.ofHandshake

/-- Every step keeps them consistent. -/
theorem consistent_step (h : c.Consistent) (hstep : c.step server env label = some c') :
    c'.Consistent := by
  have hlog : (∀ ending, c.next ≠ .stop ending) → (Succeeded c.log ↔ c.next.Established) :=
    fun hgoing => h.resolve_left fun ⟨ending, hending⟩ => hgoing ending hending
  cases steps_of_step hstep with
  | handshakeFail hc hfalls => exact hfalls.consistent (by simp [hlog, hc])
  | onHandshakeSuccess hc => exact consistent_wsSession (by simp [hlog, hc]) _ _ _
  | @asyncReadSome incomingData handler junk error incoming hc =>
      cases handler with
      | onReadDataframe => exact consistent_wsSession (by simp [hlog, hc]) _ _ _
      | onFirstRead session handshakeFail =>
          exact consistent_proceed (quiet_read incoming) (by simp [hlog, hc])
            Session.onFirstRead_ends.ofHandshake
      | onGuidRead up handshakeFail frameParser =>
          exact consistent_proceed (quiet_read incoming) (by simp [hlog, hc])
            WsHandshake.onGuidRead_ends.ofHandshake
      | handleRead site requestParser request =>
          exact consistent_proceed (quiet_read incoming) (by simp [hlog, hc])
            HttpSession.handleRead_ends.ofHandshake
  | @asyncWrite response handler error hc =>
      cases handler with
      | onSecondRead up handshakeFail reply =>
          exact consistent_proceed quiet_nil (by simp [hlog, hc])
            WsHandshake.onSecondRead_ends.acts.ofHandshake
      | handleWrite =>
          exact consistent_proceed quiet_nil (by simp [hlog, hc])
            HttpSession.handleWrite_ends.ofHandshake

theorem consistent_onAccept (server : Server) : (onAccept server).Consistent := by
  simp [Consistent, onAccept, Succeeded, Store.mkIncomingData]

/-- A connection that can step is alive. -/
theorem alive_of_step (h : c.Consistent) (hstep : c.step server env label = some c') :
    c.Alive env labels := by
  cases steps_of_step hstep with
  | handshakeFail hc => exact Or.inr (Or.inr ⟨_, _, hc⟩)
  | onHandshakeSuccess hc => exact Or.inl (Or.inl (by simpa [Consistent, hc] using h))
  | asyncReadSome hc => exact Or.inr (Or.inl (Or.inl ⟨_, _, hc⟩))
  | asyncWrite hc => exact Or.inr (Or.inl (Or.inr ⟨_, _, hc⟩))

/-- A call of handshake_fail leads to no dead end. -/
theorem FallsThrough.alive {h : UInt32} {incoming : HandShakeData}
    (hfalls : FallsThrough server env c h incoming c') : c'.Alive env labels := by
  cases hfalls with
  | unable | asserts => exact alive_proceed (by simp)
  | tries _ _ hhandshake => exact alive_proceed hhandshake.acts.ne

/-- An aborted operation resolves the connection. -/
theorem alive_of_aborted (h : label.Aborted env) : c.Alive env (labels ++ [label]) := by
  refine Or.inl (Or.inr (Or.inr ⟨label, ?_, h⟩))
  simp

/-- What an established session does is not the handshake's. -/
theorem alive_wsSession (hlog : Succeeded c.log) (events : List Event) (store : Store)
    (incomingData : Nat) (calls : List WsSession.Call) :
    (c.wsSession events store incomingData calls).Alive env labels := by
  obtain ⟨kind, hkind⟩ := hlog
  exact Or.inl (Or.inl ⟨kind, by simp [wsSession, proceed, hkind]⟩)

/-- The completion of a write leads to no dead end. -/
theorem alive_completeWrite (error : ErrorCode) (handler : WriteHandler UInt32) :
    (c.completeWrite env error handler).Alive env (labels ++ [.writeCompletes error]) := by
  cases handler with
  | onSecondRead => exact alive_proceed WsHandshake.onSecondRead_ends.acts.ne
  | handleWrite =>
      by_cases haborted : error = env.operationAborted
      · exact alive_of_aborted haborted
      · exact alive_proceed (HttpSession.handleWrite_ends.ne haborted)

/-- A first read goes on unless it comes without an error to a session that inherits
`on_first_read`. -/
theorem goesOn_onFirstRead_iff {session : Session} {h : UInt32} {incomingData : Nat}
    (hc : c.next = .asyncReadSome incomingData (.onFirstRead session h)) (junk : MaskingKey)
    (error : ErrorCode) (incoming : List UInt8) :
    c.GoesOn env (.readCompletes junk error incoming) ↔
      (error = 0 → ¬ session.InheritsOnFirstRead) := by
  cases session <;> simp [GoesOn, hc, Session.InheritsOnFirstRead]

/-- The completion of a first read leaves a dead end exactly if the session has no
`on_first_read` of its own. -/
theorem alive_onFirstRead_iff (hlog : ¬ Succeeded c.log) (session : Session) (h : UInt32)
    (incomingData : Nat) (junk : MaskingKey) (error : ErrorCode) (incoming : List UInt8)
    (hc : c.next = .asyncReadSome incomingData (.onFirstRead session h)) :
    (c.completeRead env incomingData junk error incoming (.onFirstRead session h)).Alive env
        (labels ++ [.readCompletes junk error incoming]) ↔
      c.GoesOn env (.readCompletes junk error incoming) := by
  rw [goesOn_onFirstRead_iff hc]
  constructor
  · intro halive hzero hinherits
    refine not_alive_proceed ?_ (quiet_read incoming) hlog ?_ halive
    · exact Session.onFirstRead_ends.eq_of_inherits hzero hinherits
    · simp [Label.Aborted, hzero]
  · intro hown
    by_cases haborted : error ≠ 0 ∧ error = env.operationAborted
    · exact alive_of_aborted haborted
    · exact alive_proceed (Session.onFirstRead_ends.acts hown fun _ _ => haborted).ne

/-- The completion of a GUID read leaves one exactly if the frame is not complete. -/
theorem alive_onGuidRead_iff (hlog : ¬ Succeeded c.log) (up : WsClass) (h : UInt32)
    (frameParser : DataFrameParser.State) (incomingData : Nat) (junk : MaskingKey)
    (error : ErrorCode) (incoming : List UInt8)
    (hc : c.next = .asyncReadSome incomingData (.onGuidRead up h frameParser)) :
    (c.completeRead env incomingData junk error incoming (.onGuidRead up h frameParser)).Alive env
        (labels ++ [.readCompletes junk error incoming]) ↔
      c.GoesOn env (.readCompletes junk error incoming) := by
  simp only [completeRead, GoesOn, hc]
  constructor
  · intro halive hasks
    refine not_alive_proceed ?_ (quiet_read incoming) hlog ?_ halive
    · exact congrArg Prod.snd (WsHandshake.onGuidRead_ends.eq_of_asksForMore hasks)
    · simp [Label.Aborted, hasks.1]
  · intro hasks
    exact alive_proceed (WsHandshake.onGuidRead_ends.acts hasks).ne

/-- The completion of a later read of `http_session` leads to no dead end. -/
theorem alive_handleRead (site : HttpServer.Site) (requestParser : RequestParser.State)
    (request : Request) (incomingData : Nat) (junk : MaskingKey) (error : ErrorCode)
    (incoming : List UInt8) :
    (c.completeRead env incomingData junk error incoming
        (.handleRead site requestParser request)).Alive env
      (labels ++ [.readCompletes junk error incoming]) := by
  by_cases haborted : error ≠ 0 ∧ error = env.operationAborted
  · exact alive_of_aborted haborted
  · exact alive_proceed (HttpSession.handleRead_ends.ne haborted)

/-- One step leads to a dead end exactly if it does not go on. -/
theorem alive_step_iff (h : c.Consistent) (hstep : c.step server env label = some c') :
    c'.Alive env (labels ++ [label]) ↔ c.GoesOn env label := by
  have hlog : (∀ ending, c.next ≠ .stop ending) → (Succeeded c.log ↔ c.next.Established) :=
    fun hgoing => h.resolve_left fun ⟨ending, hending⟩ => hgoing ending hending
  cases steps_of_step hstep with
  | handshakeFail _ hfalls => simp [GoesOn, hfalls.alive]
  | onHandshakeSuccess hc => simp [GoesOn, alive_wsSession, hlog, hc]
  | asyncWrite => simp [GoesOn, alive_completeWrite]
  | @asyncReadSome incomingData handler junk error incoming hc =>
      cases handler with
      | onFirstRead session handshakeFail =>
          exact alive_onFirstRead_iff (by simp [hlog, hc]) _ _ _ _ _ _ hc
      | onGuidRead up handshakeFail frameParser =>
          exact alive_onGuidRead_iff (by simp [hlog, hc]) _ _ _ _ _ _ _ hc
      | handleRead => simp [GoesOn, hc, alive_handleRead]
      | onReadDataframe => simp [GoesOn, hc, completeRead, alive_wsSession, hlog]

end Conn

/-- **No handshake step is a dead end**, but for `on_guid_read` with a part of a frame; and
a connection is resolved or has one operation outstanding at the end of exactly the runs
that have no such step, and no first session without an `on_first_read`. -/
theorem noDeadEnd_iff (η : Type) (env : Env) :
    (∀ (store : Store) (call : HandlerCall η),
      call.DoesOneThing env store ↔ ¬ call.AwaitsFrame env store) ∧
    ∀ (server : Server) (labels : List Label) (c : Conn),
      Conn.Run server env AnyStep labels c →
        (c.Alive env labels ↔ Conn.Run server env (Conn.GoesOn env) labels c) := by
  refine ⟨HandlerCall.doesOneThing_iff env, fun server labels c hrun => ?_⟩
  refine Reaches.guarded_iff (I := fun _ c => c.Consistent)
    (P := fun labels c => c.Alive env labels) (Conn.consistent_onAccept server)
    (Or.inr (Or.inl (Or.inl ⟨_, _, rfl⟩))) ?_ ?_ ?_ hrun
  · intro _ c label c' h hstep
    exact Conn.consistent_step h hstep
  · intro _ c label c' h hstep _
    exact Conn.alive_of_step h hstep
  · intro _ c label c' h _ hstep
    exact Conn.alive_step_iff h hstep

section Echo

open EchoServer

/-- How the connection has ended, if it has. -/
def Next.ending : Next η → Option Ending
  | .stop ending => some ending
  | .handshakeFail _ _ | .asyncReadSome _ _ | .asyncWrite _ _ | .onHandshakeSuccess _ _ => none

/-- A client that upgrades and sends the GUID of the first session in a complete frame. -/
theorem noDeadEnd_iff_echo :
    ∃ c, c.Alive answering (upgradeWith "\x7bFB3D4012-F196-4299-9531-0AEACBB3ED89\x7d") ∧
      Conn.Run (myServer noFiles) answering (Conn.GoesOn answering)
        (upgradeWith "\x7bFB3D4012-F196-4299-9531-0AEACBB3ED89\x7d") c := by
  obtain ⟨c, hrun, hlog⟩ := exists_run_upgradeWith
  have halive : c.Alive answering (upgradeWith "\x7bFB3D4012-F196-4299-9531-0AEACBB3ED89\x7d") :=
    Or.inl (Or.inl ⟨.webSocket, by simp [hlog]⟩)
  exact ⟨c, halive, ((noDeadEnd_iff Unit answering).2 _ _ c hrun).mp halive⟩

/-- The first byte of a frame alone: `on_guid_read` does nothing, and nothing is pending. -/
theorem noDeadEnd_counterexample :
    ¬ ((∀ (store : Store) (call : HandlerCall Unit), call.DoesOneThing answering store) ∧
      ∀ (server : Server) (labels : List Label) (c : Conn),
        Conn.Run server answering AnyStep labels c → c.Alive answering labels) := by
  rintro ⟨-, h⟩
  have hclient : ∃ c, Conn.Run (myServer noFiles) answering AnyStep
      [.readCompletes #v[0, 0, 0, 0] 0 upgradeRequest, .writeCompletes 0,
        .readCompletes #v[0, 0, 0, 0] 0 [0x81]] c ∧
        (c.next.ending, c.log) = (some .nothingPending,
          [.read upgradeRequest, .asyncWrite (.upgrade upgradeReply) upgradeReply.toBuffers,
            .read [0x81], .stop .nothingPending]) :=
    Reaches.exists_of_runFrom (fun c : Conn => (c.next.ending, c.log)) (by decide)
  obtain ⟨c, hrun, hview⟩ := hclient
  simp only [Prod.mk.injEq] at hview
  obtain ⟨hending, hlog⟩ := hview
  obtain (⟨kind, hkind⟩ | ⟨ending, hnext, hne⟩ | ⟨label, hlabel, haborted⟩) |
    (⟨incomingData, handler, hnext⟩ | ⟨response, handler, hnext⟩) |
    ⟨handler, incoming, hnext⟩ := h _ _ c hrun
  · simp [hlog] at hkind
  · rw [hnext] at hending
    exact hne (Option.some.inj hending)
  · obtain rfl := Option.some.inj hlabel
    exact haborted.1 rfl
  · simp [hnext, Next.ending] at hending
  · simp [hnext, Next.ending] at hending
  · simp [hnext, Next.ending] at hending

end Echo

end Splice

import Splice.MultiProtocol

/-!
# Splice.Exchange

What a connection is for its client, whatever sessions the server tries: an HTTP
exchange in which the first read is handed on until one reply is written, and after an
upgrade only what has come in a frame is handed on.

`Exchange.next` is that protocol, as a partial function on what is seen.
`Conn.fits_step` says that a connection stays in it: for each way that a handler can end it
is said which events are added and which handler is left pending, and the step lemma only
puts them together.
-/

namespace Splice

open Transition

variable {η : Type}

/-- How far the exchange has come. -/
inductive Exchange where
  | unread
  | undecided (firstRead : List UInt8)
  | upgraded
  | answered
  deriving DecidableEq, Repr

namespace Exchange

/-- The data that may be handed on. -/
def Offers : Exchange → HandShake → List UInt8 → Prop
  | .undecided firstRead, tag, incoming => tag ≠ .wsGuid ∧ incoming = firstRead
  | .upgraded, tag, _ => tag = .wsGuid
  | .unread, _, _ | .answered, _, _ => False

instance : (x : Exchange) → (tag : HandShake) → (incoming : List UInt8) →
    Decidable (x.Offers tag incoming)
  | .undecided firstRead, tag, incoming =>
      inferInstanceAs (Decidable (tag ≠ .wsGuid ∧ incoming = firstRead))
  | .upgraded, tag, _ => inferInstanceAs (Decidable (tag = .wsGuid))
  | .unread, _, _ | .answered, _, _ => isFalse id

/-- The first read decides what is offered. -/
def read (incoming : List UInt8) : Exchange → Exchange
  | .unread => .undecided incoming
  | x => x

/-- A reply can be written while nothing has been decided. -/
def write : Response → Exchange → Option Exchange
  | .upgrade _, .undecided _ => some .upgraded
  | .http _, .undecided _ => some .answered
  | _, _ => none

/-- What may be seen, and what it makes of the exchange. -/
def next (x : Exchange) : Event → Option Exchange
  | .read incoming => some (x.read incoming)
  | .doNextHandshake _ tag incoming => if x.Offers tag incoming then some x else none
  | .asyncWrite response _ => x.write response
  | .onHandshakeSuccess _ | .wsSession _ | .stop _ => some x

/-- The logs of exchanges. -/
abbrev Run : List Event → Exchange → Prop :=
  Reaches (fun x e x' => x.next e = some x') AnyStep .unread

/-- Some more events, in order. -/
abbrev after (x : Exchange) (events : List Event) : Option Exchange :=
  runFrom next AnyStep x events

@[simp] theorem after_nil (x : Exchange) : x.after [] = some x := rfl

@[simp] theorem after_cons (x : Exchange) (e : Event) (events : List Event) :
    x.after (e :: events) = (x.next e).bind fun x => x.after events := rfl

/-- Events and more events are seen one after the other. -/
theorem after_append {x x' x'' : Exchange} {events more : List Event}
    (h : x.after events = some x') (hmore : x'.after more = some x'') :
    x.after (events ++ more) = some x'' := by
  induction events generalizing x with
  | nil =>
      obtain rfl := Option.some.inj h
      exact hmore
  | cons e events ih =>
      obtain ⟨x₁, hnext, hafter⟩ := Option.bind_eq_some_iff.mp h
      simp [hnext, ih hafter]

/-- What the exchange says of the log. -/
def Sums (log : List Event) : Exchange → Prop
  | .unread => firstRead log = none ∧ responses log = []
  | .undecided first => firstRead log = some first ∧ responses log = []
  | .upgraded => ∃ reply, responses log = [.upgrade reply]
  | .answered => ∃ reply, responses log = [.http reply]

/-- The next event keeps the summary of the log true. -/
theorem sums_next {log : List Event} {x x' : Exchange} {e : Event} (hsums : x.Sums log)
    (hnext : x.next e = some x') : x'.Sums (log ++ [e]) := by
  cases e with
  | read incoming =>
      obtain rfl := Option.some.inj hnext
      cases x <;> simp_all [Sums, read]
  | doNextHandshake i tag incoming =>
      obtain ⟨-, hx⟩ := Option.ite_none_right_eq_some.mp hnext
      obtain rfl := Option.some.inj hx
      cases x <;> simp_all [Sums]
  | asyncWrite response buffers =>
      cases x with
      | undecided first =>
          cases response <;> obtain rfl := Option.some.inj hnext <;> simp_all [Sums]
      | unread | upgraded | answered => simp [next, write] at hnext
  | onHandshakeSuccess kind | wsSession call | stop ending =>
      obtain rfl := Option.some.inj hnext
      cases x <;> simp_all [Sums]

/-- The summary is true of every exchange. -/
theorem sums_of_run {log : List Event} {x : Exchange} (h : Run log x) : x.Sums log := by
  refine Reaches.invariant (I := Sums) ?_ ?_ h
  · show firstRead [] = none ∧ responses [] = []
    constructor <;> rfl
  · intro log x e x' hsums _ hnext
    exact sums_next hsums hnext

/-- The exchange is upgraded exactly if the log says so. -/
theorem upgraded_iff {log : List Event} {x : Exchange} (h : Run log x) :
    Upgraded log ↔ x = .upgraded := by
  have hsums := sums_of_run h
  cases x with
  | unread => simp [Upgraded, hsums.2]
  | undecided first => simp [Upgraded, hsums.2]
  | upgraded =>
      obtain ⟨reply, hreply⟩ := hsums
      simp [Upgraded, hreply]
  | answered =>
      obtain ⟨reply, hreply⟩ := hsums
      simp [Upgraded, hreply]

end Exchange

/-! ## What may be pending -/

/-- What may be pending at a point of an exchange.  The one handshake_fail handler in
use is `h`. -/
def Next.Fits (x : Exchange) (h : η) (store : Store) : Next η → Prop
  | .handshakeFail handler incoming =>
      handler = h ∧ x.Offers incoming.tag (incoming.string store)
  | .asyncReadSome incomingData (.onFirstRead _ handler) =>
      handler = h ∧ x = .unread ∧ incomingData < store.length
  | .asyncReadSome _ (.onGuidRead _ handler _) => handler = h ∧ x = .upgraded
  | .asyncReadSome _ (.handleRead _ _ _) => ∃ firstRead, x = .undecided firstRead
  | .asyncWrite _ (.onSecondRead _ handler _) => handler = h ∧ x = .upgraded
  | .asyncReadSome _ (.onReadDataframe _) | .asyncWrite _ .handleWrite
  | .onHandshakeSuccess _ _ | .stop _ => True

/-- What a handler may do last: what is seen of it belongs to the exchange, and what it
leaves pending fits. -/
def Next.Allowed (x : Exchange) (h : η) (store : Store) (next : Next η) : Prop :=
  ∃ x', x.after next.events = some x' ∧ next.Fits x' h store

section Allowed

variable {x : Exchange} {h : η} {store : Store} {incoming : HandShakeData}
  {first : List UInt8}

@[simp] theorem allowed_stop (ending : Ending) : (Next.stop ending).Allowed x h store :=
  ⟨x, rfl, trivial⟩

@[simp] theorem allowed_onHandshakeSuccess (kind : Kind) (calls : List WsSession.Call) :
    (Next.onHandshakeSuccess kind calls).Allowed x h store :=
  ⟨x, rfl, trivial⟩

/-- Handing on what was offered. -/
theorem allowed_handshakeFail (hoffers : x.Offers incoming.tag (incoming.string store)) :
    (Next.handshakeFail h incoming).Allowed x h store :=
  ⟨x, rfl, rfl, hoffers⟩

theorem allowed_http (reply : HttpServer.Reply) :
    (Next.asyncWrite (.http reply) .handleWrite).Allowed (.undecided first) h store :=
  ⟨.answered, rfl, trivial⟩

/-- A 101 upgrades an undecided exchange. -/
theorem allowed_upgrade (up : WsClass) (reply : Rfc6455Engine.Reply) :
    (Next.asyncWrite (.upgrade reply) (.onSecondRead up h reply)).Allowed
      (.undecided first) h store :=
  ⟨.upgraded, rfl, rfl, rfl⟩

/-- An undecided exchange may be read on by `http_session`. -/
theorem allowed_handleRead (incomingData : Nat) (site : HttpServer.Site)
    (requestParser : RequestParser.State) (request : Request) :
    (Next.asyncReadSome incomingData (.handleRead site requestParser request)).Allowed
      (.undecided first) h store :=
  ⟨.undecided first, rfl, first, rfl⟩

/-! ## The handlers -/

/-- Data without a tag of a frame is the first read's. -/
theorem Exchange.Offers.undecided {tag : HandShake} {bytes : List UInt8} (h : x.Offers tag bytes)
    (htag : tag ≠ .wsGuid) : x = .undecided bytes := by
  cases x with
  | unread | answered => exact h.elim
  | undecided first => rw [h.2]
  | upgraded => exact absurd h htag

/-- And that of a frame comes behind the upgrade. -/
theorem Exchange.Offers.upgraded {tag : HandShake} {bytes : List UInt8} (h : x.Offers tag bytes)
    (htag : tag = .wsGuid) : x = .upgraded := by
  cases x with
  | unread | answered => exact h.elim
  | undecided first => exact absurd htag h.1
  | upgraded => rfl

variable {env : Env} {session : Session} {up : WsClass} {next : Next η} {ran : Store × Next η}
  {incomingData bytesTransferred : Nat} {error : ErrorCode}

/-- `first_write` upgrades, or hands on what it was given. -/
theorem WsHandshake.FirstWrite.allowed {boost : Rfc6455Engine.Boost}
    (hends : FirstWrite boost up h store incoming next) (htag : incoming.tag ≠ .wsGuid) :
    next.Allowed (.undecided (incoming.string store)) h store := by
  cases hends with
  | fails => exact allowed_handshakeFail ⟨htag, rfl⟩
  | writes => exact allowed_upgrade up _

/-- `do_custom_handshake` establishes its session, or hands on the GUID. -/
theorem WsHandshake.DoCustomHandshake.allowed (hends : DoCustomHandshake up h store incoming next)
    (htag : incoming.tag = .wsGuid) : next.Allowed .upgraded h store := by
  cases hends with
  | fails => exact allowed_handshakeFail htag
  | succeeds => exact allowed_onHandshakeSuccess .webSocket _

/-- A first read decides the exchange, or hands on what was read. -/
theorem Session.OnFirstRead.allowed
    (hends : OnFirstRead env h store incomingData bytesTransferred error session next) :
    next.Allowed (.undecided (store.front incomingData bytesTransferred)) h store := by
  cases hends with
  | error | aborted | nothing => exact allowed_stop _
  | passes => exact allowed_handshakeFail (x := .undecided _) ⟨by simp, rfl⟩
  | firstWrite _ hwrite => exact hwrite.allowed (by simp)
  | answers => exact allowed_http _
  | reads => exact allowed_handleRead _ _ _ _

/-- A `handshake` does with what it is offered what the exchange allows. -/
theorem Session.Handshake.allowed (hends : Handshake env h store incoming session next)
    (hoffers : x.Offers incoming.tag (incoming.string store)) : next.Allowed x h store := by
  cases hends with
  | passes => exact allowed_handshakeFail hoffers
  | firstWrite htag hwrite =>
      rw [hoffers.undecided (by simp [htag])]
      exact hwrite.allowed (by simp [htag])
  | doCustomHandshake htag hcustom =>
      rw [hoffers.upgraded htag]
      exact hcustom.allowed htag
  | onFirstRead htag hread =>
      rw [hoffers.undecided (by simp [htag])]
      exact hread.allowed
  | succeeds => exact allowed_onHandshakeSuccess _ _

/-- Behind the 101 the GUID is read. -/
theorem WsHandshake.OnSecondRead.allowed {reply : Rfc6455Engine.Reply}
    (hends : OnSecondRead up h reply store error ran) : ran.2.Allowed .upgraded h ran.1 := by
  cases hends with
  | error | badRequest => exact allowed_stop _
  | reads => exact ⟨.upgraded, rfl, rfl, rfl⟩

/-- A GUID read hands on nothing but a GUID. -/
theorem WsHandshake.OnGuidRead.allowed {host : Endian} {junk : MaskingKey}
    {frameParser : DataFrameParser.State} {bytes : List UInt8}
    (hends : OnGuidRead host junk up h store frameParser error bytes ran) :
    ran.2.Allowed .upgraded h ran.1 := by
  cases hends with
  | error | invalid | nothing => exact allowed_stop _
  | guid _ htag hcustom => exact hcustom.allowed htag

/-- `handle_read` answers the exchange, or reads on. -/
theorem HttpSession.HandleRead.allowed {operationAborted : ErrorCode} {site : HttpServer.Site}
    {requestParser : RequestParser.State} {request : Request} {buffer : Nat}
    (hends : HandleRead operationAborted site requestParser request store buffer error
      bytesTransferred next) : next.Allowed (.undecided first) h store := by
  cases hends with
  | answers | badRequest => exact allowed_http _
  | reads => exact allowed_handleRead _ _ _ _
  | closes | aborted => exact allowed_stop _

/-- `handle_write` does nothing that is seen. -/
theorem HttpSession.HandleWrite.allowed {operationAborted : ErrorCode}
    (hends : HandleWrite operationAborted error next) : next.Allowed x h store := by
  cases hends with
  | closes | aborted => exact allowed_stop _

end Allowed

/-! ## A connection stays in its exchange -/

@[simp] theorem tried_events (next : Next η) : tried next.events = [] := by
  cases next <;> rfl

@[simp] theorem tried_wsSession (calls : List WsSession.Call) :
    tried (calls.map .wsSession) = [] := by
  simp [tried, List.filterMap_eq_nil_iff]

/-- What an established session does is no matter of the exchange. -/
@[simp] theorem Exchange.after_wsSession (x : Exchange) (calls : List WsSession.Call) :
    x.after (calls.map .wsSession) = some x := by
  induction calls with
  | nil => rfl
  | cons call calls ih => simpa [Exchange.next] using ih

namespace Conn

variable {server : Server} {env : Env} {c c' : Conn} {x x' : Exchange} {h : UInt32}
  {events : List Event} {ran : Store × Next UInt32}

/-- The log is that of an exchange, and what is pending fits it. -/
def Fits (h : UInt32) (c : Conn) : Prop :=
  ∃ x, Exchange.Run c.log x ∧ c.next.Fits x h c.store

/-- A handler that does what its exchange allows keeps a connection in it. -/
theorem fits_proceed (hrun : Exchange.Run c.log x) (hevents : x.after events = some x')
    (hran : ran.2.Allowed x' h ran.1) : (c.proceed events ran).Fits h := by
  obtain ⟨x'', hafter, hfits⟩ := hran
  have hlog : Exchange.Run (c.log ++ events) x' := Reaches.append_of_runFrom hrun hevents
  exact ⟨x'', Reaches.append_of_runFrom hlog hafter, hfits⟩

@[simp] theorem tried_proceed :
    tried (c.proceed events ran).log = tried c.log ++ tried events := by
  simp [proceed]

/-- The calls of an established session keep a connection in its exchange. -/
theorem fits_wsSession (hrun : Exchange.Run c.log x) (hevents : x.after events = some x')
    (store : Store) (incomingData : Nat) (calls : List WsSession.Call) :
    (c.wsSession events store incomingData calls).Fits h := by
  have hmore : x.after (events ++ calls.map .wsSession) = some x' :=
    Exchange.after_append hevents (x'.after_wsSession calls)
  refine fits_proceed hrun hmore ?_
  cases WsSession.outstanding calls with
  | none => exact allowed_stop _
  | some frameParser => exact ⟨x', rfl, trivial⟩

/-- The completion of a read keeps a connection in its exchange. -/
theorem fits_completeRead {incomingData : Nat} {handler : ReadHandler UInt32}
    {incoming : List UInt8} (junk : MaskingKey) (error : ErrorCode) (hrun : Exchange.Run c.log x)
    (hfits : (Next.asyncReadSome incomingData handler).Fits x h c.store)
    (hlen : incoming.length ≤ 8192) :
    (c.completeRead env incomingData junk error incoming handler).Fits h := by
  cases handler with
  | onFirstRead session handshakeFail =>
      obtain ⟨rfl, rfl, hdata⟩ := hfits
      have hfirst : Exchange.unread.after [.read incoming] =
          some (.undecided ((c.store.fill incomingData incoming).front incomingData
            incoming.length)) := by
        rw [Store.front_fill c.store hdata hlen]
        rfl
      exact fits_proceed hrun hfirst Session.onFirstRead_ends.allowed
  | onGuidRead up handshakeFail frameParser =>
      obtain ⟨rfl, rfl⟩ := hfits
      exact fits_proceed hrun rfl WsHandshake.onGuidRead_ends.allowed
  | handleRead site requestParser request =>
      obtain ⟨first, rfl⟩ := hfits
      exact fits_proceed hrun rfl HttpSession.handleRead_ends.allowed
  | onReadDataframe frameParser => exact fits_wsSession hrun rfl _ _ _

/-- The completion of a write keeps a connection in its exchange. -/
theorem fits_completeWrite {response : Response} {handler : WriteHandler UInt32}
    (error : ErrorCode) (hrun : Exchange.Run c.log x)
    (hfits : (Next.asyncWrite response handler).Fits x h c.store) :
    (c.completeWrite env error handler).Fits h := by
  cases handler with
  | onSecondRead up handshakeFail reply =>
      obtain ⟨rfl, rfl⟩ := hfits
      exact fits_proceed hrun rfl WsHandshake.onSecondRead_ends.allowed
  | handleWrite => exact fits_proceed hrun rfl HttpSession.handleWrite_ends.allowed

/-- What a step does to the fall-through: nothing; or the handler is called, and there is
nothing left to try; or the handler is called and passes the next index on. -/
def Moves (h : UInt32) (c c' : Conn) : Prop :=
  (c'.Fits h ∧ tried c'.log = tried c.log) ∨
    (onHandshakeFail h = none ∧ c'.Fits h ∧ tried c'.log = tried c.log ∧
      c'.next = .stop .unableToConnect) ∨
    ∃ i, onHandshakeFail h = some i ∧ c'.Fits i ∧ tried c'.log = tried c.log ++ [i]

/-- The call of a handshake_fail handler tries the next session, or ends the connection. -/
theorem FallsThrough.moves {incoming : HandShakeData}
    (hfalls : FallsThrough server env c h incoming c') (hrun : Exchange.Run c.log x)
    (hoffers : x.Offers incoming.tag (incoming.string c.store)) : Moves h c c' := by
  have htried (i) : x.after [.doNextHandshake i incoming.tag (incoming.string c.store)] =
      some x := by
    simp [Exchange.next, hoffers]
  cases hfalls with
  | unable hfail =>
      exact Or.inr (Or.inl ⟨hfail, fits_proceed hrun rfl (allowed_stop _), by simp, rfl⟩)
  | asserts hfail =>
      exact Or.inr (Or.inr ⟨_, hfail, fits_proceed hrun (htried _) (allowed_stop _), by simp⟩)
  | tries hfail _ hhandshake =>
      refine Or.inr (Or.inr ⟨_, hfail, fits_proceed hrun (htried _) ?_, by simp⟩)
      exact hhandshake.allowed hoffers

/-- The step lemma. -/
theorem moves_step {label : Label} (hfits : c.Fits h)
    (hstep : c.step server env label = some c') : Moves h c c' := by
  obtain ⟨x, hrun, hnext⟩ := hfits
  cases steps_of_step hstep with
  | handshakeFail hc hfalls =>
      rw [hc] at hnext
      obtain ⟨rfl, hoffers⟩ := hnext
      exact hfalls.moves hrun hoffers
  | onHandshakeSuccess => exact Or.inl ⟨fits_wsSession hrun rfl _ _ _, by simp [wsSession]⟩
  | @asyncReadSome incomingData handler junk error incoming hc hlen =>
      rw [hc] at hnext
      refine Or.inl ⟨fits_completeRead junk error hrun hnext hlen, ?_⟩
      cases handler <;> simp [completeRead, wsSession]
  | @asyncWrite response handler error hc =>
      rw [hc] at hnext
      refine Or.inl ⟨fits_completeWrite error hrun hnext, ?_⟩
      cases handler <;> simp [completeWrite]

/-- A new connection begins an exchange. -/
theorem fits_onAccept (server : Server) : (onAccept server).Fits (server.protocolCount - 1) :=
  ⟨.unread, .init, rfl, rfl, by simp [onAccept, Store.mkIncomingData]⟩

/-- Every step keeps a connection in an exchange. -/
theorem fits_step {label : Label} (hfits : c.Fits h)
    (hstep : c.step server env label = some c') : ∃ h', c'.Fits h' := by
  obtain ⟨hfits, -⟩ | ⟨-, hfits, -⟩ | ⟨i, -, hfits, -⟩ := moves_step hfits hstep
  · exact ⟨h, hfits⟩
  · exact ⟨h, hfits⟩
  · exact ⟨i, hfits⟩

/-- The log of a connection is at any time that of an exchange. -/
theorem fits_of_run {guard : Conn → Label → Prop} {labels : List Label}
    (hrun : Run server env guard labels c) : ∃ h, c.Fits h := by
  refine Reaches.invariant (I := fun _ c => ∃ h, c.Fits h) ⟨_, fits_onAccept server⟩ ?_ hrun
  rintro labels c label c' ⟨h, hfits⟩ - hstep
  exact fits_step hfits hstep

end Conn

end Splice

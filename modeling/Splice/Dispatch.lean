import Splice.FallThrough
import Splice.UpgradeRequest

/-!
# Splice.Dispatch

Who serves a connection.  `dispatch` says at one go what the server makes of the first read: it
offers the read to one session after the other, and the first that does not pass it on takes the
connection.  The handlers come to the same, one call at a time (`dispatches`).
-/

namespace Splice

open Incremental (Tribool)
open Transition
open Rfc6455Engine (upgradeOf contains_of_upgradeOf)

/-! ## One session -/

/-- What a `ws_handshake` does with a request that is offered to it, if it does not pass it
on. -/
def WsClass.takesRequest (env : Env) (incoming : List UInt8) : Option (List Event) :=
  (upgradeOf env.boost incoming).map fun reply =>
    [.asyncWrite (.upgrade reply) (Response.upgrade reply).toBuffers]

/-- What an `http_session` does with a request; `some []` when it waits for the rest of it. -/
def HttpSession.takesRequest (site : HttpServer.Site) (incoming : List UInt8) :
    Option (List Event) :=
  if contains (chars "Sec-WebSocket-Key:") incoming then none
  else
    match HttpServer.parseRequest .methodStart .new incoming with
    | (.true, (_, req), _) =>
        let reply := HttpServer.handleRequest site req
        some [.asyncWrite (.http reply) (Response.http reply).toBuffers]
    | (.false, _, _) => none
    | (.indeterminate, _, _) => some []

/-- What a session does with an offer, if it does not pass it on. -/
def Session.takes (env : Env) (session : Session) (tag : HandShake) (incoming : List UInt8) :
    Option (List Event) :=
  match session, tag with
  | ws _, .http => WsClass.takesRequest env incoming
  | ws up, .wsGuid =>
      if up.tryHandshake .wsGuid incoming then some [.onHandshakeSuccess .webSocket] else none
  | ws _, .webSocket | ws _, .none => none
  | http site, .http => HttpSession.takesRequest site incoming
  | http _, .wsGuid | http _, .webSocket | http _, .none => none
  | tcp tryHandshake, tag =>
      if tryHandshake tag incoming then some [.onHandshakeSuccess .tcp] else none
  | serialization tryHandshake, tag =>
      if tryHandshake tag incoming then some [.onHandshakeSuccess .serialization] else none

/-- What the first session does with the first read, or the tag under which it passes it on. -/
def Session.takesFirst (env : Env) (session : Session) (first : List UInt8) :
    Except HandShake (List Event) :=
  match session with
  | ws _ =>
      if contains (chars "Sec-WebSocket-Key:") first then
        match WsClass.takesRequest env first with
        | some events => .ok events
        | none => .error .none
      else .error .http
  | http site =>
      match HttpSession.takesRequest site first with
      | some events => .ok events
      | none => .error .http
  | tcp _ | serialization _ => .ok [.stop .nothingPending]

/-! ## One after the other -/

/-- The indices below one, from the next one on. -/
def below (protocolIndex : UInt32) : List UInt32 :=
  (List.range protocolIndex.toNat).reverse.map UInt32.ofNat

/-- What is seen when some sessions are offered the same data in turn. -/
def offers (server : Server) (env : Env) (tag : HandShake) (incoming : List UInt8) :
    List UInt32 → List Event
  | [] => [.stop .unableToConnect]
  | protocolIndex :: later =>
      .doNextHandshake protocolIndex tag incoming ::
        match server.doNextHandshake protocolIndex with
        | none => [.stop .assertionFailed]
        | some session =>
            match session.takes env tag incoming with
            | some events => events
            | none => offers server env tag incoming later

/-- What the server makes of the first read. -/
def dispatch (server : Server) (env : Env) (first : List UInt8) : List Event :=
  match server.constructSession.takesFirst env first with
  | .ok events => events
  | .error tag => offers server env tag first (countdown server.protocolCount)

/-- Nothing more is done with the connection during its handshake. -/
def Event.Final : Event → Prop
  | .stop _ => True
  | .onHandshakeSuccess kind => kind ≠ .webSocket
  | .read _ | .doNextHandshake _ _ _ | .asyncWrite _ _ | .wsSession _ => False

/-! ## The handlers -/

section Handlers

variable {η : Type} {env : Env} {h : η} {store : Store} {incoming : HandShakeData}

/-- A handler does what is foreseen, or passes an offer on. -/
def Next.Does (next : Next η) (h : η) (store : Store) (tag : HandShake) (incoming : List UInt8) :
    Option (List Event) → Prop
  | some events => next.events = events ∧ ∀ handler data, next ≠ .handshakeFail handler data
  | none => ∃ data : HandShakeData, next = .handshakeFail h data ∧ data.tag = tag ∧
      data.string store = incoming

/-- The same of the first session's handler, which gives the tag itself. -/
def Next.DoesFirst (next : Next η) (h : η) (store : Store) (first : List UInt8) :
    Except HandShake (List Event) → Prop
  | .ok events => next.Does h store .none first (some events)
  | .error tag => next.Does h store tag first none

/-- Passing on what was offered. -/
theorem does_handshakeFail (data : HandShakeData) :
    (Next.handshakeFail h data).Does h store data.tag (data.string store) none :=
  ⟨data, rfl, rfl, rfl⟩

theorem does_stop (h : η) (store : Store) (tag : HandShake) (first : List UInt8)
    (ending : Ending) : (Next.stop ending).Does h store tag first (some [.stop ending]) :=
  ⟨rfl, nofun⟩

/-- `first_write` takes a request with a key. -/
theorem WsHandshake.does_request (boost : Rfc6455Engine.Boost) (up : WsClass)
    (hboost : env.boost = boost) :
    (WsHandshake.firstWrite boost up h store incoming).Does h store incoming.tag
      (incoming.string store) (WsClass.takesRequest env (incoming.string store)) := by
  subst hboost
  rw [WsHandshake.firstWrite_eq, WsClass.takesRequest]
  cases upgradeOf env.boost (incoming.string store) with
  | none => exact does_handshakeFail incoming
  | some reply => exact ⟨rfl, nofun⟩

/-- `do_custom_handshake` takes the GUID of its class. -/
theorem WsHandshake.does_guid (up : WsClass) :
    (WsHandshake.doCustomHandshake up h store incoming).Does h store incoming.tag
      (incoming.string store)
      (if up.tryHandshake incoming.tag (incoming.string store) then
        some [.onHandshakeSuccess .webSocket] else none) := by
  unfold WsHandshake.doCustomHandshake
  cases up.tryHandshake incoming.tag (incoming.string store) with
  | false => exact does_handshakeFail incoming
  | true => exact ⟨rfl, nofun⟩

/-- `on_first_read` of `http_session` takes a request without a key. -/
theorem HttpSession.does_request (operationAborted : ErrorCode) (site : HttpServer.Site)
    (incomingData size : Nat) :
    (HttpSession.onFirstRead operationAborted site h store incomingData size 0).Does h store .http
      (store.front incomingData size)
      (HttpSession.takesRequest site (store.front incomingData size)) := by
  have hfail : (Next.handshakeFail h ⟨.http, incomingData, size⟩).Does h store .http
      (store.front incomingData size) none := ⟨_, rfl, rfl, rfl⟩
  unfold HttpSession.onFirstRead HttpSession.takesRequest
  rw [if_neg (fun hne => hne rfl)]
  dsimp only
  split
  · exact hfail
  · rcases HttpServer.parseRequest .methodStart .new (store.front incomingData size) with
      ⟨result, ⟨state, req⟩, rest⟩
    cases result with
    | true => exact ⟨rfl, nofun⟩
    | false => exact hfail
    | indeterminate => exact ⟨rfl, nofun⟩

/-- `handshake` of `tcp_session` takes what `try_handshake` accepts. -/
theorem TcpSession.does_handshake (kind : Kind) (tryHandshake : TryHandshake) :
    (TcpSession.handshake kind tryHandshake h store incoming).Does h store incoming.tag
      (incoming.string store)
      (if tryHandshake incoming.tag (incoming.string store) then
        some [.onHandshakeSuccess kind] else none) := by
  unfold TcpSession.handshake
  split
  · exact ⟨rfl, nofun⟩
  · exact does_handshakeFail incoming

/-- A handshake is what the session does with the offer. -/
theorem Session.does_takes (env : Env) (session : Session) (h : η) (store : Store)
    (incoming : HandShakeData) :
    (session.handshake env h store incoming).Does h store incoming.tag (incoming.string store)
      (session.takes env incoming.tag (incoming.string store)) := by
  obtain ⟨tag, data, size⟩ := incoming
  cases session with
  | ws up =>
      cases tag with
      | http => exact WsHandshake.does_request env.boost up rfl
      | wsGuid => exact WsHandshake.does_guid up
      | webSocket | none => exact does_handshakeFail _
  | http site =>
      cases tag with
      | http => exact HttpSession.does_request env.operationAborted site data size
      | wsGuid | webSocket | none => exact does_handshakeFail _
  | tcp tryHandshake => exact TcpSession.does_handshake .tcp tryHandshake
  | serialization tryHandshake => exact TcpSession.does_handshake .serialization tryHandshake

/-- And so is the first session's handler. -/
theorem Session.does_takesFirst (env : Env) (session : Session) (h : η) (store : Store)
    {incomingData size : Nat} {first : List UInt8}
    (hfirst : store.front incomingData size = first) :
    (session.onFirstRead env h store incomingData size 0).DoesFirst h store first
      (session.takesFirst env first) := by
  subst hfirst
  cases session with
  | ws up =>
      simp only [Session.takesFirst, Session.onFirstRead, WsHandshake.onFirstRead, ne_eq,
        not_true_eq_false, if_false]
      by_cases hkey : contains (chars "Sec-WebSocket-Key:") (store.front incomingData size)
      · simp only [if_pos hkey]
        have hdoes : (WsHandshake.firstWrite env.boost up h store
            ⟨.none, incomingData, size⟩).Does h store .none (store.front incomingData size)
            (WsClass.takesRequest env (store.front incomingData size)) :=
          WsHandshake.does_request env.boost up rfl
        cases htakes : WsClass.takesRequest env (store.front incomingData size) with
        | none => rwa [htakes] at hdoes
        | some events => rwa [htakes] at hdoes
      · simp only [if_neg hkey]
        exact ⟨_, rfl, rfl, rfl⟩
  | http site =>
      have hdoes : (HttpSession.onFirstRead env.operationAborted site h store incomingData size
          0).Does h store .http (store.front incomingData size)
          (HttpSession.takesRequest site (store.front incomingData size)) :=
        HttpSession.does_request env.operationAborted site incomingData size
      simp only [Session.takesFirst, Session.onFirstRead]
      cases htakes : HttpSession.takesRequest site (store.front incomingData size) with
      | none => rwa [htakes] at hdoes
      | some events => rwa [htakes] at hdoes
  | tcp _ | serialization _ =>
      exact does_stop h store .none (store.front incomingData size) .nothingPending

end Handlers

/-! ## The fall-through -/

theorem below_ofNat {n : Nat} (h : n < 2 ^ 32) :
    below (UInt32.ofNat n) = (List.range n).reverse.map UInt32.ofNat := by
  rw [below, UInt32.toNat_ofNat_of_lt' h]

/-- Below the first index are those of the whole countdown. -/
theorem below_pred {protocolCount : UInt32} (h : 1 ≤ protocolCount) :
    below (protocolCount - 1) = countdown protocolCount := by
  have hlt := protocolCount.toNat_lt
  rw [← ofNat_pred h, below_ofNat (by omega), countdown]

/-- Zero has nothing below it, any other index the next one and what is below that. -/
theorem below_eq (protocolIndex : UInt32) :
    below protocolIndex =
      match onHandshakeFail protocolIndex with
      | none => []
      | some next => next :: below next := by
  obtain ⟨n, hn, rfl⟩ : ∃ n, n < 2 ^ 32 ∧ protocolIndex = UInt32.ofNat n :=
    ⟨protocolIndex.toNat, protocolIndex.toNat_lt, UInt32.ofNat_toNat.symm⟩
  cases n with
  | zero => rfl
  | succ n =>
      rw [onHandshakeFail_succ hn, below_ofNat hn]
      dsimp only
      rw [below_ofNat (by omega), List.range_succ, List.reverse_append, List.reverse_singleton,
        List.singleton_append, List.map_cons]

namespace Conn

variable {server : Server} {env : Env} {c c' : Conn} {tag : HandShake} {first : List UInt8}
  {later : List UInt32}

/-- All that is foreseen has been seen. -/
def Dispatched (server : Server) (env : Env) (first : List UInt8) (c : Conn) : Prop :=
  c.log = .read first :: dispatch server env first

/-- A handler is pending with the first read, and what is not seen yet is that the sessions
below its index are offered it. -/
def Offering (server : Server) (env : Env) (first : List UInt8) (later : List UInt32)
    (c : Conn) : Prop :=
  ∃ protocolIndex incoming, c.next = .handshakeFail protocolIndex incoming ∧
    incoming.string c.store = first ∧ below protocolIndex = later ∧
    .read first :: dispatch server env first =
      c.log ++ offers server env incoming.tag first later

/-- A handler that takes nothing goes on offering. -/
theorem offering_proceed {events : List Event} {store : Store} {next : Next UInt32}
    {protocolIndex : UInt32} (hdoes : next.Does protocolIndex store tag first none)
    (hlog : .read first :: dispatch server env first =
      c.log ++ events ++ offers server env tag first (below protocolIndex)) :
    Offering server env first (below protocolIndex) (c.proceed events (store, next)) := by
  obtain ⟨data, rfl, rfl, hdata⟩ := hdoes
  refine ⟨protocolIndex, data, rfl, hdata, rfl, ?_⟩
  rw [hlog]
  simp [proceed, Next.events]

/-- A handler that takes what it is offered ends the dispatch. -/
theorem dispatched_proceed {events seen : List Event} {store : Store} {next : Next UInt32}
    {protocolIndex : UInt32} (hdoes : next.Does protocolIndex store tag first (some seen))
    (hlog : .read first :: dispatch server env first = c.log ++ events ++ seen) :
    Dispatched server env first (c.proceed events (store, next)) := by
  obtain ⟨rfl, -⟩ := hdoes
  exact hlog.symm

/-- The first read leaves the indices below the first, or nothing. -/
theorem completeRead_first {protocolIndex : UInt32} {junk : MaskingKey} {incomingData : Nat}
    (hindex : below protocolIndex = countdown server.protocolCount) (hlog : c.log = [])
    (hfirst : (c.store.fill incomingData first).front incomingData first.length = first) :
    Offering server env first (countdown server.protocolCount)
        (c.completeRead env incomingData junk 0 first
          (.onFirstRead server.constructSession protocolIndex)) ∨
      Dispatched server env first (c.completeRead env incomingData junk 0 first
        (.onFirstRead server.constructSession protocolIndex)) := by
  have hdoes := server.constructSession.does_takesFirst env protocolIndex _ hfirst
  cases htakes : server.constructSession.takesFirst env first with
  | ok events =>
      have hdispatch : dispatch server env first = events := by rw [dispatch, htakes]
      rw [htakes, Next.DoesFirst] at hdoes
      exact Or.inr (dispatched_proceed hdoes (by simp [hdispatch, hlog]))
  | error tag =>
      have hdispatch : dispatch server env first =
          offers server env tag first (countdown server.protocolCount) := by
        rw [dispatch, htakes]
      rw [htakes, Next.DoesFirst] at hdoes
      rw [← hindex] at hdispatch ⊢
      exact Or.inl (offering_proceed hdoes (by simp [hdispatch, hlog]))

/-- One call of the handler, where there is nothing left to try. -/
theorem call_nil (h : Offering server env first [] c) :
    ∃ c', c.step server env .call = some c' ∧ Dispatched server env first c' := by
  obtain ⟨protocolIndex, incoming, hnext, rfl, hbelow, hlog⟩ := h
  refine ⟨_, by rw [step, hnext], ?_⟩
  rw [below_eq] at hbelow
  cases hfail : onHandshakeFail protocolIndex with
  | some next => simp [hfail] at hbelow
  | none =>
      rw [callHandshakeFail, hfail]
      simp [Dispatched, proceed, Next.events, hlog, offers]

/-- And where there is an index left. -/
theorem call_cons {protocolIndex : UInt32}
    (h : Offering server env first (protocolIndex :: later) c) :
    ∃ c', c.step server env .call = some c' ∧
      (Offering server env first later c' ∨ Dispatched server env first c') := by
  obtain ⟨bound, incoming, hnext, rfl, hbelow, hlog⟩ := h
  refine ⟨_, by rw [step, hnext], ?_⟩
  rw [below_eq] at hbelow
  cases hfail : onHandshakeFail bound with
  | none => simp [hfail] at hbelow
  | some next =>
      rw [hfail] at hbelow
      obtain ⟨rfl, rfl⟩ := List.cons.inj hbelow
      rw [callHandshakeFail, hfail]
      dsimp only
      rw [offers] at hlog
      cases hsession : server.doNextHandshake next with
      | none =>
          rw [hsession] at hlog
          exact Or.inr (by simp [Dispatched, proceed, Next.events, hlog])
      | some session =>
          have hdoes := session.does_takes env next c.store incoming
          rw [hsession] at hlog
          dsimp only at hlog ⊢
          cases htakes : session.takes env incoming.tag (incoming.string c.store) with
          | some events =>
              rw [htakes] at hdoes hlog
              exact Or.inr (dispatched_proceed hdoes (by simp [hlog]))
          | none =>
              rw [htakes] at hdoes hlog
              exact Or.inl (offering_proceed hdoes (by simp [hlog]))

/-- The fall-through is on its way or behind. -/
def Foreseen (server : Server) (env : Env) (first : List UInt8) (c : Conn) : Prop :=
  (∃ later, Offering server env first later c) ∨ .read first :: dispatch server env first <+: c.log

theorem Dispatched.foreseen (h : Dispatched server env first c) : Foreseen server env first c := by
  rw [Dispatched] at h
  exact Or.inr (by rw [h])

/-- A connection that offers goes on doing so, or has dispatched. -/
theorem offering_step {label : Label} (hc : ∃ later, Offering server env first later c)
    (hstep : c.step server env label = some c') :
    (∃ later, Offering server env first later c') ∨ Dispatched server env first c' := by
  obtain ⟨later, hoffering⟩ := hc
  obtain rfl : label = .call := by
    obtain ⟨_, _, hnext, -⟩ := hoffering
    cases label with
    | call => rfl
    | readCompletes _ _ _ | writeCompletes _ => simp [step, hnext] at hstep
  cases later with
  | nil =>
      obtain ⟨c₁, hc₁, hdone⟩ := call_nil hoffering
      obtain rfl := Option.some.inj (hc₁.symm.trans hstep)
      exact Or.inr hdone
  | cons protocolIndex later =>
      obtain ⟨c₁, hc₁, hnext⟩ := call_cons hoffering
      obtain rfl := Option.some.inj (hc₁.symm.trans hstep)
      exact hnext.imp_left fun h => ⟨later, h⟩

/-- A step leads only to what was foreseen. -/
theorem foreseen_step {label : Label} (hc : Foreseen server env first c)
    (hstep : c.step server env label = some c') : Foreseen server env first c' := by
  obtain hoffering | hbehind := hc
  · exact (offering_step hoffering hstep).elim Or.inl Dispatched.foreseen
  · exact Or.inr (hbehind.trans (log_prefix_of_step hstep))

/-- Each call leaves one session less, so as many calls as there are sessions are enough. -/
theorem exists_dispatched {guard : Conn → Label → Prop} (hguard : ∀ c, guard c .call)
    {labels : List Label} (hrun : Run server env guard labels c)
    (hoffering : Offering server env first later c) :
    ∃ n c', n ≤ later.length + 1 ∧ Run server env guard (labels ++ List.replicate n .call) c' ∧
      Dispatched server env first c' := by
  induction later generalizing c labels with
  | nil =>
      obtain ⟨c₁, hc₁, hdone⟩ := call_nil hoffering
      exact ⟨1, c₁, le_rfl, .step hrun (hguard c) hc₁, hdone⟩
  | cons protocolIndex later ih =>
      obtain ⟨c₁, hc₁, hoffering | hdone⟩ := call_cons hoffering
      · obtain ⟨n, c₂, hn, hrun₂, hdone⟩ := ih (.step hrun (hguard c) hc₁) hoffering
        refine ⟨n + 1, c₂, Nat.succ_le_succ hn, ?_, hdone⟩
        rwa [List.append_assoc] at hrun₂
      · exact ⟨1, c₁, by simp, .step hrun (hguard c) hc₁, hdone⟩

/-- The first read of a run. -/
theorem first_step {junk : MaskingKey} (hstep : (onAccept server).step server env
      (.readCompletes junk 0 first) = some c) :
    Offering server env first (countdown server.protocolCount) c ∨
      Dispatched server env first c := by
  obtain ⟨hlen, hc⟩ := Option.ite_none_right_eq_some.mp hstep
  rw [← Option.some.inj hc]
  exact completeRead_first (below_pred server.one_le_protocolCount) rfl
    (Store.front_fill _ Nat.one_pos hlen)

/-- What a run that begins with a read shows. -/
theorem log_of_first {guard : Conn → Label → Prop} {junk : MaskingKey} {labels : List Label}
    (hrun : Run server env guard (.readCompletes junk 0 first :: labels) c) :
    c.log <+: .read first :: dispatch server env first ∨
      .read first :: dispatch server env first <+: c.log := by
  obtain ⟨c₁, -, hfirst, hrest⟩ := reaches_cons.mp hrun
  have hstart : Foreseen server env first c₁ :=
    (first_step hfirst).elim (fun h => Or.inl ⟨_, h⟩) Dispatched.foreseen
  have hforeseen := Reaches.invariant (I := fun _ c => Foreseen server env first c) hstart
    (fun _ _ _ _ hc _ hstep => foreseen_step hc hstep) hrest
  obtain ⟨later, _, _, _, _, _, hlog⟩ | hbehind := hforeseen
  · rw [hlog]
    exact Or.inl (List.prefix_append _ _)
  · exact Or.inr hbehind

/-- A connection that has just logged that nothing more will be done with it cannot step. -/
def Sealed (server : Server) (env : Env) (c : Conn) : Prop :=
  ∀ e, c.log.getLast? = some e → e.Final → ∀ label, c.step server env label = none

/-- An event that says so is what the last handler ended with. -/
def Settled (c : Conn) : Prop :=
  ∀ e, c.log.getLast? = some e → e.Final → c.next.events.getLast? = some e

/-- A settled connection is sealed. -/
theorem Settled.isSealed (h : c.Settled) : c.Sealed server env := by
  intro e hlast hfinal label
  obtain ⟨store, next, log⟩ := c
  have hlast := h e hlast hfinal
  cases next with
  | handshakeFail _ _ | asyncReadSome _ _ => simp [Next.events] at hlast
  | asyncWrite response handler =>
      obtain rfl : _ = e := by simpa [Next.events] using hlast
      exact absurd hfinal id
  | onHandshakeSuccess kind calls =>
      obtain rfl : _ = e := by simpa [Next.events] using hlast
      cases kind with
      | webSocket => exact absurd rfl hfinal
      | http | tcp | serialization => cases label <;> rfl
  | stop ending => cases label <;> rfl

/-- A handler settles a connection by a last event, or not at all. -/
theorem settled_proceed {events : List Event} {ran : Store × Next UInt32}
    (hlog : ∀ e, c.log.getLast? = some e → ¬ e.Final) (hevents : ∀ e ∈ events, ¬ e.Final) :
    (c.proceed events ran).Settled := by
  intro e hlast hfinal
  rw [proceed, List.getLast?_append, List.getLast?_append] at hlast
  show ran.2.events.getLast? = some e
  cases hran : ran.2.events.getLast? with
  | some e' => rwa [hran, Option.some_or] at hlast
  | none =>
      rw [hran, Option.none_or] at hlast
      cases hmore : events.getLast? with
      | none =>
          rw [hmore, Option.none_or] at hlast
          exact absurd hfinal (hlog e hlast)
      | some e' =>
          rw [hmore, Option.some_or] at hlast
          obtain rfl := Option.some.inj hlast
          exact absurd hfinal (hevents e' (List.mem_of_getLast? hmore))

/-- Every step keeps it so. -/
theorem settled_step {label : Label} (hsettled : c.Settled)
    (hstep : c.step server env label = some c') : c'.Settled := by
  have hlog : ∀ e, c.log.getLast? = some e → ¬ e.Final := by
    intro e hlast hfinal
    rw [hsettled.isSealed e hlast hfinal label] at hstep
    cases hstep
  have hcalls : ∀ e : Event, ¬ e.Final → ∀ calls : List WsSession.Call,
      ∀ e' ∈ [e] ++ calls.map .wsSession, ¬ e'.Final := by
    intro e he calls e' he'
    rcases List.mem_append.mp he' with he' | he'
    · obtain rfl := List.mem_singleton.mp he'
      exact he
    · obtain ⟨call, -, rfl⟩ := List.mem_map.mp he'
      exact id
  cases steps_of_step hstep with
  | handshakeFail _ hfalls =>
      cases hfalls <;> exact settled_proceed hlog (by simp [Event.Final])
  | onHandshakeSuccess hnext => exact settled_proceed hlog (by simp [Event.Final])
  | @asyncReadSome incomingData handler junk error incoming hnext hlen =>
      cases handler with
      | onReadDataframe => exact settled_proceed hlog (hcalls _ id _)
      | onFirstRead | onGuidRead | handleRead => exact settled_proceed hlog (by simp [Event.Final])
  | @asyncWrite response handler error hnext =>
      cases handler <;> exact settled_proceed hlog (by simp)

theorem settled_onAccept (server : Server) : (onAccept server).Settled := nofun

/-- Where that is how the fall-through ends, it is all there is. -/
theorem log_of_final {guard : Conn → Label → Prop} {junk : MaskingKey} {labels : List Label}
    {e : Event} (hlast : (dispatch server env first).getLast? = some e) (hfinal : e.Final)
    (hrun : Run server env guard (.readCompletes junk 0 first :: labels) c) :
    c.log <+: .read first :: dispatch server env first := by
  obtain ⟨c₁, -, hfirst, hrest⟩ := reaches_cons.mp hrun
  have hinv : c.Settled ∧
      ((∃ later, Offering server env first later c) ∨ Dispatched server env first c) := by
    refine Reaches.invariant (I := fun _ c => c.Settled ∧
      ((∃ later, Offering server env first later c) ∨ Dispatched server env first c))
      ⟨settled_step (settled_onAccept server) hfirst,
        (first_step hfirst).imp_left fun h => ⟨_, h⟩⟩ ?_ hrest
    rintro - c₂ label c₃ ⟨hsettled, hoffering | hdone⟩ - hstep
    · exact ⟨settled_step hsettled hstep, offering_step hoffering hstep⟩
    · have hlog : c₂.log.getLast? = some e := by rw [hdone, List.getLast?_cons, hlast]; rfl
      rw [hsettled.isSealed e hlog hfinal label] at hstep
      cases hstep
  obtain ⟨-, ⟨later, _, _, _, _, _, hlog⟩ | hdone⟩ := hinv
  · rw [hlog]
    exact List.prefix_append _ _
  · rw [hdone]

/-- And how far it gets with a call for each session. -/
theorem exists_run_of_first (server : Server) (env : Env) (junk : MaskingKey)
    (hlen : first.length ≤ 8192) :
    ∃ n c, n ≤ server.protocolCount.toNat ∧
      Run server env AnyStep (.readCompletes junk 0 first :: List.replicate n .call) c ∧
      c.log = .read first :: dispatch server env first := by
  obtain ⟨c₁, hc₁⟩ : ∃ c₁, (onAccept server).step server env
      (.readCompletes junk 0 first) = some c₁ := ⟨_, if_pos hlen⟩
  have hrun : Run server env AnyStep [.readCompletes junk 0 first] c₁ := .step .init trivial hc₁
  obtain hoffering | hdone := first_step hc₁
  · obtain ⟨n, c, hn, hrun, hdone⟩ := exists_dispatched (fun _ => trivial) hrun hoffering
    have hone : 1 ≤ server.protocolCount.toNat :=
      UInt32.le_iff_toNat_le.mp server.one_le_protocolCount
    refine ⟨n, c, ?_, hrun, hdone⟩
    simp only [countdown, List.length_map, List.length_reverse, List.length_range] at hn
    omega
  · exact ⟨0, c₁, Nat.zero_le _, hrun, hdone⟩

end Conn

/-- **The first session that takes the first read has the connection.**  In every run what is
seen is a beginning of the read and what `dispatch` makes of it, or goes on from there, and
does not go on where `dispatch` ends the handshake; and at the latest when every session has
been called, all of it has been seen. -/
theorem dispatches (server : Server) (env : Env) (junk : MaskingKey) (first : List UInt8)
    (hlen : first.length ≤ 8192) :
    (∀ labels c, Conn.Run server env AnyStep (.readCompletes junk 0 first :: labels) c →
      (c.log <+: .read first :: dispatch server env first ∨
        .read first :: dispatch server env first <+: c.log) ∧
      ∀ e, (dispatch server env first).getLast? = some e → e.Final →
        c.log <+: .read first :: dispatch server env first) ∧
    ∃ n c, n ≤ server.protocolCount.toNat ∧
      Conn.Run server env AnyStep (.readCompletes junk 0 first :: List.replicate n .call) c ∧
      c.log = .read first :: dispatch server env first :=
  ⟨fun _ _ hrun => ⟨Conn.log_of_first hrun, fun _ hlast hfinal =>
    Conn.log_of_final hlast hfinal hrun⟩, Conn.exists_run_of_first server env junk hlen⟩

namespace EchoServer

/-- A client of the tcp session, which is the last to be tried. -/
theorem dispatches_echo :
    ∃ n c, n ≤ 5 ∧
      Conn.Run (myServer noFiles) answering AnyStep (.readCompletes #v[0, 0, 0, 0] 0
        (chars "\x7b21BB758F-BC6A-42C4-92B1-6B5332CEAEBF\x7d") :: List.replicate n .call) c ∧
      c.log.getLast? = some (.onHandshakeSuccess .tcp) := by
  obtain ⟨-, n, c, hn, hrun, hlog⟩ := dispatches (myServer noFiles) answering #v[0, 0, 0, 0]
    (chars "\x7b21BB758F-BC6A-42C4-92B1-6B5332CEAEBF\x7d") (by decide)
  refine ⟨n, c, hn, hrun, ?_⟩
  rw [hlog]
  decide

/-! ## The echo server -/

/-- The sessions that compare what they are offered with a GUID. -/
def guidOffers (tag : HandShake) (first : List UInt8) : List Event :=
  .doNextHandshake 1 tag first ::
    if chars "\x7b40CBD5AC-856A-4EA5-AE00-DFB199ABED64\x7d" = first then
      [.onHandshakeSuccess .serialization]
    else
      .doNextHandshake 0 tag first ::
        if chars "\x7b21BB758F-BC6A-42C4-92B1-6B5332CEAEBF\x7d" = first then
          [.onHandshakeSuccess .tcp]
        else [.stop .unableToConnect]

/-- What the five sessions make of a first read. -/
def outcome (site : HttpServer.Site) (env : Env) (first : List UInt8) : List Event :=
  match upgradeOf env.boost first with
  | some reply => [.asyncWrite (.upgrade reply) (Response.upgrade reply).toBuffers]
  | none =>
      if contains (chars "Sec-WebSocket-Key:") first then
        .doNextHandshake 3 .none first :: .doNextHandshake 2 .none first :: guidOffers .none first
      else
        .doNextHandshake 3 .http first ::
          match HttpServer.parseRequest .methodStart .new first with
          | (.true, (_, req), _) =>
              let reply := HttpServer.handleRequest site req
              [.asyncWrite (.http reply) (Response.http reply).toBuffers]
          | (.false, _, _) => .doNextHandshake 2 .http first :: guidOffers .http first
          | (.indeterminate, _, _) => []

section Outcome

variable {site : HttpServer.Site} {env : Env} {tag : HandShake} {first : List UInt8}

/-- A session that passes an offer on. -/
theorem offers_cons_of_none {server : Server} {protocolIndex : UInt32} {later : List UInt32}
    {session : Session} (hsession : server.doNextHandshake protocolIndex = some session)
    (htakes : session.takes env tag first = none) :
    offers server env tag first (protocolIndex :: later) =
      .doNextHandshake protocolIndex tag first :: offers server env tag first later := by
  rw [offers, hsession]
  dsimp only
  rw [htakes]

/-- And one that takes it. -/
theorem offers_cons_of_some {server : Server} {protocolIndex : UInt32} {later : List UInt32}
    {session : Session} {events : List Event}
    (hsession : server.doNextHandshake protocolIndex = some session)
    (htakes : session.takes env tag first = some events) :
    offers server env tag first (protocolIndex :: later) =
      .doNextHandshake protocolIndex tag first :: events := by
  rw [offers, hsession]
  dsimp only
  rw [htakes]

/-- `tcp_session::handshake` with a `try_handshake` that compares with a GUID. -/
theorem offers_guid (site : HttpServer.Site) :
    offers (myServer site) env tag first [1, 0] = guidOffers tag first := by
  have hser : (myServer site).doNextHandshake 1 = some mySerializationSession := rfl
  have htcp : (myServer site).doNextHandshake 0 = some myTcpSession := rfl
  have htakesSer : mySerializationSession.takes env tag first =
      if chars "\x7b40CBD5AC-856A-4EA5-AE00-DFB199ABED64\x7d" = first then
        some [.onHandshakeSuccess .serialization] else none := by
    simp only [mySerializationSession, Session.takes, tryGuid, beq_iff_eq]
  have htakesTcp : myTcpSession.takes env tag first =
      if chars "\x7b21BB758F-BC6A-42C4-92B1-6B5332CEAEBF\x7d" = first then
        some [.onHandshakeSuccess .tcp] else none := by
    simp only [myTcpSession, Session.takes, tryGuid, beq_iff_eq]
  unfold guidOffers
  split_ifs with hserGuid htcpGuid
  · exact offers_cons_of_some hser (htakesSer.trans (if_pos hserGuid))
  · rw [offers_cons_of_none hser (htakesSer.trans (if_neg hserGuid)),
      offers_cons_of_some htcp (htakesTcp.trans (if_pos htcpGuid))]
  · rw [offers_cons_of_none hser (htakesSer.trans (if_neg hserGuid)),
      offers_cons_of_none htcp (htakesTcp.trans (if_neg htcpGuid)), offers]

/-- The dispatch of the echo server, case by case. -/
theorem dispatch_myServer (site : HttpServer.Site) (env : Env) (first : List UInt8) :
    dispatch (myServer site) env first = outcome site env first := by
  have hhttp : (myServer site).doNextHandshake 3 = some (myHttpSession site) := rfl
  have hlog : (myServer site).doNextHandshake 2 = some myLogSession := rfl
  have hcount : countdown (myServer site).protocolCount = [3, 2, 1, 0] := by
    show countdown 5 = [3, 2, 1, 0]
    decide
  unfold outcome
  cases hup : upgradeOf env.boost first with
  | some reply =>
      have hkey := contains_of_upgradeOf hup
      simp [dispatch, myServer, myWsSession, Session.takesFirst, hkey, WsClass.takesRequest, hup]
  | none =>
      have hws : WsClass.takesRequest env first = none := by rw [WsClass.takesRequest, hup]; rfl
      by_cases hkey : contains (chars "Sec-WebSocket-Key:") first
      · have hfirst : (myServer site).constructSession.takesFirst env first = .error .none := by
          simp [myServer, myWsSession, Session.takesFirst, hkey, hws]
        rw [if_pos hkey, dispatch, hfirst]
        dsimp only
        rw [hcount, offers_cons_of_none hhttp rfl, offers_cons_of_none hlog rfl, offers_guid]
      · have hfirst : (myServer site).constructSession.takesFirst env first = .error .http := by
          simp [myServer, myWsSession, Session.takesFirst, hkey]
        rw [if_neg hkey, dispatch, hfirst]
        dsimp only
        rw [hcount]
        have htakes : (myHttpSession site).takes env .http first =
            HttpSession.takesRequest site first := rfl
        rw [HttpSession.takesRequest, if_neg hkey] at htakes
        rcases hparse : HttpServer.parseRequest .methodStart .new first with
          ⟨result, ⟨state, req⟩, rest⟩
        rw [hparse] at htakes
        cases result with
        | true => exact offers_cons_of_some hhttp htakes
        | indeterminate => exact offers_cons_of_some hhttp htakes
        | false =>
            have htakesLog : myLogSession.takes env .http first = none := hws
            rw [offers_cons_of_none hhttp htakes, offers_cons_of_none hlog htakesLog, offers_guid]

/-- What the sessions make of data that begins with a brace, as a GUID does and a request
does not: it gets to those that compare it. -/
theorem outcome_brace (site : HttpServer.Site) (env : Env) (rest : List UInt8) :
    ∃ tag, outcome site env (0x7b :: rest) =
      .doNextHandshake 3 tag (0x7b :: rest) :: .doNextHandshake 2 tag (0x7b :: rest) ::
        guidOffers tag (0x7b :: rest) := by
  have hparse : HttpServer.parseRequest .methodStart .new (0x7b :: rest) =
      (.false, (.methodStart, .new), rest) := rfl
  have hup : upgradeOf env.boost (0x7b :: rest) = none := by
    refine Rfc6455Engine.upgradeOf_of_not_true ?_
    show (HttpServer.parseRequest .methodStart .new (0x7b :: rest)).1 ≠ .true
    rw [hparse]
    nofun
  rw [outcome, hup]
  dsimp only
  split_ifs
  · exact ⟨_, rfl⟩
  · rw [hparse]
    exact ⟨_, rfl⟩

/-- The offers of a GUID end with a last event. -/
theorem final_guidOffers (tag : HandShake) (first : List UInt8) :
    ∃ e, (guidOffers tag first).getLast? = some e ∧ e.Final := by
  unfold guidOffers
  split_ifs
  · exact ⟨_, rfl, Kind.noConfusion⟩
  · exact ⟨_, rfl, Kind.noConfusion⟩
  · exact ⟨_, rfl, trivial⟩

/-- With such data the server is done. -/
theorem final_outcome (site : HttpServer.Site) (env : Env) (rest : List UInt8) :
    ∃ e, (outcome site env (0x7b :: rest)).getLast? = some e ∧ e.Final := by
  obtain ⟨tag, houtcome⟩ := outcome_brace site env rest
  obtain ⟨e, hlast, hfinal⟩ := final_guidOffers tag (0x7b :: rest)
  exact ⟨e, by rw [houtcome, List.getLast?_cons, List.getLast?_cons, hlast]; rfl, hfinal⟩

end Outcome

end EchoServer

end Splice

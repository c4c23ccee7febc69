import Splice.Exchange
import Splice.RequestAnswer

/-!
# Splice.Segmentation

An upgrade request that arrives in several reads.  Both servers decide on the first read
alone: a 101 is written only if that read is a whole request (`upgrade_of_firstRead` and
its counterpart for a mono protocol server), so a request that is cut is not answered.
-/

namespace Splice

open Incremental (Tribool)
open Transition Rfc6455Engine

/-- The reads that have completed. -/
def readsOf (log : List Event) : List (List UInt8) := log.filterMap Event.incoming

@[simp] theorem readsOf_append (log more : List Event) :
    readsOf (log ++ more) = readsOf log ++ readsOf more := List.filterMap_append

theorem firstRead_eq_head? (log : List Event) : firstRead log = (readsOf log).head? :=
  (List.head?_filterMap).symm

/-- The completion of a read or a write brings no error. -/
def Label.Succeeds : Label → Prop
  | .call => True
  | .readCompletes _ error _ | .writeCompletes error => error = 0

/-- Every 101 in a log is the answer to the first read. -/
def UpgradesFirstRead (boost : Boost) (log : List Event) : Prop :=
  ∀ reply, .upgrade reply ∈ responses log →
    ∃ first, firstRead log = some first ∧ upgradeOf boost first = some reply

/-! ## What writes a 101 -/

section Upgrade

variable {η : Type} {h : η} {store : Store} {incoming : HandShakeData} {env : Env}
  {session : Session} {up : WsClass} {next : Next η} {ran : Store × Next η} {error : ErrorCode}
  {reply : Reply}

@[simp] theorem upgrade_handshakeFail : (Next.handshakeFail h incoming).upgrade = none := rfl

@[simp] theorem upgrade_asyncReadSome (incomingData : Nat) (handler : ReadHandler η) :
    (Next.asyncReadSome incomingData handler).upgrade = none := rfl

@[simp] theorem upgrade_http (reply : HttpServer.Reply) (handler : WriteHandler η) :
    (Next.asyncWrite (.http reply) handler).upgrade = none := rfl

@[simp] theorem upgrade_onHandshakeSuccess (kind : Kind) (calls : List WsSession.Call) :
    (Next.onHandshakeSuccess (η := η) kind calls).upgrade = none := rfl

@[simp] theorem upgrade_stop (ending : Ending) : (Next.stop (η := η) ending).upgrade = none := rfl

/-- The 101 of a handler is a reply that is seen of it. -/
theorem Next.mem_responses_events :
    .upgrade reply ∈ responses next.events ↔ next.upgrade = some reply := by
  cases next with
  | asyncWrite response handler => cases response <;> simp [Next.events, Next.upgrade, eq_comm]
  | handshakeFail | asyncReadSome | onHandshakeSuccess | stop =>
      simp [Next.events, Next.upgrade]

/-- `first_write` upgrades with the 101 of the bytes it is given. -/
theorem WsHandshake.FirstWrite.upgradeOf_eq {boost : Boost}
    (hends : FirstWrite boost up h store incoming next) (hreply : next.upgrade = some reply) :
    upgradeOf boost (incoming.string store) = some reply := by
  cases hends with
  | fails => cases hreply
  | writes hparse hstatus =>
      rw [upgradeOf_of_parse hparse, if_pos ((status_iff _ _).mp hstatus)]
      exact hreply

theorem WsHandshake.DoCustomHandshake.upgrade_eq
    (hends : DoCustomHandshake up h store incoming next) : next.upgrade = none := by
  cases hends <;> rfl

theorem WsHandshake.OnSecondRead.upgrade_eq (hends : OnSecondRead up h reply store error ran) :
    ran.2.upgrade = none := by
  cases hends <;> rfl

/-- `on_guid_read` writes no 101. -/
theorem WsHandshake.OnGuidRead.upgrade_eq {host : Endian} {junk : MaskingKey}
    {frameParser : DataFrameParser.State} {bytes : List UInt8}
    (hends : OnGuidRead host junk up h store frameParser error bytes ran) :
    ran.2.upgrade = none := by
  cases hends with
  | error | invalid | nothing => rfl
  | guid _ _ hcustom => exact hcustom.upgrade_eq

/-- `handle_read` writes no 101. -/
theorem HttpSession.HandleRead.upgrade_eq {operationAborted : ErrorCode} {site : HttpServer.Site}
    {requestParser : RequestParser.State} {request : Request} {buffer bytesTransferred : Nat}
    (hends : HandleRead operationAborted site requestParser request store buffer error
      bytesTransferred next) : next.upgrade = none := by
  cases hends <;> rfl

theorem HttpSession.HandleWrite.upgrade_eq {operationAborted : ErrorCode}
    (hends : HandleWrite operationAborted error next) : next.upgrade = none := by
  cases hends <;> rfl

/-- A first read is upgraded with its own 101, and only by a WebSocket session. -/
theorem Session.OnFirstRead.upgradeOf_eq {incomingData bytesTransferred : Nat}
    (hends : OnFirstRead env h store incomingData bytesTransferred error session next)
    (hreply : next.upgrade = some reply) :
    (∃ up, session = .ws up) ∧
      upgradeOf env.boost (store.front incomingData bytesTransferred) = some reply := by
  cases hends with
  | @firstWrite up _ _ hwrite => exact ⟨⟨up, rfl⟩, hwrite.upgradeOf_eq hreply⟩
  | _ => cases hreply

/-- A handshake upgrades only with data tagged `http`. -/
theorem Session.Handshake.upgradeOf_eq (hends : Handshake env h store incoming session next)
    (hreply : next.upgrade = some reply) :
    incoming.tag = .http ∧ upgradeOf env.boost (incoming.string store) = some reply := by
  cases hends with
  | firstWrite htag hwrite => exact ⟨htag, hwrite.upgradeOf_eq hreply⟩
  | doCustomHandshake _ hcustom => simp [hcustom.upgrade_eq] at hreply
  | onFirstRead _ hread =>
      obtain ⟨⟨up, hup⟩, -⟩ := hread.upgradeOf_eq hreply
      cases hup
  | passes | succeeds => cases hreply

end Upgrade

namespace Conn

variable {server : Server} {env : Env} {c c' : Conn} {events : List Event}
  {ran : Store × Next UInt32}

/-- What a handler adds: a 101 that answers the first read, or none. -/
theorem upgradesFirstRead_proceed (hlog : UpgradesFirstRead env.boost c.log)
    (hevents : responses events = [])
    (hran : ∀ reply, ran.2.upgrade = some reply →
      ∃ first, firstRead (c.log ++ events) = some first ∧ upgradeOf env.boost first = some reply) :
    UpgradesFirstRead env.boost (c.proceed events ran).log := by
  intro reply hreply
  rw [proceed, responses_append, responses_append, hevents, List.append_nil] at hreply
  show ∃ first, firstRead (c.log ++ events ++ ran.2.events) = some first ∧ _
  rcases List.mem_append.mp hreply with hold | hnew
  · obtain ⟨first, hfirst, hupgrade⟩ := hlog reply hold
    exact ⟨first, by simp [hfirst], hupgrade⟩
  · obtain ⟨first, hfirst, hupgrade⟩ := hran reply (Next.mem_responses_events.mp hnew)
    exact ⟨first, by rw [firstRead_append, hfirst, Option.some_or], hupgrade⟩

/-- A handler that writes no 101 adds none. -/
theorem upgradesFirstRead_proceed_none (hlog : UpgradesFirstRead env.boost c.log)
    (hevents : responses events = []) (hran : ran.2.upgrade = none) :
    UpgradesFirstRead env.boost (c.proceed events ran).log :=
  upgradesFirstRead_proceed hlog hevents fun reply hreply => by simp [hran] at hreply

@[simp] theorem responses_wsSession (calls : List WsSession.Call) :
    responses (calls.map .wsSession) = [] := by
  simp [responses, List.filterMap_eq_nil_iff]

/-- The calls of an established session write no 101. -/
theorem upgradesFirstRead_wsSession (hlog : UpgradesFirstRead env.boost c.log)
    (hevents : responses events = []) (store : Store) (incomingData : Nat)
    (calls : List WsSession.Call) :
    UpgradesFirstRead env.boost (c.wsSession events store incomingData calls).log := by
  refine upgradesFirstRead_proceed_none hlog (by simp [hevents]) ?_
  dsimp only
  split <;> rfl

/-- Every step keeps to it: a 101 answers the first read. -/
theorem upgradesFirstRead_step {h : UInt32} {label : Label} (hfits : c.Fits h)
    (hlog : UpgradesFirstRead env.boost c.log) (hstep : c.step server env label = some c') :
    UpgradesFirstRead env.boost c'.log := by
  obtain ⟨x, hrun, hnext⟩ := hfits
  have hsums := Exchange.sums_of_run hrun
  cases steps_of_step hstep with
  | handshakeFail hc hfalls =>
      rw [hc] at hnext
      obtain ⟨-, hoffers⟩ := hnext
      cases hfalls with
      | unable => exact upgradesFirstRead_proceed_none hlog rfl rfl
      | asserts => exact upgradesFirstRead_proceed_none hlog (by simp) rfl
      | tries _ _ hhandshake =>
          refine upgradesFirstRead_proceed hlog (by simp) fun reply hreply => ?_
          obtain ⟨htag, hupgrade⟩ := hhandshake.upgradeOf_eq hreply
          obtain rfl := hoffers.undecided (by simp [htag])
          exact ⟨_, by simp [hsums.1], hupgrade⟩
  | onHandshakeSuccess => exact upgradesFirstRead_wsSession hlog rfl _ _ _
  | @asyncReadSome incomingData handler junk error incoming hc hlen =>
      rw [hc] at hnext
      cases handler with
      | onFirstRead session handshakeFail =>
          obtain ⟨-, rfl, hdata⟩ := hnext
          refine upgradesFirstRead_proceed hlog (by simp) fun reply hreply => ?_
          obtain ⟨-, hupgrade⟩ := Session.onFirstRead_ends.upgradeOf_eq hreply
          rw [Store.front_fill c.store hdata hlen] at hupgrade
          exact ⟨incoming, by simp [hsums.1], hupgrade⟩
      | onGuidRead up handshakeFail frameParser =>
          exact upgradesFirstRead_proceed_none hlog (by simp) WsHandshake.onGuidRead_ends.upgrade_eq
      | handleRead site requestParser request =>
          exact upgradesFirstRead_proceed_none hlog (by simp) HttpSession.handleRead_ends.upgrade_eq
      | onReadDataframe frameParser => exact upgradesFirstRead_wsSession hlog (by simp) _ _ _
  | @asyncWrite response handler error hc =>
      cases handler with
      | onSecondRead up handshakeFail reply =>
          exact upgradesFirstRead_proceed_none hlog rfl WsHandshake.onSecondRead_ends.upgrade_eq
      | handleWrite =>
          exact upgradesFirstRead_proceed_none hlog rfl HttpSession.handleWrite_ends.upgrade_eq

/-- **A 101 answers the first read**, in every run. -/
theorem upgrade_of_firstRead {guard : Conn → Label → Prop} {labels : List Label}
    (hrun : Run server env guard labels c) : UpgradesFirstRead env.boost c.log := by
  have hinv := Reaches.invariant
    (I := fun _ c => (∃ h, c.Fits h) ∧ UpgradesFirstRead env.boost c.log)
    ⟨⟨_, fits_onAccept server⟩, fun _ hreply => by simp [onAccept] at hreply⟩
    (fun _ c _ c' hc _ hstep => ?_) hrun
  · exact hinv.2
  · obtain ⟨⟨h, hfits⟩, hlog⟩ := hc
    exact ⟨fits_step hfits hstep, upgradesFirstRead_step hfits hlog hstep⟩

end Conn

namespace MonoProtocol

/-- `on_first_read` starts no read. -/
theorem OnFirstRead.not_reads {error : ErrorCode} {next : MonoProtocol.Next}
    (hends : OnFirstRead error next) (buffer : Nat) :
    next ≠ .asyncReadSome buffer .onFirstRead := by
  cases hends <;> simp

/-- `on_second_read` starts no read and writes no 101. -/
theorem OnSecondRead.quiet {reply : Reply} {error : ErrorCode}
    {next : MonoProtocol.Next} (hends : OnSecondRead reply error next) :
    (∀ buffer, next ≠ .asyncReadSome buffer .onFirstRead) ∧ next.upgrade = none := by
  cases hends <;> simp [Next.upgrade]

end MonoProtocol

namespace MonoProtocol.Conn

variable {env : Env} {calls : List WsSession.Call} {c c' : Conn} {events : List Event}
  {store : Store} {next : Next}

/-- Every 101 answers the first read, and before the first read there is none. -/
def Keeps (boost : Boost) (c : Conn) : Prop :=
  UpgradesFirstRead boost c.log ∧
    ∀ incomingData, c.next = .asyncReadSome incomingData .onFirstRead →
      incomingData < c.store.length ∧ firstRead c.log = none

theorem mem_responses_events {reply : Reply} :
    .upgrade reply ∈ responses next.events ↔ next.upgrade = some reply := by
  cases next <;> simp [Next.events, Next.upgrade, eq_comm]

/-- A handler that starts no first read and writes no other 101 keeps to it. -/
theorem keeps_proceed (hlog : UpgradesFirstRead env.boost c.log) (hevents : responses events = [])
    (hnext : ∀ incomingData, next ≠ .asyncReadSome incomingData .onFirstRead)
    (hupgrade : ∀ reply, next.upgrade = some reply →
      ∃ first, firstRead (c.log ++ events) = some first ∧ upgradeOf env.boost first = some reply) :
    (c.proceed events store next).Keeps env.boost := by
  refine ⟨fun reply hreply => ?_, fun incomingData h => absurd h (hnext incomingData)⟩
  rw [proceed, responses_append, responses_append, hevents, List.append_nil] at hreply
  show ∃ first, firstRead (c.log ++ events ++ next.events) = some first ∧ _
  rcases List.mem_append.mp hreply with hold | hnew
  · obtain ⟨first, hfirst, hupgrade⟩ := hlog reply hold
    exact ⟨first, by simp [hfirst], hupgrade⟩
  · obtain ⟨first, hfirst, hupgrade⟩ := hupgrade reply (mem_responses_events.mp hnew)
    exact ⟨first, by rw [firstRead_append, hfirst, Option.some_or], hupgrade⟩

/-- The calls of the established session keep to it. -/
theorem keeps_wsSession (hlog : UpgradesFirstRead env.boost c.log) (hevents : responses events = [])
    (store : Store) (incomingData : Nat) (calls : List WsSession.Call) :
    (c.wsSession events store incomingData calls).Keeps env.boost := by
  refine keeps_proceed hlog (by simp [hevents]) ?_ ?_
  · intro incomingData h
    split at h <;> simp at h
  · intro reply h
    split at h <;> simp [Next.upgrade] at h

/-- Every step keeps to it. -/
theorem keeps_step {label : Label} (hkeeps : c.Keeps env.boost)
    (hstep : c.step env calls label = some c') : c'.Keeps env.boost := by
  obtain ⟨hlog, hfirst⟩ := hkeeps
  unfold step at hstep
  split at hstep
  · split at hstep
    · obtain rfl := Option.some.inj hstep
      exact keeps_wsSession hlog rfl _ _ _
    · cases hstep
  · next junk error incoming =>
      split at hstep
      · next incomingData handler hnext =>
          obtain ⟨hlen, hstep⟩ := Option.ite_none_right_eq_some.mp hstep
          obtain rfl := Option.some.inj hstep
          cases handler with
          | onFirstRead =>
              obtain ⟨hdata, hnone⟩ := hfirst incomingData hnext
              refine keeps_proceed hlog (by simp) onFirstRead_ends.not_reads ?_
              intro reply hreply
              rw [MonoProtocol.upgrade_onFirstRead, Store.front_fill c.store hdata hlen] at hreply
              exact ⟨incoming, by simp [hnone], (Option.ite_none_right_eq_some.mp hreply).2⟩
          | onReadDataframe frameParser => exact keeps_wsSession hlog (by simp) _ _ _
      · cases hstep
  · split at hstep
    · next _ reply _ =>
        obtain rfl := Option.some.inj hstep
        obtain ⟨hreads, hupgrade⟩ := onSecondRead_ends.quiet
        exact keeps_proceed hlog rfl hreads (by simp [hupgrade])
    · cases hstep

/-- **A 101 answers the first read**, in every run. -/
theorem upgrade_of_firstRead {guard : Conn → Label → Prop} {labels : List Label}
    (hrun : Run env calls guard labels c) : UpgradesFirstRead env.boost c.log := by
  have hinv := Reaches.invariant (I := fun _ c => c.Keeps env.boost) ?_
    (fun _ c _ c' hc _ hstep => keeps_step hc hstep) hrun
  · exact hinv.1
  · refine ⟨fun _ hreply => by simp [onAccept] at hreply, fun incomingData h => ?_⟩
    obtain ⟨rfl, -⟩ := Next.asyncReadSome.inj h
    exact ⟨by simp [onAccept, Store.mkIncomingData], rfl⟩

end MonoProtocol.Conn

/-! ## Requests that are cut -/

/-- A multi protocol server writes this 101 while it is given these reads. -/
def AnswersReads (server : Server) (env : Env) (reads : List (List UInt8)) (reply : Reply) : Prop :=
  ∃ labels c, Conn.Run server env (fun _ label => label.Succeeds) labels c ∧
    readsOf c.log <+: reads ∧ .upgrade reply ∈ responses c.log

/-- A mono protocol server writes this 101 while it is given these reads. -/
def MonoProtocol.AnswersReads (env : Env) (calls : List WsSession.Call) (reads : List (List UInt8))
    (reply : Reply) : Prop :=
  ∃ labels c, MonoProtocol.Conn.Run env calls (fun _ label => label.Succeeds) labels c ∧
    readsOf c.log <+: reads ∧ .upgrade reply ∈ responses c.log

section Cut

variable {server : Server} {env : Env} {up : WsClass} {calls : List WsSession.Call}
  {log : List Event} {request : List UInt8} {state : RequestParser.State} {req : Request}
  {reads : List (List UInt8)} {reply : Reply}

/-- A 101 while a request is read means that the first read is all of it. -/
theorem eq_singleton_of_upgrades {boost : Boost} (hlog : UpgradesFirstRead boost log)
    (hcut : reads.flatten = request) (hparse : parseRequest request = (.true, (state, req), []))
    (hne : ∀ read ∈ reads, read ≠ []) (hreads : readsOf log <+: reads)
    (hreply : .upgrade reply ∈ responses log) : reads = [request] := by
  obtain ⟨first, hfirst, hupgrade⟩ := hlog reply hreply
  rw [firstRead_eq_head?, List.head?_eq_some_iff] at hfirst
  obtain ⟨more, hmore⟩ := hfirst
  obtain ⟨others, rfl⟩ := hreads
  rw [hmore, List.cons_append] at hcut hne ⊢
  rw [List.flatten_cons] at hcut
  by_cases hothers : (more ++ others).flatten = []
  · have hnil : more ++ others = [] := by
      rw [List.eq_nil_iff_forall_not_mem]
      intro read hread
      exact hne read (by simp [hread]) (List.flatten_eq_nil_iff.mp hothers read hread)
    simp [← hcut, hnil]
  · rw [← hcut] at hparse
    obtain ⟨s, hs, -⟩ := Incremental.parse_prefix_indeterminate hparse hothers
    have hfirst : (parseRequest first).1 ≠ .true := by
      rw [parseRequest, RequestParser.parse, hs]
      simp
    rw [upgradeOf_of_not_true hfirst] at hupgrade
    cases hupgrade

/-- A request that comes whole in the first read is answered with its 101. -/
theorem answersReads_singleton (hws : server.constructSession = .ws up)
    (hlen : request.length ≤ 8192) (hupgrade : upgradeOf env.boost request = some reply) :
    AnswersReads server env [request] reply := by
  have hnext : (Conn.afterFirstRead server env request).next = _ :=
    Conn.next_afterFirstRead hws hlen
  simp only [contains_of_upgradeOf hupgrade, hupgrade, if_true] at hnext
  have hlog : (Conn.afterFirstRead server env request).log = _ := Conn.log_afterFirstRead
  rw [hnext] at hlog
  refine ⟨[.readCompletes #v[0, 0, 0, 0] 0 request], _,
    reaches_cons.mpr ⟨_, rfl, Conn.step_firstRead hlen, .init⟩, ?_, ?_⟩
  · simp [hlog, readsOf, Next.events]
  · simp [hlog, Next.events]

/-- The same holds of a mono protocol server. -/
theorem MonoProtocol.answersReads_singleton (hlen : request.length ≤ 8192)
    (hupgrade : upgradeOf env.boost request = some reply) :
    MonoProtocol.AnswersReads env calls [request] reply := by
  have hfirst : MonoProtocol.onFirstRead env.boost (Conn.firstStore request) 0 request.length 0 =
      .asyncWrite reply := by
    simp [MonoProtocol.onFirstRead, MonoProtocol.firstWrite_eq, HandShakeData.string,
      Conn.front_firstStore hlen, hupgrade]
  have hstep : MonoProtocol.Conn.onAccept.step env calls (.readCompletes #v[0, 0, 0, 0] 0 request) =
      some (MonoProtocol.Conn.onAccept.proceed [.read request] (Conn.firstStore request)
        (.asyncWrite reply)) := by
    rw [← hfirst]
    simp [MonoProtocol.Conn.step, MonoProtocol.Conn.onAccept, Store.mkIncomingData, hlen,
      MonoProtocol.Conn.completeRead, Conn.firstStore]
  refine ⟨[.readCompletes #v[0, 0, 0, 0] 0 request], _,
    reaches_cons.mpr ⟨_, rfl, hstep, .init⟩, ?_, ?_⟩
  · simp [readsOf, MonoProtocol.Conn.proceed, MonoProtocol.Conn.onAccept, MonoProtocol.Next.events]
  · simp [MonoProtocol.Conn.proceed, MonoProtocol.Conn.onAccept, MonoProtocol.Next.events]

end Cut

/-- **An upgrade request is answered** by either server exactly if its first read is all
of it. -/
theorem answersReads_iff (server : Server) (env : Env) (up : WsClass)
    (calls : List WsSession.Call) (hws : server.constructSession = .ws up)
    (request : List UInt8) (state : RequestParser.State) (req : Request)
    (hparse : parseRequest request = (.true, (state, req), [])) (hkey : HasKey req)
    (reads : List (List UInt8)) (hcut : reads.flatten = request)
    (hne : ∀ read ∈ reads, read ≠ []) (hlen : ∀ read ∈ reads, read.length ≤ 8192) :
    (AnswersReads server env reads (handleRequest env.boost req) ↔ reads = [request]) ∧
      (MonoProtocol.AnswersReads env calls reads (handleRequest env.boost req) ↔
        reads = [request]) := by
  have hupgrade : upgradeOf env.boost request = some (handleRequest env.boost req) := by
    simp [upgradeOf_of_parse hparse, hkey]
  refine ⟨⟨?_, ?_⟩, ?_, ?_⟩
  · rintro ⟨labels, c, hrun, hreads, hreply⟩
    exact eq_singleton_of_upgrades (Conn.upgrade_of_firstRead hrun) hcut hparse hne hreads hreply
  · rintro rfl
    exact answersReads_singleton hws (hlen request (by simp)) hupgrade
  · rintro ⟨labels, c, hrun, hreads, hreply⟩
    exact eq_singleton_of_upgrades (MonoProtocol.Conn.upgrade_of_firstRead hrun) hcut hparse hne
      hreads hreply
  · rintro rfl
    exact MonoProtocol.answersReads_singleton (hlen request (by simp)) hupgrade

section Echo

open EchoServer

/-- The upgrade request of a client of the echo server, in one read. -/
theorem answersReads_iff_echo :
    AnswersReads (myServer noFiles) answering [upgradeRequest] upgradeReply ∧
      MonoProtocol.AnswersReads answering WsSession.onHandshakeSuccess [upgradeRequest]
        upgradeReply := by
  have hparse := parse_upgradeRequest
  have hreply : handleRequest answering.boost (parseRequest upgradeRequest).2.1.2 =
      upgradeReply := by decide
  have hlen : ∀ read ∈ [upgradeRequest], read.length ≤ 8192 := by decide
  obtain ⟨hmulti, hmono⟩ := answersReads_iff (myServer noFiles) answering _
    WsSession.onHandshakeSuccess rfl upgradeRequest _ _ hparse (by decide) [upgradeRequest]
    (by simp) (by decide) hlen
  rw [hreply] at hmulti hmono
  exact ⟨hmulti.mpr rfl, hmono.mpr rfl⟩

/-- That request in two reads, with the name of the key's header in both. -/
def cutRequest : List (List UInt8) := [upgradeRequest.take 45, upgradeRequest.drop 45]

/-- **A request that is cut is not answered**, by either server. -/
theorem answersReads_counterexample :
    cutRequest.flatten = upgradeRequest ∧
      ¬ AnswersReads (myServer noFiles) answering cutRequest upgradeReply ∧
      ¬ MonoProtocol.AnswersReads answering WsSession.onHandshakeSuccess cutRequest
        upgradeReply := by
  have hparse := parse_upgradeRequest
  have hcut : cutRequest.flatten = upgradeRequest := by simp [cutRequest]
  have hne : ∀ read ∈ cutRequest, read ≠ [] := by decide
  have htwo : cutRequest ≠ [upgradeRequest] := by simp [cutRequest]
  refine ⟨hcut, ?_, ?_⟩
  · rintro ⟨labels, c, hrun, hreads, hreply⟩
    exact htwo (eq_singleton_of_upgrades (Conn.upgrade_of_firstRead hrun) hcut hparse hne hreads
      hreply)
  · rintro ⟨labels, c, hrun, hreads, hreply⟩
    exact htwo (eq_singleton_of_upgrades (MonoProtocol.Conn.upgrade_of_firstRead hrun) hcut hparse
      hne hreads hreply)

end Echo

end Splice

import Splice.EchoServer
import Splice.Exchange

/-!
# Splice.Upgrade

What holds of a connection once a 101 Switching Protocols has been written: there is no
second reply, and only data of a frame is handed on.  That only WebSocket sessions are
established from then on is up to the others: `tcp_session::handshake` does not look
at the tag, as `http_session::handshake` and `ws_handshake::handshake` do.
-/

namespace Splice

open Transition

/-! ## One reply -/

/-- After an upgrade, everything handed on is tagged `ws_guid`. -/
def TagsGuid (log : List Event) : Prop :=
  Throughout (fun past e => Upgraded past → ∀ protocolIndex tag incoming,
    e = .doNextHandshake protocolIndex tag incoming → tag = .wsGuid) log

namespace Exchange

variable {log : List Event} {x : Exchange}

/-- An exchange holds one reply, or none while it is undecided. -/
theorem length_responses_le (h : Run log x) : (responses log).length ≤ 1 := by
  have hsums := sums_of_run h
  cases x with
  | unread | undecided first => simp [hsums.2]
  | upgraded | answered =>
      obtain ⟨reply, hreply⟩ := hsums
      simp [hreply]

/-- An exchange that is upgraded is offered only data of a frame. -/
theorem tagsGuid (h : Run log x) : TagsGuid log := by
  refine Reaches.throughout (I := Run) .init ?_ ?_ h
  · intro past x e x' hrun hguard hnext
    exact .step hrun hguard hnext
  · rintro past x e x' hrun - hnext hupgraded protocolIndex tag incoming rfl
    obtain ⟨hoffers, -⟩ := Option.ite_none_right_eq_some.mp hnext
    rw [(upgraded_iff hrun).mp hupgraded] at hoffers
    exact hoffers

end Exchange

/-- On a connection at most one reply is written, the 101 of `first_write` or the reply
of an `http_session`; and after a 101 every later hand-over is tagged `ws_guid`. -/
theorem responses_at_most_one (server : Server) (env : Env) (labels : List Label) (c : Conn)
    (hrun : Conn.Run server env AnyStep labels c) :
    (responses c.log).length ≤ 1 ∧ TagsGuid c.log := by
  obtain ⟨h, x, hexchange, -⟩ := Conn.fits_of_run hrun
  exact ⟨Exchange.length_responses_le hexchange, Exchange.tagsGuid hexchange⟩

section Echo

open EchoServer

/-- A client that upgrades and whose GUID no session of the echo server takes. -/
theorem responses_at_most_one_echo :
    ∃ c, Conn.Run (myServer noFiles) answering AnyStep
        (upgradeWith "\x7b00000000-0000-0000-0000-000000000000\x7d" ++ List.replicate 5 .call) c ∧
      tried c.log = [3, 2, 1, 0] ∧ (responses c.log).length ≤ 1 ∧ TagsGuid c.log := by
  have hclient : ∃ c, Conn.Run (myServer noFiles) answering AnyStep
      (upgradeWith "\x7b00000000-0000-0000-0000-000000000000\x7d" ++ List.replicate 5 .call) c ∧
        tried c.log = [3, 2, 1, 0] :=
    Reaches.exists_of_runFrom (fun c : Conn => tried c.log) (by decide)
  obtain ⟨c, hrun, htried⟩ := hclient
  exact ⟨c, hrun, htried, responses_at_most_one _ _ _ c hrun⟩

end Echo

/-! ## Who is established -/

/-- After an upgrade, only WebSocket sessions are established. -/
def StaysWebSocket (log : List Event) : Prop :=
  Throughout (fun past e => Upgraded past → ∀ kind, e = .onHandshakeSuccess kind →
    kind = .webSocket) log

/-- A session that is not a WebSocket session refuses data of a frame. -/
def RefusesGuid (server : Server) (c : Conn) : Label → Prop
  | .call => ∀ handler incoming protocolIndex session,
      c.next = .handshakeFail handler incoming → onHandshakeFail handler = some protocolIndex →
      server.doNextHandshake protocolIndex = some session → incoming.tag = .wsGuid →
      session.acceptsUnframed incoming.tag (incoming.string c.store) = false
  | .readCompletes _ _ _ | .writeCompletes _ => True

/-- A handler does not establish a session that reads without frames. -/
def Next.Framed {η : Type} (next : Next η) : Prop :=
  ∀ kind calls, next = .onHandshakeSuccess kind calls → kind = .webSocket

section Framed

variable {η : Type} {env : Env} {session : Session} {h : η} {store : Store}
  {incoming : HandShakeData} {up : WsClass} {next : Next η} {ran : Store × Next η}
  {error : ErrorCode}

@[simp] theorem framed_handshakeFail : (Next.handshakeFail h incoming).Framed := nofun

@[simp] theorem framed_asyncReadSome (incomingData : Nat) (handler : ReadHandler η) :
    (Next.asyncReadSome incomingData handler).Framed := nofun

@[simp] theorem framed_asyncWrite (response : Response) (handler : WriteHandler η) :
    (Next.asyncWrite response handler).Framed := nofun

@[simp] theorem framed_stop (ending : Ending) : (Next.stop (η := η) ending).Framed := nofun

@[simp] theorem framed_onHandshakeSuccess (kind : Kind) (calls : List WsSession.Call) :
    (Next.onHandshakeSuccess (η := η) kind calls).Framed ↔ kind = .webSocket := by
  simp [Next.Framed]

/-- `first_write` establishes no session. -/
theorem WsHandshake.FirstWrite.framed {boost : Rfc6455Engine.Boost}
    (hends : FirstWrite boost up h store incoming next) : next.Framed := by
  cases hends <;> simp

/-- `do_custom_handshake` establishes the WebSocket session. -/
theorem WsHandshake.DoCustomHandshake.framed
    (hends : DoCustomHandshake up h store incoming next) : next.Framed := by
  cases hends <;> simp

/-- A first read establishes no session. -/
theorem Session.OnFirstRead.framed {incomingData bytesTransferred : Nat}
    (hends : OnFirstRead env h store incomingData bytesTransferred error session next) :
    next.Framed := by
  cases hends with
  | firstWrite _ hwrite => exact hwrite.framed
  | _ => simp

/-- A handshake establishes an unframed session exactly if that session accepts the
data, whatever the tag. -/
theorem Session.Handshake.framed_iff (hends : Handshake env h store incoming session next) :
    next.Framed ↔ session.acceptsUnframed incoming.tag (incoming.string store) = false := by
  cases hends with
  | passes hrefuses => simp [hrefuses]
  | firstWrite _ hwrite => simp [hwrite.framed, acceptsUnframed]
  | doCustomHandshake _ hcustom => simp [hcustom.framed, acceptsUnframed]
  | onFirstRead _ hread => simp [hread.framed, acceptsUnframed]
  | succeeds haccepts hkind => simp [haccepts, hkind]

/-- A second read goes on to the GUID, or ends the connection. -/
theorem WsHandshake.OnSecondRead.framed {reply : Rfc6455Engine.Reply}
    (hends : OnSecondRead up h reply store error ran) : ran.2.Framed := by
  cases hends with
  | error | badRequest => exact framed_stop _
  | reads => exact framed_asyncReadSome _ _

/-- A GUID read establishes the WebSocket session, if any. -/
theorem WsHandshake.OnGuidRead.framed {host : Endian} {junk : MaskingKey}
    {frameParser : DataFrameParser.State} {bytes : List UInt8}
    (hends : OnGuidRead host junk up h store frameParser error bytes ran) : ran.2.Framed := by
  cases hends with
  | error | invalid | nothing => exact framed_stop _
  | guid _ _ hcustom => exact hcustom.framed

/-- `handle_read` answers, reads on or stops. -/
theorem HttpSession.HandleRead.framed {operationAborted : ErrorCode} {site : HttpServer.Site}
    {requestParser : RequestParser.State} {request : Request} {buffer bytesTransferred : Nat}
    (hends : HandleRead operationAborted site requestParser request store buffer error
      bytesTransferred next) : next.Framed := by
  cases hends <;> simp

/-- `handle_write` stops. -/
theorem HttpSession.HandleWrite.framed {operationAborted : ErrorCode}
    (hends : HandleWrite operationAborted error next) : next.Framed := by
  cases hends <;> exact framed_stop _

end Framed

namespace Conn

variable {server : Server} {env : Env} {c c' : Conn} {events : List Event}
  {ran : Store × Next UInt32} {h : UInt32}

/-- An event that writes no reply and establishes no session. -/
def Quiet (e : Event) : Prop := e.response = none ∧ ∀ kind, e ≠ .onHandshakeSuccess kind

/-- Quiet events leave the replies as they are. -/
theorem responses_of_quiet (hquiet : ∀ e ∈ events, Quiet e) : responses events = [] :=
  List.filterMap_eq_nil_iff.mpr fun e he => (hquiet e he).1

/-- What a handler adds to a log in which only WebSocket sessions were established. -/
theorem staysWebSocket_proceed (hstays : StaysWebSocket c.log)
    (hquiet : ∀ e ∈ events, Quiet e) :
    StaysWebSocket (c.proceed events ran).log ↔ (Upgraded c.log → ran.2.Framed) := by
  have hevents : StaysWebSocket (c.log ++ events) := by
    refine (throughout_append ?_).mpr hstays
    intro e he past _ kind hkind
    exact absurd hkind ((hquiet e he).2 kind)
  have hupgraded : Upgraded (c.log ++ events) ↔ Upgraded c.log := by
    simp [Upgraded, responses_of_quiet hquiet]
  show StaysWebSocket (c.log ++ events ++ ran.2.events) ↔ _
  cases hnext : ran.2 with
  | onHandshakeSuccess kind calls =>
      have hlast : StaysWebSocket (c.log ++ events ++ [.onHandshakeSuccess kind]) ↔
          (Upgraded c.log → kind = .webSocket) := by
        rw [StaysWebSocket, throughout_concat, hupgraded]
        simp [show Throughout _ (c.log ++ events) from hevents]
      simpa [Next.events] using hlast
  | handshakeFail handler incoming | asyncReadSome incomingData handler =>
      simp [Next.events, hevents]
  | asyncWrite response handler | stop ending =>
      simp only [Next.events, framed_asyncWrite, framed_stop, implies_true, iff_true]
      rw [StaysWebSocket, throughout_concat]
      exact ⟨hevents, fun _ kind hkind => by cases hkind⟩

/-- The calls of an established session establish no other one. -/
theorem staysWebSocket_wsSession (hstays : StaysWebSocket c.log) (hquiet : ∀ e ∈ events, Quiet e)
    (store : Store) (incomingData : Nat) (calls : List WsSession.Call) :
    StaysWebSocket (c.wsSession events store incomingData calls).log := by
  refine (staysWebSocket_proceed hstays ?_).mpr fun _ => ?_
  · intro e he
    rcases List.mem_append.mp he with he | he
    · exact hquiet e he
    · obtain ⟨call, -, rfl⟩ := List.mem_map.mp he
      exact ⟨rfl, nofun⟩
  · dsimp only
    split <;> simp

theorem quiet_read (incoming : List UInt8) : ∀ e ∈ [Event.read incoming], Quiet e := by
  simp [Quiet]

theorem quiet_nil : ∀ e ∈ ([] : List Event), Quiet e := by
  simp

theorem quiet_doNextHandshake (i : UInt32) (tag : HandShake) (incoming : List UInt8) :
    ∀ e ∈ [Event.doNextHandshake i tag incoming], Quiet e := by
  simp [Quiet]

/-- Completions of reads establish no unframed session. -/
theorem staysWebSocket_completeRead (hstays : StaysWebSocket c.log) (incomingData : Nat)
    (junk : MaskingKey) (error : ErrorCode) (incoming : List UInt8)
    (handler : ReadHandler UInt32) :
    StaysWebSocket (c.completeRead env incomingData junk error incoming handler).log := by
  have hquiet := quiet_read incoming
  cases handler with
  | onFirstRead session handshakeFail =>
      exact (staysWebSocket_proceed hstays hquiet).mpr fun _ => Session.onFirstRead_ends.framed
  | onGuidRead up handshakeFail frameParser =>
      exact (staysWebSocket_proceed hstays hquiet).mpr fun _ =>
        WsHandshake.onGuidRead_ends.framed
  | handleRead site requestParser request =>
      exact (staysWebSocket_proceed hstays hquiet).mpr fun _ =>
        HttpSession.handleRead_ends.framed
  | onReadDataframe frameParser => exact staysWebSocket_wsSession hstays hquiet _ _ _

/-- Nor do those of writes. -/
theorem staysWebSocket_completeWrite (hstays : StaysWebSocket c.log) (error : ErrorCode)
    (handler : WriteHandler UInt32) : StaysWebSocket (c.completeWrite env error handler).log := by
  cases handler with
  | onSecondRead up handshakeFail reply =>
      exact (staysWebSocket_proceed hstays quiet_nil).mpr fun _ =>
        WsHandshake.onSecondRead_ends.framed
  | handleWrite =>
      exact (staysWebSocket_proceed hstays quiet_nil).mpr fun _ =>
        HttpSession.handleWrite_ends.framed

/-- The call of a handshake_fail handler establishes an unframed session on an upgraded
connection exactly if the next session is one that accepts the data. -/
theorem FallsThrough.staysWebSocket_iff {incoming : HandShakeData}
    (hfalls : FallsThrough server env c h incoming c') (hstays : StaysWebSocket c.log) :
    StaysWebSocket c'.log ↔
      (Upgraded c.log → ∀ i session, onHandshakeFail h = some i →
        server.doNextHandshake i = some session →
        session.acceptsUnframed incoming.tag (incoming.string c.store) = false) := by
  cases hfalls with
  | unable hfail => simp [staysWebSocket_proceed hstays quiet_nil, hfail]
  | asserts hfail hsession =>
      rw [staysWebSocket_proceed hstays (quiet_doNextHandshake _ _ _)]
      refine iff_of_true (fun _ => framed_stop _) fun _ i session hi hsession' => ?_
      obtain rfl := Option.some.inj (hfail.symm.trans hi)
      cases hsession.symm.trans hsession'
  | tries hfail hsession hhandshake =>
      rw [staysWebSocket_proceed hstays (quiet_doNextHandshake _ _ _), hhandshake.framed_iff]
      refine imp_congr_right fun _ => ⟨fun haccepts i session hi hsession' => ?_, fun haccepts =>
        haccepts _ _ hfail hsession⟩
      obtain rfl := Option.some.inj (hfail.symm.trans hi)
      obtain rfl := Option.some.inj (hsession.symm.trans hsession')
      exact haccepts

/-- One step keeps to WebSocket sessions exactly if no unframed session accepts data of a
frame in it. -/
theorem staysWebSocket_step {label : Label} (hfits : c.Fits h) (hstays : StaysWebSocket c.log)
    (hstep : c.step server env label = some c') :
    StaysWebSocket c'.log ↔ RefusesGuid server c label := by
  obtain ⟨x, hrun, hnext⟩ := hfits
  cases steps_of_step hstep with
  | @handshakeFail handler incoming _ hc hfalls =>
      rw [hc] at hnext
      obtain ⟨rfl, hoffers⟩ := hnext
      have htag : incoming.tag = .wsGuid ↔ Upgraded c.log := by
        rw [Exchange.upgraded_iff hrun]
        cases x <;> simp_all [Exchange.Offers]
      rw [hfalls.staysWebSocket_iff hstays, ← htag]
      constructor
      · intro hrefuses handler' incoming' i session hc' hi hsession hguid
        obtain ⟨rfl, rfl⟩ := Next.handshakeFail.inj (hc.symm.trans hc')
        exact hrefuses hguid i session hi hsession
      · intro hrefuses hguid i session hi hsession
        exact hrefuses _ _ i session hc hi hsession hguid
  | onHandshakeSuccess hc =>
      simp [RefusesGuid, hc, staysWebSocket_wsSession hstays quiet_nil]
  | asyncReadSome => simp [RefusesGuid, staysWebSocket_completeRead hstays]
  | asyncWrite => simp [RefusesGuid, staysWebSocket_completeWrite hstays]

end Conn

/-- **Only WebSocket sessions are established on an upgraded connection** exactly in the
runs in which no session without frames accepts what came in a frame. -/
theorem staysWebSocket_iff_refusesGuid (server : Server) (env : Env) (labels : List Label)
    (c : Conn) (hrun : Conn.Run server env AnyStep labels c) :
    StaysWebSocket c.log ↔ Conn.Run server env (RefusesGuid server) labels c := by
  refine Reaches.guarded_iff (I := fun _ c => ∃ h, c.Fits h)
    (P := fun _ c => StaysWebSocket c.log) ⟨_, Conn.fits_onAccept server⟩ ?_ ?_ ?_ ?_ hrun
  · show Throughout _ []
    exact throughout_nil
  · rintro _ c label c' ⟨h, hfits⟩ hstep
    exact Conn.fits_step hfits hstep
  · intro _ c label c' _ hstep hstays
    obtain ⟨more, hmore⟩ := Conn.log_prefix_of_step hstep
    exact Throughout.of_append (hmore ▸ hstays)
  · rintro _ c label c' ⟨h, hfits⟩ hstays hstep
    exact Conn.staysWebSocket_step hfits hstays hstep

section Echo

open EchoServer

/-- A client that upgrades and sends the GUID of the first session: what it sees. -/
theorem exists_run_upgradeWith : ∃ c, Conn.Run (myServer noFiles) answering AnyStep
    (upgradeWith "\x7bFB3D4012-F196-4299-9531-0AEACBB3ED89\x7d") c ∧
      c.log = [.read upgradeRequest,
        .asyncWrite (.upgrade upgradeReply) upgradeReply.toBuffers,
        .read (guidFrame "\x7bFB3D4012-F196-4299-9531-0AEACBB3ED89\x7d"),
        .onHandshakeSuccess .webSocket] :=
  Reaches.exists_of_runFrom Conn.log (by decide)

/-- A client that upgrades and sends the GUID of the first session. -/
theorem staysWebSocket_iff_refusesGuid_echo :
    ∃ c, StaysWebSocket c.log ∧
      Conn.Run (myServer noFiles) answering (RefusesGuid (myServer noFiles))
        (upgradeWith "\x7bFB3D4012-F196-4299-9531-0AEACBB3ED89\x7d") c := by
  obtain ⟨c, hrun, hlog⟩ := exists_run_upgradeWith
  have hstays : StaysWebSocket c.log := by
    refine throughout_of_forall fun e he past _ kind hkind => ?_
    rw [hlog] at he
    simp_all
  exact ⟨c, hstays, (staysWebSocket_iff_refusesGuid _ _ _ c hrun).mp hstays⟩

/-- **The raw session is established on an upgraded connection.** A client of the echo
server upgrades and sends the GUID of `my_tcp_session` in its first frame. -/
theorem staysWebSocket_counterexample :
    ¬ ∀ (server : Server) (env : Env) (labels : List Label) (c : Conn),
      Conn.Run server env AnyStep labels c → StaysWebSocket c.log := by
  intro h
  have hclient : ∃ c, Conn.Run (myServer noFiles) answering AnyStep
      (upgradeWith "\x7b21BB758F-BC6A-42C4-92B1-6B5332CEAEBF\x7d" ++ List.replicate 4 .call) c ∧
        (responses c.log.dropLast, c.log.getLast?) =
          ([.upgrade upgradeReply], some (.onHandshakeSuccess .tcp)) :=
    Reaches.exists_of_runFrom (fun c : Conn => (responses c.log.dropLast, c.log.getLast?))
      (by decide)
  obtain ⟨c, hrun, hview⟩ := hclient
  obtain ⟨hresponses, hlast⟩ := Prod.mk.inj hview
  have hstart : c.log.dropLast ++ [.onHandshakeSuccess .tcp] <+: c.log := by
    rw [List.dropLast_append_getLast? _ hlast]
  have hkind := h _ _ _ c hrun _ _ hstart ⟨upgradeReply, by simp [hresponses]⟩ .tcp rfl
  exact absurd hkind (by decide)

end Echo

end Splice

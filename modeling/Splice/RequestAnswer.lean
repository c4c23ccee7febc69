import Splice.EchoServer
import Splice.UpgradeRequest

/-!
# Splice.RequestAnswer

Whether a request that comes in the first read is answered by a server that tries a
WebSocket session and then an HTTP session.

The tag is what goes wrong.  `ws_handshake::on_first_read` passes a request on as `http`
if the name of the key's header is not in it; `first_write` passes it on with the tag it
was given, `none`, and no `http_session` takes that.
-/

namespace Splice

open Incremental (Tribool)
open Transition Rfc6455Engine

/-- The reply that a request is to get. -/
def expectedResponse (env : Env) (site : HttpServer.Site) (req : Request) : Response :=
  if HasKey req then .upgrade (handleRequest env.boost req)
  else .http (HttpServer.handleRequest site req)

/-- After the first read and some calls, exactly this reply has been written. -/
def Answers (server : Server) (env : Env) (junk : MaskingKey) (first : List UInt8)
    (response : Response) : Prop :=
  ∃ calls c, Conn.Run server env AnyStep (.readCompletes junk 0 first :: List.replicate calls .call)
    c ∧ responses c.log = [response]

/-! ## Requests that are dropped -/

/-- What is pending is passed on with no tag, and writes nothing. -/
def Next.Dropped {η : Type} : Next η → Prop
  | .handshakeFail _ incoming => incoming.tag = .none
  | .onHandshakeSuccess kind _ => kind ≠ .webSocket
  | .stop _ => True
  | .asyncReadSome _ _ | .asyncWrite _ _ => False

/-- No session answers data without a tag. -/
theorem Session.Handshake.dropped {η : Type} {env : Env} {session : Session} {h : η}
    {store : Store} {incoming : HandShakeData} {next : Next η}
    (hends : Handshake env h store incoming session next) (htag : incoming.tag = .none) :
    next.Dropped := by
  cases hends with
  | passes => exact htag
  | firstWrite hother | doCustomHandshake hother | onFirstRead hother => simp [htag] at hother
  | succeeds _ hkind => exact hkind

namespace Conn

variable {server : Server} {env : Env} {c c' : Conn}

/-- A handler whose end is dropped adds no reply. -/
theorem responses_proceed_of_dropped {events : List Event} {ran : Store × Next UInt32}
    (hevents : responses events = []) (hran : ran.2.Dropped) :
    responses (c.proceed events ran).log = responses c.log := by
  have hnext : responses ran.2.events = [] := by
    cases h : ran.2 <;> simp_all [Next.Dropped, Next.events, responses]
  simp [proceed, hevents, hnext]

/-- What is dropped stays dropped. -/
theorem dropped_step {label : Label} (hdropped : c.next.Dropped)
    (hstep : c.step server env label = some c') :
    c'.next.Dropped ∧ responses c'.log = responses c.log := by
  have hproceed : ∀ events ran, responses events = [] → ran.2.Dropped →
      (c.proceed events ran).next.Dropped ∧
        responses (c.proceed events ran).log = responses c.log :=
    fun events ran hevents hran => ⟨hran, responses_proceed_of_dropped hevents hran⟩
  cases steps_of_step hstep with
  | handshakeFail hc hfalls =>
      rw [hc] at hdropped
      cases hfalls with
      | unable => exact hproceed _ _ rfl trivial
      | asserts => exact hproceed _ _ (by simp) trivial
      | tries _ _ hhandshake => exact hproceed _ _ (by simp) (hhandshake.dropped hdropped)
  | onHandshakeSuccess hc => simp [hc, Next.Dropped] at hdropped
  | asyncReadSome hc _ => simp [hc, Next.Dropped] at hdropped
  | asyncWrite hc => simp [hc, Next.Dropped] at hdropped

/-- What has been dropped is never answered. -/
theorem dropped_of_reaches {guard : Conn → Label → Prop} {labels : List Label}
    (hdropped : c.next.Dropped)
    (hrun : Reaches (fun c label c' => c.step server env label = some c') guard c labels c') :
    responses c'.log = responses c.log := by
  have hinv := Reaches.invariant
    (I := fun _ c' => c'.next.Dropped ∧ responses c'.log = responses c.log) ⟨hdropped, rfl⟩
    (fun _ c₁ label c₂ hc₁ _ hstep => ?_) hrun
  · exact hinv.2
  · obtain ⟨hdropped, hresponses⟩ := dropped_step hc₁.1 hstep
    exact ⟨hdropped, hresponses.trans hc₁.2⟩

end Conn

/-! ## The first read -/

/-- An `http_session` serves a request that is passed on to it with its tag. -/
theorem HttpSession.handshake_of_parse {η : Type} (operationAborted : ErrorCode)
    (site : HttpServer.Site) (h : η) {store : Store} {incoming : HandShakeData}
    {first rest : List UInt8} {state : RequestParser.State} {req : Request}
    (htag : incoming.tag = .http) (hfirst : incoming.string store = first)
    (hcontains : contains (chars "Sec-WebSocket-Key:") first = false)
    (hparse : parseRequest first = (.true, (state, req), rest)) :
    HttpSession.handshake operationAborted site h store incoming =
      .asyncWrite (.http (HttpServer.handleRequest site req)) .handleWrite := by
  have hfront : store.front incoming.data incoming.size = first := hfirst
  have hserver : HttpServer.parseRequest .methodStart .new first = (.true, (state, req), rest) :=
    hparse
  simp [HttpSession.handshake, HttpSession.onFirstRead, htag, hfront, hcontains, hserver]

namespace Conn

variable {server : Server} {env : Env} {junk : MaskingKey} {first rest : List UInt8}
  {state : RequestParser.State} {req : Request} {up : WsClass}

/-- The first buffer, once the first read is in it. -/
def firstStore (first : List UInt8) : Store := (Store.mkIncomingData []).2.fill 0 first

/-- It holds what was read. -/
theorem front_firstStore (hlen : first.length ≤ 8192) :
    (firstStore first).front 0 first.length = first :=
  Store.front_fill _ (by simp [Store.mkIncomingData]) hlen

/-- The connection after its first read. -/
def afterFirstRead (server : Server) (env : Env) (first : List UInt8) : Conn :=
  (onAccept server).proceed [.read first]
    (firstStore first, server.constructSession.onFirstRead env (server.protocolCount - 1)
      (firstStore first) 0 first.length 0)

/-- That is where the completion of the first read leads. -/
theorem step_firstRead (hlen : first.length ≤ 8192) :
    (onAccept server).step server env (.readCompletes junk 0 first) =
      some (afterFirstRead server env first) := by
  simp [step, onAccept, Store.mkIncomingData, hlen, afterFirstRead, completeRead, firstStore]

/-- What a `ws_session` does with the first read. -/
theorem next_afterFirstRead (hws : server.constructSession = .ws up) (hlen : first.length ≤ 8192) :
    (afterFirstRead server env first).next =
      if contains (chars "Sec-WebSocket-Key:") first then
        match upgradeOf env.boost first with
        | some reply =>
            .asyncWrite (.upgrade reply) (.onSecondRead up (server.protocolCount - 1) reply)
        | none => .handshakeFail (server.protocolCount - 1) ⟨.none, 0, first.length⟩
      else .handshakeFail (server.protocolCount - 1) ⟨.http, 0, first.length⟩ := by
  cases hupgrade : upgradeOf env.boost first <;>
    simp [afterFirstRead, proceed, hws, Session.onFirstRead, WsHandshake.onFirstRead,
      WsHandshake.firstWrite_eq, HandShakeData.string, front_firstStore hlen, hupgrade]

theorem log_afterFirstRead :
    (afterFirstRead server env first).log =
      [.read first] ++ (afterFirstRead server env first).next.events := rfl

/-- The runs that begin with the first read go on from there. -/
theorem run_afterFirstRead_iff {labels : List Label} {c : Conn} (hlen : first.length ≤ 8192) :
    Run server env AnyStep (.readCompletes junk 0 first :: labels) c ↔
      Reaches (fun c label c' => c.step server env label = some c') AnyStep
        (afterFirstRead server env first) labels c := by
  rw [Run, reaches_cons]
  constructor
  · rintro ⟨c₁, -, hstep, hrun⟩
    obtain rfl := Option.some.inj ((step_firstRead hlen).symm.trans hstep)
    exact hrun
  · intro hrun
    exact ⟨_, trivial, step_firstRead hlen, hrun⟩

/-- A `ws_session` passes on what does not name the key's header. -/
theorem step_call_afterFirstRead (hws : server.constructSession = .ws up)
    (hlen : first.length ≤ 8192)
    (hcontains : contains (chars "Sec-WebSocket-Key:") first = false) :
    (afterFirstRead server env first).step server env .call =
      some ((afterFirstRead server env first).callHandshakeFail server env
        (server.protocolCount - 1) ⟨.http, 0, first.length⟩) := by
  have hpassed : (afterFirstRead server env first).next = _ := next_afterFirstRead hws hlen
  simp only [hcontains] at hpassed
  simp only [step, hpassed]
  rfl

end Conn

/-- What is dropped after the first read is not answered. -/
theorem not_answers {server : Server} {env : Env} {first : List UInt8} (hlen : first.length ≤ 8192)
    (hdropped : (Conn.afterFirstRead server env first).next.Dropped) (junk : MaskingKey)
    (response : Response) : ¬ Answers server env junk first response := by
  rintro ⟨calls, c, hrun, hresponses⟩
  rw [Conn.run_afterFirstRead_iff hlen] at hrun
  have hfirst : responses (Conn.afterFirstRead server env first).log = [] :=
    Conn.responses_proceed_of_dropped (by simp) hdropped
  rw [Conn.dropped_of_reaches hdropped hrun, hfirst] at hresponses
  cases hresponses

/-- **A request is answered** if it has a key, or if nothing in it looks like one; else it
is not, by any session. -/
theorem answers_iff (server : Server) (env : Env) (up : WsClass) (site : HttpServer.Site)
    (protocolIndex : UInt32) (hws : server.constructSession = .ws up)
    (hnext : onHandshakeFail (server.protocolCount - 1) = some protocolIndex)
    (hhttp : server.doNextHandshake protocolIndex = some (.http site))
    (junk : MaskingKey) (first rest : List UInt8) (state : RequestParser.State) (req : Request)
    (hlen : first.length ≤ 8192) (hparse : parseRequest first = (.true, (state, req), rest)) :
    Answers server env junk first (expectedResponse env site req) ↔
      HasKey req ∨ contains (chars "Sec-WebSocket-Key:") first = false := by
  have hpending : (Conn.afterFirstRead server env first).next = _ :=
    Conn.next_afterFirstRead hws hlen
  rw [upgradeOf_of_parse hparse] at hpending
  have hlog : (Conn.afterFirstRead server env first).log = _ := Conn.log_afterFirstRead
  by_cases hkey : HasKey req
  · have hcontains := contains_key hparse hkey
    simp only [hcontains, hkey, if_true] at hpending
    refine iff_of_true ⟨0, _, (Conn.run_afterFirstRead_iff hlen).mpr .init, ?_⟩ (Or.inl hkey)
    rw [hlog, hpending]
    simp [Next.events, expectedResponse, hkey]
  · by_cases hcontains : contains (chars "Sec-WebSocket-Key:") first
    · refine iff_of_false ?_ (by simp [hkey, hcontains])
      refine not_answers hlen ?_ junk _
      simp [hpending, hcontains, hkey, Next.Dropped]
    · refine iff_of_true ⟨1, ?_⟩ (Or.inr (by simpa using hcontains))
      have hcontains : contains (chars "Sec-WebSocket-Key:") first = false := by
        simpa using hcontains
      have htag : HandShakeData.tag ⟨.http, 0, first.length⟩ = .http := rfl
      have hhandshake := HttpSession.handshake_of_parse env.operationAborted site protocolIndex
        htag (Conn.front_firstStore hlen) hcontains hparse
      have hstore : (Conn.afterFirstRead server env first).store = Conn.firstStore first := rfl
      simp only [hcontains] at hpending
      refine ⟨_, (Conn.run_afterFirstRead_iff hlen).mpr (reaches_cons.mpr
        ⟨_, trivial, Conn.step_call_afterFirstRead hws hlen hcontains, .init⟩), ?_⟩
      simp only [Conn.callHandshakeFail, hnext, hhttp, Session.handshake, hstore, hhandshake,
        Conn.proceed, hlog, hpending]
      simp [Next.events, expectedResponse, hkey]

section Echo

open EchoServer

/-- The upgrade request of a client of the echo server. -/
theorem answers_iff_echo :
    Answers (myServer noFiles) answering #v[0, 0, 0, 0] upgradeRequest (.upgrade upgradeReply) := by
  have hparse := parse_upgradeRequest
  have hreply : expectedResponse answering noFiles (parseRequest upgradeRequest).2.1.2 =
      .upgrade upgradeReply := by decide
  rw [← hreply]
  exact (answers_iff (myServer noFiles) answering _ noFiles 3 rfl rfl rfl #v[0, 0, 0, 0]
    upgradeRequest [] _ _ (by decide) hparse).mpr (Or.inl (by decide))

/-- A request whose only header has a name that ends like that of the key. -/
def keyLikeRequest : List UInt8 := chars "GET / HTTP/1.1\r\nX-Sec-WebSocket-Key: a\r\n\r\n"

/-- **A request that is dropped**: the echo server answers it with nothing. -/
theorem answers_counterexample :
    ∃ state req, parseRequest keyLikeRequest = (.true, (state, req), []) ∧
      ¬ Answers (myServer noFiles) answering #v[0, 0, 0, 0] keyLikeRequest
        (expectedResponse answering noFiles req) := by
  have hlen : keyLikeRequest.length ≤ 8192 := by decide
  have hcontains : contains (chars "Sec-WebSocket-Key:") keyLikeRequest = true := by decide
  have hparse : parseRequest keyLikeRequest =
      (.true, ((parseRequest keyLikeRequest).2.1.1, (parseRequest keyLikeRequest).2.1.2), []) := by
    decide
  have hkey : ¬ HasKey (parseRequest keyLikeRequest).2.1.2 := by decide
  refine ⟨_, _, hparse, not_answers hlen ?_ _ _⟩
  rw [Conn.next_afterFirstRead rfl hlen, upgradeOf_of_parse hparse]
  simp [hcontains, hkey, Next.Dropped]

end Echo

end Splice

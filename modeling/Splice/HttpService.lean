import Splice.RequestAnswer

/-!
# Splice.HttpService

An `http_session` and a request that arrives in several reads.  The parser and the request
are members of the session, so they are kept from one read to the next, and the session
does what one parse of all that was read says (`serves_as_one_parse`).
-/

namespace Splice

open Incremental (Tribool parse_append_of_definite parse_append_of_indeterminate)
open Transition

namespace Conn

/-- Complete the reads of a connection one after the other, as long as there is one. -/
def feed (server : Server) (env : Env) (junk : MaskingKey) : Conn → List (List UInt8) → Conn
  | c, [] => c
  | c, read :: reads =>
      match c.step server env (.readCompletes junk 0 read) with
      | some c' => feed server env junk c' reads
      | none => c

/-- One reply has been written, and no read follows it, whatever happens. -/
def RepliesOnce (server : Server) (env : Env) (c : Conn) (response : Response) : Prop :=
  ∀ labels c', Reaches (fun c label c' => c.step server env label = some c') AnyStep c labels c' →
    responses c'.log = [response] ∧
      ∀ incomingData handler, c'.next ≠ .asyncReadSome incomingData handler

/-- No reply has been written, and the one read that is outstanding goes on. -/
def AwaitsRead (c : Conn) : Prop :=
  responses c.log = [] ∧ ∃ incomingData site requestParser request,
    c.next = .asyncReadSome incomingData (.handleRead site requestParser request)

variable {server : Server} {env : Env} {junk : MaskingKey} {c c' : Conn} {site : HttpServer.Site}
  {buffer : Nat} {first : List UInt8} {response : Response}

/-! ## After the reply -/

/-- The write of a reply, or the end. -/
def Closes (response : Response) (c : Conn) : Prop :=
  responses c.log = [response] ∧
    (c.next = .asyncWrite response .handleWrite ∨ ∃ ending, c.next = .stop ending)

/-- Behind its reply a connection only closes. -/
theorem closes_step {label : Label} (hcloses : c.Closes response)
    (hstep : c.step server env label = some c') : c'.Closes response := by
  obtain ⟨hresponses, hnext⟩ := hcloses
  cases steps_of_step hstep with
  | handshakeFail hc => simp [hc] at hnext
  | onHandshakeSuccess hc => simp [hc] at hnext
  | asyncReadSome hc _ => simp [hc] at hnext
  | @asyncWrite _ handler error hc =>
      have hhandler : handler = .handleWrite := by
        rw [hc] at hnext
        rcases hnext with hnext | ⟨ending, hnext⟩
        · exact (Next.asyncWrite.inj hnext).2
        · cases hnext
      subst hhandler
      obtain ⟨ending, hending⟩ : ∃ ending,
          HttpSession.handleWrite (η := UInt32) env.operationAborted error = .stop ending := by
        unfold HttpSession.handleWrite
        split <;> exact ⟨_, rfl⟩
      rw [completeWrite, hending]
      exact ⟨by simp [proceed, Next.events, hresponses], Or.inr ⟨ending, rfl⟩⟩

/-- A connection that writes its reply replies once. -/
theorem repliesOnce_of_write (hresponses : responses c.log = [response])
    (hnext : c.next = .asyncWrite response .handleWrite) : RepliesOnce server env c response := by
  intro labels c' hrun
  have hcloses := Reaches.invariant (I := fun _ c => c.Closes response)
    ⟨hresponses, Or.inl hnext⟩ (fun _ _ _ _ hc _ hstep => closes_step hc hstep) hrun
  refine ⟨hcloses.1, fun incomingData handler h => ?_⟩
  have hnext := hcloses.2
  simp [h] at hnext

/-! ## The later reads -/

/-- It takes no more reads. -/
theorem feed_of_write {reads : List (List UInt8)} {handler : WriteHandler UInt32}
    (hnext : c.next = .asyncWrite response handler) : c.feed server env junk reads = c := by
  cases reads with
  | nil => rfl
  | cons read reads => simp [feed, step, hnext]

/-- A read that is answered is the last one. -/
theorem repliesOnce_proceed {reads : List (List UInt8)} {read : List UInt8}
    {ran : Store × Next UInt32} (hresponses : responses c.log = [])
    (hran : ran.2 = .asyncWrite response .handleWrite) :
    RepliesOnce server env ((c.proceed [.read read] ran).feed server env junk reads) response := by
  have hnext : (c.proceed [.read read] ran).next = .asyncWrite response .handleWrite := hran
  rw [feed_of_write hnext]
  refine repliesOnce_of_write ?_ hnext
  simp [proceed, hresponses, hran, Next.events]

/-- What a session that has read so much does next, as the parser answers. -/
def Serves (server : Server) (env : Env) (site : HttpServer.Site) (c : Conn) :
    Tribool × (RequestParser.State × Request) × List UInt8 → Prop
  | (.true, (_, req), _) => c.RepliesOnce server env (.http (HttpServer.handleRequest site req))
  | (.false, _, _) => c.RepliesOnce server env (.http (.stockReply .badRequest))
  | (.indeterminate, _, _) => c.AwaitsRead

/-- The reads after the first one are parsed where the one before stopped. -/
theorem serves_of_handleRead {requestParser : RequestParser.State} {request : Request}
    {reads : List (List UInt8)} (hbuffer : buffer < c.store.length)
    (hresponses : responses c.log = [])
    (hnext : c.next = .asyncReadSome buffer (.handleRead site requestParser request))
    (hlen : ∀ read ∈ reads, read.length ≤ 8192) :
    Serves server env site (c.feed server env junk reads)
      (HttpServer.parseRequest requestParser request reads.flatten) := by
  induction reads generalizing c requestParser request with
  | nil => exact ⟨hresponses, buffer, site, requestParser, request, hnext⟩
  | cons read reads ih =>
      obtain ⟨hread, hlen⟩ := List.forall_mem_cons.mp hlen
      have hfront := Store.front_fill c.store hbuffer hread
      have hstep : c.step server env (.readCompletes junk 0 read) =
          some (c.completeRead env buffer junk 0 read
            (.handleRead site requestParser request)) := by
        simp [step, hnext, hread]
      rw [List.flatten_cons]
      simp only [feed, hstep]
      cases hparse : HttpServer.parseRequest requestParser request read with
      | mk answer p =>
          obtain ⟨⟨state, req⟩, rest⟩ := p
          cases answer with
          | indeterminate =>
              have happend : HttpServer.parseRequest requestParser request (read ++ reads.flatten) =
                  HttpServer.parseRequest state req reads.flatten :=
                parse_append_of_indeterminate hparse _
              rw [happend]
              refine ih ?_ ?_ ?_ hlen
              · simpa [completeRead, proceed, Store.fill] using hbuffer
              · simp [completeRead, proceed, HttpSession.handleRead, hfront, hparse, Next.events,
                  hresponses]
              · simp [completeRead, proceed, HttpSession.handleRead, hfront, hparse]
          | true =>
              have happend : HttpServer.parseRequest requestParser request (read ++ reads.flatten) =
                  (.true, (state, req), rest ++ reads.flatten) :=
                parse_append_of_definite hparse (by simp) _
              rw [happend]
              exact repliesOnce_proceed hresponses
                (by simp [HttpSession.handleRead, hfront, hparse])
          | false =>
              have happend : HttpServer.parseRequest requestParser request (read ++ reads.flatten) =
                  (.false, (state, req), rest ++ reads.flatten) :=
                parse_append_of_definite hparse (by simp) _
              rw [happend]
              exact repliesOnce_proceed hresponses
                (by simp [HttpSession.handleRead, hfront, hparse])

/-! ## The first read -/

/-- An `http_session` has been given the first read: `on_first_read` has run on it.  It is
the first session (`beginsHttp_afterFirstRead`), or the read has been passed on to it
(`beginsHttp_callHandshakeFail`). -/
structure BeginsHttp (env : Env) (site : HttpServer.Site) (first : List UInt8) (buffer : Nat)
    (c : Conn) : Prop where
  next_eq : ∃ handshakeFail,
    c.next = HttpSession.onFirstRead env.operationAborted site handshakeFail
    c.store buffer first.length 0
  buffer_lt : buffer < c.store.length
  front_eq : c.store.front buffer first.length = first
  responses_eq : responses c.log = responses c.next.events

/-- The first session of a server is given what is read first. -/
theorem beginsHttp_afterFirstRead (hhttp : server.constructSession = .http site)
    (hlen : first.length ≤ 8192) :
    (afterFirstRead server env first).BeginsHttp env site first 0 where
  next_eq := ⟨server.protocolCount - 1, by simp [afterFirstRead, proceed, hhttp,
    Session.onFirstRead]⟩
  buffer_lt := by simp [afterFirstRead, proceed, firstStore, Store.fill, Store.mkIncomingData]
  front_eq := front_firstStore hlen
  responses_eq := by simp [log_afterFirstRead]

/-- Another session is given it if it is passed on with its tag. -/
theorem beginsHttp_callHandshakeFail {handler protocolIndex : UInt32} (incoming : HandShakeData)
    (htag : incoming.tag = .http) (hnext : onHandshakeFail handler = some protocolIndex)
    (hhttp : server.doNextHandshake protocolIndex = some (.http site))
    (hbuffer : incoming.data < c.store.length) (hfirst : incoming.string c.store = first)
    (hsize : incoming.size = first.length) (hresponses : responses c.log = []) :
    (c.callHandshakeFail server env handler incoming).BeginsHttp env site first incoming.data := by
  have hcall : c.callHandshakeFail server env handler incoming =
      c.proceed [.doNextHandshake protocolIndex incoming.tag (incoming.string c.store)]
        (c.store, HttpSession.onFirstRead env.operationAborted site protocolIndex c.store
          incoming.data incoming.size 0) := by
    simp [callHandshakeFail, hnext, hhttp, Session.handshake, HttpSession.handshake, htag]
  rw [hcall, hsize]
  exact ⟨⟨protocolIndex, rfl⟩, hbuffer, by rw [← hsize]; exact hfirst,
    by simp [proceed, hresponses]⟩

end Conn

/-- **Plain HTTP service**: an `http_session` that is given a first read without the name of
the key's header, and not rejected, serves what was read as one parse of it says, however
it was cut. -/
theorem serves_as_one_parse (server : Server) (env : Env) (junk : MaskingKey)
    (site : HttpServer.Site) (first : List UInt8) (buffer : Nat) (c : Conn)
    (hbegins : c.BeginsHttp env site first buffer)
    (hkey : contains (chars "Sec-WebSocket-Key:") first = false)
    (hfirst : (HttpServer.parseRequest .methodStart .new first).1 ≠ .false)
    (reads : List (List UInt8)) (hlen : ∀ read ∈ reads, read.length ≤ 8192) :
    Conn.Serves server env site (c.feed server env junk reads)
      (HttpServer.parseRequest .methodStart .new (first ++ reads.flatten)) := by
  obtain ⟨⟨handshakeFail, hnext⟩, hbuffer, hfront, hresponses⟩ := hbegins
  cases hparse : HttpServer.parseRequest .methodStart .new first with
  | mk answer p =>
      obtain ⟨⟨state, req⟩, rest⟩ := p
      simp only [HttpSession.onFirstRead, hfront, hkey, hparse] at hnext
      cases answer with
      | false => simp [hparse] at hfirst
      | indeterminate =>
          have happend : HttpServer.parseRequest .methodStart .new (first ++ reads.flatten) =
              HttpServer.parseRequest state req reads.flatten :=
            parse_append_of_indeterminate hparse _
          rw [happend]
          refine Conn.serves_of_handleRead hbuffer ?_ (by simpa using hnext) hlen
          simp [hresponses, hnext, Next.events]
      | true =>
          have happend : HttpServer.parseRequest .methodStart .new (first ++ reads.flatten) =
              (.true, (state, req), rest ++ reads.flatten) :=
            parse_append_of_definite hparse (by simp) _
          have hwrite : c.next = .asyncWrite (.http (HttpServer.handleRequest site req))
              .handleWrite := by simpa using hnext
          rw [happend, Conn.feed_of_write hwrite]
          refine Conn.repliesOnce_of_write ?_ hwrite
          simp [hresponses, hwrite, Next.events]

section Echo

open EchoServer

/-- A request to the echo server in two reads.  The first one falls through to
`my_http_session`. -/
theorem serves_as_one_parse_echo :
    ∃ c req, Conn.Run (myServer noFiles) answering AnyStep
        [.readCompletes #v[0, 0, 0, 0] 0 (chars "GET / HT"), .call] c ∧
      (HttpServer.parseRequest .methodStart .new (chars "GET / HTTP/1.0\r\n\r\n")).2.1.2 = req ∧
      (c.feed (myServer noFiles) answering #v[0, 0, 0, 0] [chars "TP/1.0\r\n\r\n"]).RepliesOnce
        (myServer noFiles) answering (.http (HttpServer.handleRequest noFiles req)) := by
  have hlen : (chars "GET / HT").length ≤ 8192 := by decide
  have hkey : contains (chars "Sec-WebSocket-Key:") (chars "GET / HT") = false := by decide
  have hbegins : ((Conn.afterFirstRead (myServer noFiles) answering
      (chars "GET / HT")).callHandshakeFail (myServer noFiles) answering 4 ⟨.http, 0, 8⟩).BeginsHttp
        answering noFiles (chars "GET / HT") 0 := by
    have hnext : onHandshakeFail 4 = some 3 := by decide
    refine Conn.beginsHttp_callHandshakeFail ⟨.http, 0, 8⟩ ?_ hnext ?_ ?_ ?_ ?_ ?_
    · simp
    · simp [myServer, myHttpSession]
    · decide
    · exact Conn.front_firstStore hlen
    · decide
    · decide
  refine ⟨_, _, (Conn.run_afterFirstRead_iff hlen).mpr (reaches_cons.mpr
    ⟨_, trivial, Conn.step_call_afterFirstRead rfl hlen hkey, .init⟩), rfl, ?_⟩
  exact serves_as_one_parse (myServer noFiles) answering #v[0, 0, 0, 0] noFiles
    (chars "GET / HT") 0 _ hbegins hkey (by decide) [chars "TP/1.0\r\n\r\n"] (by decide)

end Echo

end Splice

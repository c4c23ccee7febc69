import Splice.RequestHandler
import Splice.Upgrade

/-!
# Splice.WrittenReplies

What a connection of a multi protocol server has written, whatever its client sent and however
it was read: nothing, the reply to an upgrade, or one HTTP reply, which delimits itself
(`written_delimits`).
-/

namespace Splice

open Transition

/-- The bytes of an event that are written. -/
def Event.bytes : Event → List UInt8
  | .asyncWrite _ buffers => buffers.flatten
  | .read _ | .doNextHandshake _ _ _ | .onHandshakeSuccess _ | .wsSession _ | .stop _ => []

/-- The bytes written on a connection. -/
def written (log : List Event) : List UInt8 := log.flatMap Event.bytes

/-- An event that writes the buffers of its reply, and that reply says how long it is. -/
def Event.WellWritten (e : Event) : Prop :=
  ∀ response buffers, e = .asyncWrite response buffers →
    buffers = response.toBuffers ∧ ∀ reply, response = .http reply → reply.WellFormed

/-- A handler that writes no HTTP reply but such a one. -/
def Next.WritesWell {η : Type} (next : Next η) : Prop :=
  ∀ reply handler, next = .asyncWrite (.http reply) handler → reply.WellFormed

section Handlers

variable {η : Type} {env : Env} {session : Session} {h : η} {store : Store}
  {incoming : HandShakeData} {up : WsClass} {next : Next η} {ran : Store × Next η}
  {error : ErrorCode}

@[simp] theorem writesWell_handshakeFail : (Next.handshakeFail h incoming).WritesWell := nofun

@[simp] theorem writesWell_asyncReadSome (incomingData : Nat) (handler : ReadHandler η) :
    (Next.asyncReadSome incomingData handler).WritesWell := nofun

@[simp] theorem writesWell_upgrade (reply : Rfc6455Engine.Reply) (handler : WriteHandler η) :
    (Next.asyncWrite (.upgrade reply) handler).WritesWell := nofun

@[simp] theorem writesWell_onHandshakeSuccess (kind : Kind) (calls : List WsSession.Call) :
    (Next.onHandshakeSuccess (η := η) kind calls).WritesWell := nofun

@[simp] theorem writesWell_stop (ending : Ending) : (Next.stop (η := η) ending).WritesWell := nofun

@[simp] theorem writesWell_http {reply : HttpServer.Reply} {handler : WriteHandler η} :
    (Next.asyncWrite (.http reply) handler).WritesWell ↔ reply.WellFormed := by
  simp [Next.WritesWell]

theorem WsHandshake.FirstWrite.writesWell {boost : Rfc6455Engine.Boost}
    (hends : FirstWrite boost up h store incoming next) : next.WritesWell := by
  cases hends <;> simp

theorem WsHandshake.DoCustomHandshake.writesWell
    (hends : DoCustomHandshake up h store incoming next) : next.WritesWell := by
  cases hends <;> simp

/-- `on_second_read` writes no HTTP reply. -/
theorem WsHandshake.OnSecondRead.writesWell {reply : Rfc6455Engine.Reply}
    (hends : OnSecondRead up h reply store error ran) : ran.2.WritesWell := by
  cases hends with
  | error | badRequest => exact writesWell_stop _
  | reads => exact writesWell_asyncReadSome _ _

/-- `on_guid_read` writes no HTTP reply. -/
theorem WsHandshake.OnGuidRead.writesWell {host : Endian} {junk : MaskingKey}
    {frameParser : DataFrameParser.State} {bytes : List UInt8}
    (hends : OnGuidRead host junk up h store frameParser error bytes ran) :
    ran.2.WritesWell := by
  cases hends with
  | error | invalid | nothing => exact writesWell_stop _
  | guid _ _ hcustom => exact hcustom.writesWell

/-- A first read is answered with the reply of `handle_request`, if with an HTTP reply. -/
theorem Session.OnFirstRead.writesWell {incomingData bytesTransferred : Nat}
    (hends : OnFirstRead env h store incomingData bytesTransferred error session next) :
    next.WritesWell := by
  cases hends with
  | firstWrite _ hwrite => exact hwrite.writesWell
  | answers => exact writesWell_http.mpr (HttpServer.wellFormed_handleRequest _ _)
  | _ => simp

/-- A `handshake` answers as the first read does. -/
theorem Session.Handshake.writesWell (hends : Handshake env h store incoming session next) :
    next.WritesWell := by
  cases hends with
  | firstWrite _ hwrite => exact hwrite.writesWell
  | doCustomHandshake _ hcustom => exact hcustom.writesWell
  | onFirstRead _ hread => exact hread.writesWell
  | passes | succeeds => simp

/-- Later reads are answered with that reply, or with `400 Bad Request`. -/
theorem HttpSession.HandleRead.writesWell {operationAborted : ErrorCode} {site : HttpServer.Site}
    {requestParser : RequestParser.State} {request : Request} {buffer bytesTransferred : Nat}
    (hends : HandleRead operationAborted site requestParser request store buffer error
      bytesTransferred next) : next.WritesWell := by
  cases hends with
  | answers => exact writesWell_http.mpr (HttpServer.wellFormed_handleRequest _ _)
  | badRequest => exact writesWell_http.mpr (HttpServer.wellFormed_stockReply _)
  | reads => exact writesWell_asyncReadSome _ _
  | closes | aborted => exact writesWell_stop _

theorem HttpSession.HandleWrite.writesWell {operationAborted : ErrorCode}
    (hends : HandleWrite operationAborted error next) : next.WritesWell := by
  cases hends <;> simp

/-- What is seen of the end of such a handler. -/
theorem wellWritten_events (hnext : next.WritesWell) :
    ∀ e ∈ next.events, e.WellWritten := by
  intro e he response buffers heq
  subst heq
  cases next with
  | asyncWrite response' handler =>
      obtain ⟨rfl, rfl⟩ := Event.asyncWrite.inj (List.mem_singleton.mp he)
      exact ⟨rfl, fun reply hreply => hnext reply handler (by rw [hreply])⟩
  | _ => simp [Next.events] at he

end Handlers

/-! ## Runs -/

namespace Conn

variable {server : Server} {env : Env} {c c' : Conn} {events : List Event}
  {ran : Store × Next UInt32}

/-- The log of such events only. -/
def WellWritten (c : Conn) : Prop := ∀ e ∈ c.log, e.WellWritten

/-- A handler that writes well keeps the log well written. -/
theorem wellWritten_proceed (hlog : c.WellWritten) (hevents : ∀ e ∈ events, e.WellWritten)
    (hran : ran.2.WritesWell) : (c.proceed events ran).WellWritten := by
  intro e he
  rcases List.mem_append.mp he with he | he
  · rcases List.mem_append.mp he with he | he
    · exact hlog e he
    · exact hevents e he
  · exact wellWritten_events hran e he

/-- The calls of an established session write no HTTP reply. -/
theorem wellWritten_wsSession (hlog : c.WellWritten) (hevents : ∀ e ∈ events, e.WellWritten)
    (store : Store) (incomingData : Nat) (calls : List WsSession.Call) :
    (c.wsSession events store incomingData calls).WellWritten := by
  refine wellWritten_proceed hlog ?_ ?_
  · intro e he
    rcases List.mem_append.mp he with he | he
    · exact hevents e he
    · obtain ⟨call, -, rfl⟩ := List.mem_map.mp he
      exact nofun
  · dsimp only
    split <;> simp

/-- Every step keeps the log well written. -/
theorem wellWritten_step {label : Label} (hlog : c.WellWritten)
    (hstep : c.step server env label = some c') : c'.WellWritten := by
  have hnil : ∀ e ∈ ([] : List Event), e.WellWritten := nofun
  have hread : ∀ incoming, ∀ e ∈ [Event.read incoming], e.WellWritten := by
    intro incoming e he
    obtain rfl := List.mem_singleton.mp he
    exact nofun
  cases steps_of_step hstep with
  | @handshakeFail handler incoming _ _ hfalls =>
      have htried : ∀ i, ∀ e ∈ [Event.doNextHandshake i incoming.tag (incoming.string c.store)],
          e.WellWritten := by
        intro i e he
        obtain rfl := List.mem_singleton.mp he
        exact nofun
      cases hfalls with
      | unable => exact wellWritten_proceed hlog hnil (writesWell_stop _)
      | asserts => exact wellWritten_proceed hlog (htried _) (writesWell_stop _)
      | tries _ _ hhandshake => exact wellWritten_proceed hlog (htried _) hhandshake.writesWell
  | onHandshakeSuccess => exact wellWritten_wsSession hlog hnil _ _ _
  | @asyncReadSome incomingData handler junk error incoming =>
      cases handler with
      | onFirstRead session handshakeFail =>
          exact wellWritten_proceed hlog (hread _) Session.onFirstRead_ends.writesWell
      | onGuidRead up handshakeFail frameParser =>
          exact wellWritten_proceed hlog (hread _) WsHandshake.onGuidRead_ends.writesWell
      | handleRead site requestParser request =>
          exact wellWritten_proceed hlog (hread _) HttpSession.handleRead_ends.writesWell
      | onReadDataframe frameParser => exact wellWritten_wsSession hlog (hread _) _ _ _
  | @asyncWrite response handler error =>
      cases handler with
      | onSecondRead up handshakeFail reply =>
          exact wellWritten_proceed hlog hnil WsHandshake.onSecondRead_ends.writesWell
      | handleWrite => exact wellWritten_proceed hlog hnil HttpSession.handleWrite_ends.writesWell

/-- So it is at the end of every run. -/
theorem wellWritten_of_run {guard : Conn → Label → Prop} {labels : List Label}
    (hrun : Run server env guard labels c) : c.WellWritten :=
  Reaches.invariant (I := fun _ c => c.WellWritten) nofun
    (fun _ _ _ _ hlog _ hstep => wellWritten_step hlog hstep) hrun

end Conn

/-- The bytes written are those of the replies. -/
theorem written_eq {log : List Event} (h : ∀ e ∈ log, e.WellWritten) :
    written log = (responses log).flatMap fun response => response.toBuffers.flatten := by
  induction log with
  | nil => rfl
  | cons e log ih =>
      obtain ⟨he, hlog⟩ := List.forall_mem_cons.mp h
      rw [written, List.flatMap_cons, responses_cons, List.flatMap_append, ← ih hlog]
      cases e with
      | asyncWrite response buffers =>
          obtain ⟨rfl, -⟩ := he response buffers rfl
          simp [Event.bytes, written]
      | _ => rfl

/-- A reply of the log was written by such an event. -/
theorem wellFormed_of_responses {log : List Event} {reply : HttpServer.Reply}
    (h : ∀ e ∈ log, e.WellWritten) (hmem : .http reply ∈ responses log) : reply.WellFormed := by
  obtain ⟨e, he, hresponse⟩ := List.mem_filterMap.mp hmem
  cases e with
  | asyncWrite response buffers =>
      obtain rfl := Option.some.inj hresponse
      exact (h _ he _ _ rfl).2 reply rfl
  | _ => simp at hresponse

/-- **What has been written on a connection** is nothing, or the reply to an upgrade, or one
HTTP reply that delimits itself. -/
theorem written_delimits (server : Server) (env : Env) (labels : List Label) (c : Conn)
    (hrun : Conn.Run server env AnyStep labels c) :
    (responses c.log = [] ∧ written c.log = []) ∨
      (∃ reply, responses c.log = [.upgrade reply] ∧ written c.log = reply.wire) ∨
      ∃ reply, responses c.log = [.http reply] ∧ written c.log = reply.wire ∧
        HttpServer.Delimits reply := by
  have hwell := Conn.wellWritten_of_run hrun
  obtain ⟨h, x, hexchange, -⟩ := Conn.fits_of_run hrun
  have hlen := Exchange.length_responses_le hexchange
  have hwritten := written_eq hwell
  cases hresponses : responses c.log with
  | nil =>
      rw [hresponses] at hwritten
      exact .inl ⟨rfl, hwritten⟩
  | cons response more =>
      rw [hresponses, List.length_cons] at hlen
      obtain rfl : more = [] := List.eq_nil_of_length_eq_zero (by omega)
      rw [hresponses, List.flatMap_singleton] at hwritten
      cases response with
      | upgrade reply => exact .inr (.inl ⟨reply, rfl, hwritten⟩)
      | http reply =>
          refine .inr (.inr ⟨reply, rfl, hwritten, ?_⟩)
          exact (wellFormed_of_responses hwell (by simp [hresponses])).delimits

section Echo

open EchoServer

/-- A request for a page that the echo server does not have. -/
theorem written_delimits_echo :
    ∃ c, Conn.Run (myServer noFiles) answering AnyStep
        [.readCompletes #v[0, 0, 0, 0] 0 (chars "GET / HTTP/1.0\r\n\r\n"), .call] c ∧
      responses c.log = [.http (.stockReply .notFound)] ∧
      HttpServer.Delimits (.stockReply .notFound) := by
  have hclient : ∃ c, Conn.Run (myServer noFiles) answering AnyStep
      [.readCompletes #v[0, 0, 0, 0] 0 (chars "GET / HTTP/1.0\r\n\r\n"), .call] c ∧
        responses c.log = [.http (.stockReply .notFound)] :=
    Reaches.exists_of_runFrom (fun c : Conn => responses c.log) (by decide)
  obtain ⟨c, hrun, hresponses⟩ := hclient
  refine ⟨c, hrun, hresponses, ?_⟩
  rcases written_delimits _ _ _ c hrun with ⟨hnil, -⟩ | ⟨reply, hupgrade, -⟩ | ⟨reply, hhttp, -, h⟩
  · simp [hresponses] at hnil
  · simp [hresponses] at hupgrade
  · obtain rfl : HttpServer.Reply.stockReply .notFound = reply := by
      simpa [hresponses] using hhttp
    exact h

end Echo

end Splice

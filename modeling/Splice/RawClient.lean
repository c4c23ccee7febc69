import Splice.Dispatch
import Splice.TcpEcho

/-!
# Splice.RawClient

`raw_client` at the echo server: it sends the GUID of `my_tcp_session`, then a line, and reads
as many bytes as the line has.

The server takes what a read brings for the GUID, and what the next one brings for the line.
So the client gets its line back exactly if each comes in one read of its own.
-/

namespace Splice

open ComposedWrite
open EchoServer
open TcpSession (EchoClass)
open Transition

namespace RawClient

def handshake : List UInt8 := chars "\x7b21BB758F-BC6A-42C4-92B1-6B5332CEAEBF\x7d"

/-- What it sends. -/
def stream (request : List UInt8) : List UInt8 := handshake ++ request

/-- What it asks the socket to read: the bytes that are there, if they are enough. -/
def read (request wire : List UInt8) : Option (List UInt8) :=
  if request.length ≤ wire.length then some (wire.take request.length) else none

/-- The server takes a connection whose first read is `first` to `my_tcp_session`. -/
def Accepts (site : HttpServer.Site) (env : Env) (first : List UInt8) : Prop :=
  ∃ junk labels c,
    Conn.Run (myServer site) env AnyStep (.readCompletes junk 0 first :: labels) c ∧
      .onHandshakeSuccess .tcp ∈ c.log

/-- The server reads `first` and then `strings`, and the client gets `reply`. -/
def Replies (site : HttpServer.Site) (env : Env) (request first : List UInt8)
    (strings : List (List UInt8)) (reply : List UInt8) : Prop :=
  Accepts site env first ∧ ∃ labels conn, TcpEcho.Run .myTcpSession AnyStep labels conn ∧
    TcpEcho.stringsOf labels = strings ∧ read request conn.sink.wire = some reply

/-! ## The handshake -/

variable {site : HttpServer.Site} {env : Env} {first request reply : List UInt8}
  {strings : List (List UInt8)}

theorem success_mem_guidOffers {tag : HandShake} :
    Event.onHandshakeSuccess .tcp ∈ guidOffers tag first ↔ handshake = first := by
  unfold guidOffers
  have hne : ¬ handshake = chars "\x7b40CBD5AC-856A-4EA5-AE00-DFB199ABED64\x7d" := by decide
  split_ifs with hser htcp
  · subst hser
    simp [hne]
  · simpa [handshake] using htcp
  · simpa [handshake] using htcp

/-- **What it takes to get to the session.** -/
theorem accepted_iff (site : HttpServer.Site) (env : Env) (hne : first ≠ [])
    (hfirst : first <+: stream request) (hlen : first.length ≤ 8192) :
    Accepts site env first ↔ first = handshake := by
  constructor
  · rintro ⟨junk, labels, c, hrun, hmem⟩
    obtain ⟨byte, rest, rfl⟩ := List.exists_cons_of_ne_nil hne
    obtain rfl : byte = 0x7b := (List.cons_prefix_cons.mp hfirst).1
    obtain ⟨e, hlast, hfinal⟩ := final_outcome site env rest
    rw [← dispatch_myServer] at hlast
    have hlog := Conn.log_of_final hlast hfinal hrun
    obtain ⟨tag, houtcome⟩ := outcome_brace site env rest
    rw [dispatch_myServer, houtcome] at hlog
    have hmem' := hlog.subset hmem
    simp only [List.mem_cons, reduceCtorEq, false_or] at hmem'
    exact (success_mem_guidOffers.mp hmem').symm
  · rintro rfl
    obtain ⟨n, c, -, hrun, hlog⟩ :=
      Conn.exists_run_of_first (myServer site) env #v[0, 0, 0, 0] hlen
    obtain ⟨tag, houtcome⟩ := outcome_brace site env handshake.tail
    have hguid : .onHandshakeSuccess .tcp ∈ guidOffers tag (0x7b :: handshake.tail) :=
      success_mem_guidOffers.mpr (by decide)
    refine ⟨_, _, c, hrun, ?_⟩
    have hbrace : handshake = 0x7b :: handshake.tail := by decide
    rw [hlog, dispatch_myServer, hbrace, houtcome]
    simp [hguid]

/-! ## The reply -/

/-- What has been sent back is a part of what was read. -/
theorem wire_sublist {up : EchoClass} {labels : List TcpEcho.Label} {conn : TcpEcho}
    (hrun : TcpEcho.Run up AnyStep labels conn) :
    conn.sink.wire.Sublist (TcpEcho.stringsOf labels).flatten := by
  have hinv := TcpEcho.inv_of_run hrun
  have hsub := hinv.inTurn.sublist
  rwa [Sink.expected, List.flatMap_def, hinv.writes, TcpEcho.heard_of_run hrun] at hsub

/-- One string, read as a whole and sent back. -/
theorem exists_echo (hne : request ≠ []) (hlen : request.length ≤ 8192) :
    ∃ labels conn, TcpEcho.Run .myTcpSession AnyStep labels conn ∧
      TcpEcho.stringsOf labels = [request] ∧ conn.sink.wire = request := by
  let conn := (TcpEcho.start .myTcpSession).writing request
  have hread : (TcpEcho.start .myTcpSession).step .myTcpSession (.readCompletes 0 request) =
      some conn := by
    rw [TcpEcho.step, if_pos ⟨rfl, fun _ => ⟨rfl, hlen⟩⟩]
    simp [EchoClass.onAsyncReadString, EchoClass.onReadString, TcpEcho.perform, conn,
      TcpEcho.writing, TcpSession.asyncWrite]
  obtain ⟨sink, hsink, hwire⟩ : ∃ sink, conn.sink.writeSome 0 request.length = some sink ∧
      sink.wire = request := by
    have hsome : 0 < request.length ∧ request.length ≤ (Write.start request).unsent.length :=
      ⟨List.length_pos_iff.mpr hne, le_rfl⟩
    refine ⟨_, dif_pos hsome, ?_⟩
    simp [conn, TcpEcho.writing, TcpEcho.start, TcpEcho.perform, EchoClass.onConnected, Sink.start,
      Sink.empty]
  have hwrite : conn.step .myTcpSession (.writeSome 0 request.length) =
      some { conn with sink := sink } := by
    rw [TcpEcho.step, if_pos ⟨rfl, rfl⟩, hsink]
    rfl
  exact ⟨[.readCompletes 0 request, .writeSome 0 request.length], _,
    .step (.step .init trivial hread) trivial hwrite, rfl, hwire⟩

/-- **The client gets a reply exactly if the GUID and then its line come in one read each**, and
then the reply is its line. -/
theorem replies_iff (site : HttpServer.Site) (env : Env) (request first : List UInt8)
    (strings : List (List UInt8)) (reply : List UInt8) (hrequest : request ≠ [])
    (hlen : request.length < 1024) (hne : first ≠ []) (hfirst : first.length ≤ 8192)
    (hsent : (first :: strings).flatten <+: stream request) :
    Replies site env request first strings reply ↔
      first = handshake ∧ strings = [request] ∧ reply = request := by
  rw [List.flatten_cons] at hsent
  have haccepted := accepted_iff site env hne ((List.prefix_append _ _).trans hsent) hfirst
  rw [Replies, haccepted]
  constructor
  · rintro ⟨rfl, labels, conn, hrun, rfl, hread⟩
    obtain ⟨henough, hreply⟩ := Option.ite_none_right_eq_some.mp hread
    have hstrings : (TcpEcho.stringsOf labels).flatten <+: request :=
      (List.prefix_append_right_inj _).mp hsent
    have hsub := wire_sublist hrun
    have hall : (TcpEcho.stringsOf labels).flatten = request :=
      hstrings.eq_of_length_le (henough.trans hsub.length_le)
    have hwire : conn.sink.wire = request := by
      rw [hall] at hsub
      exact hsub.eq_of_length_le henough
    have hone := (TcpEcho.heard_length_of_run hrun).1
    rw [TcpEcho.heard_of_run hrun] at hone
    refine ⟨rfl, ?_, ?_⟩
    · -- the session does not read a second time
      match hstringsOf : TcpEcho.stringsOf labels with
      | [] =>
          rw [hstringsOf] at hall
          exact absurd hall.symm hrequest
      | [string] =>
          rw [hstringsOf, List.flatten_singleton] at hall
          rw [hall]
      | _ :: _ :: _ =>
          rw [hstringsOf] at hone
          simp at hone
    · rw [← Option.some.inj hreply, hwire, List.take_length]
  · rintro ⟨rfl, rfl, rfl⟩
    obtain ⟨labels, conn, hrun, hlabels, hwire⟩ := exists_echo hrequest (by omega)
    refine ⟨rfl, labels, conn, hrun, hlabels, ?_⟩
    rw [hwire, read, if_pos le_rfl, List.take_length]

/-- "hi" in a read of its own, and behind the GUID in the same read. -/
theorem replies_iff_hi :
    Replies noFiles answering (chars "hi") handshake [chars "hi"] (chars "hi") ∧
      ¬ Replies noFiles answering (chars "hi") (handshake ++ chars "h") [chars "i"]
        (chars "hi") := by
  constructor
  · exact (replies_iff noFiles answering (chars "hi") handshake [chars "hi"] (chars "hi")
      (by decide) (by decide) (by decide) (by decide) (by decide)).mpr ⟨rfl, rfl, rfl⟩
  · intro h
    have hcut := (replies_iff noFiles answering (chars "hi") (handshake ++ chars "h") [chars "i"]
      (chars "hi") (by decide) (by decide) (by decide) (by decide) (by decide)).mp h
    exact absurd hcut.1 (by decide)

end RawClient

end Splice

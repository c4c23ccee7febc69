import Splice.SerializeProgress
import Mathlib.Data.Prod.Lex

/-!
# Splice.SerializeReply

When `serialize_client` gets its reply.  Without a failure each step of the exchange leaves
less to do (`rank`), so that it ends; and it does not end before the client has heard the
reply.
-/

namespace Splice

open ComposedWrite
open EchoServer
open Serialization (Handler Receiver headerLength)
open Transition

namespace SerializeClient

variable {setup : Setup} {site : HttpServer.Site} {env : Env} {side : Side} {now : Int64}
  {p p' : Party} {s s' : SerializeClient} {label : Label} {labels : List Label}

/-! ## What is left to do -/

/-- The handlers that an end still has to run. -/
def pendingRank : Side → Option Pending → Nat
  | _, none => 0
  | .client, some .onWriteGuid => 4
  | .client, some .onWrite => 3
  | .client, some (.onRead _ .onReadHeader) => 2
  | .client, some (.onRead _ .onReadData) => 1
  | .server, some (.onRead _ .onReadHeader) => 3
  | .server, some (.onRead _ .onReadData) => 2
  | .server, some .onWrite | .server, some .onWriteGuid => 1

/-- The sessions that still have to be offered the GUID, and the session's handlers. -/
def connRank (c : Conn) : Nat :=
  match c.next with
  | .asyncReadSome _ _ => 2 ^ 32 + 5
  | .handshakeFail protocolIndex _ => protocolIndex.toNat + 5
  | .asyncWrite _ _ | .onHandshakeSuccess _ _ | .stop _ => 4

/-- The bytes that a socket has to take. -/
def unsent (sink : Sink UInt8) : Nat := sink.expected.length - sink.wire.length

/-- The handlers come first, then the bytes. -/
def rank (s : SerializeClient) : Nat ×ₗ Nat :=
  toLex (pendingRank .client s.client.pending +
      (if s.begun then pendingRank .server s.server.pending else connRank s.conn),
    unsent s.client.out + unsent s.server.out)

/-- The rank falls with what the client has pending. -/
theorem rank_client (h : pendingRank .client p.pending < pendingRank .client s.client.pending) :
    rank { s with client := p } < rank s := by
  rw [rank, rank, Prod.Lex.toLex_lt_toLex]
  exact .inl (Nat.add_lt_add_right h _)

/-- It falls with what the session has pending. -/
theorem rank_server (hbegun : s.begun = true)
    (h : pendingRank .server p.pending < pendingRank .server s.server.pending) :
    rank { s with server := p } < rank s := by
  rw [rank, rank, Prod.Lex.toLex_lt_toLex]
  simp only [hbegun, if_true]
  exact .inl (Nat.add_lt_add_left h _)

/-- Before the session has begun it falls with the handshake. -/
theorem rank_conn (hbegun : s.begun = false) {conn : Conn} (h : connRank conn < connRank s.conn)
    (p : Party) : rank { s with conn := conn, server := p } < rank s := by
  rw [rank, rank, Prod.Lex.toLex_lt_toLex]
  simp only [hbegun]
  exact .inl (Nat.add_lt_add_left h _)

/-- A socket that takes bytes has fewer to take. -/
theorem unsent_writeSome {opening : List (List UInt8)} (h : Sends setup opening p)
    {op count : Nat} {out : Sink UInt8} (hwrite : p.out.writeSome op count = some out) :
    unsent out < unsent p.out := by
  have hle : out.wire.length ≤ out.expected.length :=
    (sends_writeSome h hwrite).inOrder.wire_first.length_le
  obtain ⟨_, _, write, hcount, _, _, hpos, hwire, _⟩ := Sink.writeSome_cases hwrite
  rw [Sink.expected_writeSome hwrite, hwire, List.length_append,
    List.length_take_of_le hcount] at hle
  rw [unsent, unsent, Sink.expected_writeSome hwrite, hwire, List.length_append,
    List.length_take_of_le hcount]
  omega

/-- A step of a write lowers the rank. -/
theorem rank_writeSome (h : Inv setup site env s) {op count : Nat} {out : Sink UInt8}
    (hwrite : (s.party side).out.writeSome op count = some out) :
    rank (s.update { s.party side with out := out } side) < rank s := by
  rw [rank, rank, Prod.Lex.toLex_lt_toLex]
  cases side with
  | client => exact .inr ⟨rfl, Nat.add_lt_add_right (unsent_writeSome h.clientSends hwrite) _⟩
  | server => exact .inr ⟨rfl, Nat.add_lt_add_left (unsent_writeSome h.serverSends hwrite) _⟩

/-- A step without a failure, in which a read brings what it is taken for. -/
def SmoothStep (setup : Setup) (site : HttpServer.Site) (env : Env) (s s' : SerializeClient) :
    Prop :=
  ∃ label, Smooth s label ∧ s.step setup site env label = some s'

/-! ## It gets less -/

/-- A connection that offers the GUID has a call to make for each index left. -/
theorem connRank_offering {conn : Conn} {later : List UInt32}
    (h : Conn.Offering (myServer site) env guid later conn) : connRank conn = later.length + 5 := by
  obtain ⟨protocolIndex, incoming, hnext, -, rfl, -⟩ := h
  simp [connRank, hnext, below]

/-- A connection that has dispatched the GUID has only to begin its session. -/
theorem connRank_dispatched {conn : Conn} (hsettled : conn.Settled)
    (h : Conn.Dispatched (myServer site) env guid conn) : connRank conn = 4 := by
  obtain ⟨calls, hnext⟩ := next_of_dispatched hsettled h
  simp [connRank, hnext]

/-- The first read of the handshake lowers the rank. -/
theorem rank_handshakeRead (h : Inv setup site env s) {junk : MaskingKey} {conn : Conn}
    (hstep : s.conn.step (myServer site) env (.readCompletes junk 0 guid) = some conn) :
    rank { s with
      conn := conn
      server := { s.server with taken := s.server.taken + guid.length } } < rank s := by
  obtain ⟨hbegun, hfresh, -⟩ := h.fresh_of_read hstep
  refine rank_conn hbegun ?_ _
  have hbefore : connRank s.conn = 2 ^ 32 + 5 := by rw [hfresh]; rfl
  rw [hfresh] at hstep
  rcases Conn.first_step hstep with hoffering | hdone
  · have hlen := connRank_offering hoffering
    have hcount : (countdown (myServer site).protocolCount).length = 4 := rfl
    omega
  · have hsettled := Conn.settled_step (Conn.settled_onAccept _) hstep
    rw [connRank_dispatched hsettled hdone]
    omega

/-- A call of the handshake lowers the rank. -/
theorem rank_handshakeCall (h : Inv setup site env s) (halive : Alive site env s) {conn : Conn}
    (hstep : s.conn.step (myServer site) env .call = some conn) :
    rank { s with conn := conn } < rank s := by
  cases h.server with
  | session _ hnext => simp [Conn.step, hnext] at hstep
  | handshake hbegun hsettled =>
      refine rank_conn hbegun ?_ s.server
      have hafter := Conn.settled_step hsettled hstep
      rcases halive.handshake hbegun with hconn | ⟨later, hoffering⟩ | hdone
      · rw [hconn] at hstep
        cases hstep
      · rw [connRank_offering hoffering]
        cases later with
        | nil =>
            obtain ⟨c, hc, hdone⟩ := Conn.call_nil hoffering
            obtain rfl := Option.some.inj (hc.symm.trans hstep)
            rw [connRank_dispatched hafter hdone]
            exact Nat.lt_succ_of_le (Nat.le_add_left 4 _)
        | cons protocolIndex later =>
            obtain ⟨c, hc, hnext⟩ := Conn.call_cons hoffering
            obtain rfl := Option.some.inj (hc.symm.trans hstep)
            rcases hnext with hoffering | hdone
            · rw [connRank_offering hoffering, List.length_cons]
              omega
            · rw [connRank_dispatched hafter hdone]
              omega
      · obtain ⟨calls, hnext⟩ := next_of_dispatched hsettled hdone
        simp [Conn.step, hnext] at hstep

/-- The beginning of the session lowers the rank. -/
theorem rank_onHandshakeSuccess (hbegun : s.begun = false) {calls : List WsSession.Call}
    (hnext : s.conn.next = .onHandshakeSuccess .serialization calls) :
    rank { s with begun := true, server := s.server.onHandshakeSuccess } < rank s := by
  have hconn : connRank s.conn = 4 := by simp [connRank, hnext]
  rw [rank, rank, Prod.Lex.toLex_lt_toLex]
  left
  simp [hbegun, hconn, Party.onHandshakeSuccess, pendingRank]

section End

variable (hround : ∀ msg, setup.unarchive (setup.archive msg) = some msg)
  (hclient : ∀ sent, (setup.archive (.clientEchoTimed setup.request sent)).length < 2 ^ 32)
  (hserver : ∀ sent now,
    (setup.archive (.serverEchoTimed setup.request sent now)).length < 2 ^ 32)

include hround hserver in
/-- A read that fills its buffer lowers the rank. -/
theorem rank_read (h : Inv setup site env s) {size : Nat} {handler : Handler}
    (hpending : (s.party side).pending = some (.onRead size handler))
    (hthere : size ≤ (s.incoming side).length) :
    rank (s.update ((s.party side).completeRead setup side now size handler
      ((s.incoming side).take size)) side) < rank s := by
  cases side with
  | client =>
      have hresult := h.reads_client hround hpending (.inr rfl) le_rfl hthere now
      refine rank_client ?_
      rw [show s.client.pending = _ from hpending]
      cases handler with
      | onReadHeader =>
          obtain ⟨size', hnext⟩ := hresult.of_header
          simp [party, hnext, pendingRank]
      | onReadData =>
          obtain ⟨got, -, hgot⟩ := hresult.of_data
          cases got <;> simp [party, hgot, Party.onRead, pendingRank]
  | server =>
      have hresult := h.reads_server hround hpending (.inr rfl) le_rfl hthere now
      refine rank_server (h.session hpending).1 ?_
      rw [show s.server.pending = _ from hpending]
      cases handler with
      | onReadHeader =>
          obtain ⟨size', hnext⟩ := hresult.of_header
          simp [party, hnext, pendingRank]
      | onReadData =>
          simp [party, pending_of_data_server hserver h hresult, pendingRank]

include hround hclient hserver

/-- **Without a failure each step leaves less to do.** -/
theorem rank_step (h : Inv setup site env s) (halive : Alive site env s)
    (hsmooth : Smooth s label) (hstep : s.step setup site env label = some s') :
    rank s' < rank s := by
  obtain ⟨hfull, hfails⟩ := hsmooth
  cases steps_of_step hstep with
  | @handshakeRead junk error count bytes conn _ _ hbytes hconn =>
      obtain ⟨rfl, hguid⟩ := hfull
      rw [if_pos rfl, hguid] at hbytes
      subst hbytes
      exact rank_handshakeRead h hconn
  | handshakeCall hconn => exact rank_handshakeCall h halive hconn
  | onHandshakeSuccess hbegun hnext => exact rank_onHandshakeSuccess hbegun hnext
  | writeSome _ hwrite => exact rank_writeSome h hwrite
  | @writeGuid side now hpending =>
      cases side with
      | client =>
          refine rank_client ?_
          rw [show s.client.pending = _ from hpending, Party.onWriteGuid,
            pending_asyncWrite (hclient now)]
          decide
      | server =>
          cases (h.session hpending).2 with
          | header hother | data hother | reply hother | ended hother =>
              simp [party, hother] at hpending
  | @writeMsg side _ hpending =>
      cases side with
      | client =>
          refine rank_client ?_
          rw [show s.client.pending = _ from hpending]
          simp [party, Party.onWriteMsg, pendingRank]
      | server =>
          refine rank_server (h.session hpending).1 ?_
          rw [show s.server.pending = _ from hpending]
          simp [party, Party.onWriteMsg, pendingRank]
  | @readCompletes side count now size handler hpending _ _ hthere =>
      obtain rfl := hfull size handler hpending
      exact rank_read hround hserver h hpending hthere
  | @fails side => exact absurd rfl (hfails side)

/-- So the exchange ends. -/
theorem acc_of_run (hrun : Run setup site env Smooth labels s) :
    Acc (fun later earlier => SmoothStep setup site env earlier later) s := by
  refine acc_of_decreasing wellFounded_lt
    (I := fun s => Inv setup site env s ∧ Alive site env s) rank ?_
    (alive_of_run hround hclient hserver hrun)
  rintro s s' ⟨h, halive⟩ ⟨label, hsmooth, hstep⟩
  exact ⟨⟨inv_step h hround (hsmooth.checked setup) hstep,
      alive_step hround hclient hserver h halive hsmooth hstep⟩,
    rank_step hround hclient hserver h halive hsmooth hstep⟩

/-- And it does not end before the reply has been heard. -/
theorem heard_or_step (hrun : Run setup site env Smooth labels s) :
    (∃ sent now, s.client.heard = [.serverEchoTimed setup.request sent now]) ∨
      ∃ s', SmoothStep setup site env s s' := by
  rcases (goes_heard hround hclient hserver).holds_or_step hrun trivial with
    hheard | ⟨label, s', hsmooth, hstep⟩
  · have h := inv_of_run hround (fun _ _ h => h.checked setup) hrun
    have hsame := h.heard_client.resolve_left hheard
    rw [hsame] at hheard
    obtain ⟨sent, now, -, hsaid⟩ := h.reply.resolve_left hheard
    exact .inl ⟨sent, now, hsame.trans hsaid⟩
  · exact .inr ⟨s', label, hsmooth, hstep⟩

end End

/-- **When the client gets its reply.**  Where assertions are compiled in, it hears something
only if the server's first read is the GUID alone and every read of a header or of data fills
its buffer; and where that is so and nothing fails, the exchange ends, and not before the
client has heard the reply. -/
theorem hears_reply (setup : Setup) (site : HttpServer.Site) (env : Env)
    (hround : ∀ msg, setup.unarchive (setup.archive msg) = some msg)
    (hclient : ∀ sent, (setup.archive (.clientEchoTimed setup.request sent)).length < 2 ^ 32)
    (hserver : ∀ sent now,
      (setup.archive (.serverEchoTimed setup.request sent now)).length < 2 ^ 32) :
    (setup.isDebug = true → ∀ labels s, Run setup site env AnyStep labels s →
      s.client.heard ≠ [] → Run setup site env FullRead labels s) ∧
    ∀ labels s, Run setup site env Smooth labels s →
      Acc (fun later earlier => SmoothStep setup site env earlier later) s ∧
      ((∃ sent now, s.client.heard = [.serverEchoTimed setup.request sent now]) ∨
        ∃ s', SmoothStep setup site env s s') :=
  ⟨fun hdebug _ _ hrun hheard => fullRead_of_heard hdebug hround hrun hheard,
    fun _ _ hrun => ⟨acc_of_run hround hclient hserver hrun,
      heard_or_step hround hclient hserver hrun⟩⟩

section Hi

theorem length_archive_client (sent : Int64) :
    ((textSetup true (chars "hi")).archive (.clientEchoTimed (chars "hi") sent)).length = 48 := by
  have hchars : (chars "22 serialization::archive 12 ").length = 29 ∧ (chars "hi").length = 2 := by
    decide
  simp [textSetup, length_timeField, hchars]

theorem length_archive_server (sent now : Int64) :
    ((textSetup true (chars "hi")).archive (.serverEchoTimed (chars "hi") sent now)).length =
      64 := by
  have hchars : (chars "22 serialization::archive 12 ").length = 29 ∧ (chars "hi").length = 2 := by
    decide
  simp [textSetup, length_timeField, hchars]

/-- The exchange has only full reads, and what begins without a failure comes to an end. -/
theorem hears_reply_hi :
    (∃ s, Run (textSetup true (chars "hi")) noFiles answering FullRead exchange s) ∧
      Acc (fun later earlier =>
        SmoothStep (textSetup true (chars "hi")) noFiles answering earlier later) (start noFiles) ∧
      ∃ s', SmoothStep (textSetup true (chars "hi")) noFiles answering (start noFiles) s' := by
  obtain ⟨hfull, hgoes⟩ := hears_reply (textSetup true (chars "hi")) noFiles answering
    (unarchive_textSetup true (chars "hi"))
    (fun sent => by rw [show (textSetup true (chars "hi")).request = chars "hi" from rfl,
      length_archive_client]; decide)
    fun sent now => by rw [show (textSetup true (chars "hi")).request = chars "hi" from rfl,
      length_archive_server]; decide
  obtain ⟨s, hrun, hheard⟩ := exists_exchange
  obtain ⟨hacc, hheard' | hstep⟩ := hgoes [] _ .init
  · obtain ⟨sent, now, hnil⟩ := hheard'
    simp [start, Party.onSocketConnected, Party.idle] at hnil
  · exact ⟨⟨s, hfull rfl exchange s hrun (by simp [hheard])⟩, hacc, hstep⟩

end Hi

end SerializeClient

end Splice

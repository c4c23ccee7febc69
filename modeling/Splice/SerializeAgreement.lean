import Splice.SerializeClient

/-!
# Splice.SerializeAgreement

The two ends of `serialize_client`'s exchange over whole runs.  Where assertions are compiled
in an end that hears something hears what the other one said, whatever the sockets do; where
they are not, as long as every read fills its buffer (`agrees`).
-/

namespace Splice

open ComposedWrite
open EchoServer
open Serialization (Handler Receiver filled headerLength sizeField)
open Transition

namespace SerializeClient

variable {setup : Setup} {site : HttpServer.Site} {env : Env} {side : Side} {now : Int64}
  {opening : List (List UInt8)} {p p' : Party} {questions replies : List Message}

/-! ## The handshake's steps -/

section Handshake

variable {conn conn' : Conn} {first more : List UInt8}

/-- What has been read of the client begins with the brace of the GUID. -/
theorem exists_brace (hne : first ≠ []) (hfirst : first <+: guid ++ more) :
    ∃ rest, first = 0x7b :: rest := by
  obtain ⟨byte, rest, rfl⟩ := List.exists_cons_of_ne_nil hne
  obtain rfl : byte = 0x7b := (List.cons_prefix_cons.mp hfirst).1
  exact ⟨rest, rfl⟩

/-- Where the sessions have been asked, the last one has ended the handshake. -/
theorem final_of_dispatched (h : Conn.Dispatched (myServer site) env first conn)
    (hne : first ≠ []) (hfirst : first <+: guid ++ more) :
    ∃ e, conn.log.getLast? = some e ∧ e.Final ∧ ∃ tag, e ∈ guidOffers tag first := by
  obtain ⟨rest, rfl⟩ := exists_brace hne hfirst
  obtain ⟨tag, houtcome⟩ := outcome_brace site env rest
  obtain ⟨e, hlast, hfinal⟩ := final_guidOffers tag (0x7b :: rest)
  refine ⟨e, ?_, hfinal, tag, List.mem_of_getLast? hlast⟩
  rw [h, dispatch_myServer, houtcome, List.getLast?_cons, List.getLast?_cons, List.getLast?_cons,
    hlast]
  rfl

/-- A read that completes during the handshake is the first one. -/
theorem HandshakePhase.fresh_of_read (h : HandshakePhase site env conn first)
    (hsettled : conn.Settled) (hfirst : first <+: guid ++ more) {junk : MaskingKey}
    {error : ErrorCode} {bytes : List UInt8}
    (hstep : conn.step (myServer site) env (.readCompletes junk error bytes) = some conn') :
    conn = Conn.onAccept (myServer site) ∧ first = [] := by
  cases h with
  | fresh hconn hnil => exact ⟨hconn, hnil⟩
  | offering hoffering =>
      obtain ⟨_, _, hnext, -⟩ := hoffering
      simp [Conn.step, hnext] at hstep
  | dispatched hdone hne =>
      obtain ⟨e, hlast, hfinal, -⟩ := final_of_dispatched hdone hne hfirst
      rw [hsettled.isSealed e hlast hfinal] at hstep
      cases hstep
  | stopped hnext => simp [Conn.step, hnext] at hstep

/-- The first read leads to the phase in which the GUID is offered. -/
theorem handshakePhase_of_read {junk : MaskingKey} {error : ErrorCode} {bytes : List UInt8}
    (hbytes : error = 0 → bytes ≠ [])
    (hstep : (Conn.onAccept (myServer site)).step (myServer site) env
      (.readCompletes junk error bytes) = some conn') : HandshakePhase site env conn' bytes := by
  by_cases herror : error = 0
  · subst herror
    rcases Conn.first_step hstep with hoffering | hdone
    · exact .offering hoffering (hbytes rfl)
    · exact .dispatched hdone (hbytes rfl)
  · obtain ⟨-, hstep⟩ := Option.ite_none_right_eq_some.mp hstep
    obtain rfl := Option.some.inj hstep
    refine @HandshakePhase.stopped site env _ bytes (.onErrorCode error) ?_
    show WsHandshake.onFirstRead _ _ _ _ _ _ error = _
    rw [WsHandshake.onFirstRead, if_pos herror]

/-- Further calls stay in that phase. -/
theorem HandshakePhase.call (h : HandshakePhase site env conn first) (hsettled : conn.Settled)
    (hfirst : first <+: guid ++ more)
    (hstep : conn.step (myServer site) env .call = some conn') :
    HandshakePhase site env conn' first := by
  cases h with
  | fresh hconn => subst hconn; cases hstep
  | offering hoffering hne =>
      rcases Conn.offering_step ⟨_, hoffering⟩ hstep with ⟨later, hoffering⟩ | hdone
      · exact .offering hoffering hne
      · exact .dispatched hdone hne
  | dispatched hdone hne =>
      obtain ⟨e, hlast, hfinal, -⟩ := final_of_dispatched hdone hne hfirst
      rw [hsettled.isSealed e hlast hfinal] at hstep
      cases hstep
  | stopped hnext => simp [Conn.step, hnext] at hstep

/-- Only the GUID establishes the session. -/
theorem success_mem_guidOffers {tag : HandShake} :
    Event.onHandshakeSuccess .serialization ∈ guidOffers tag first ↔ guid = first := by
  unfold guidOffers
  split_ifs with hser htcp
  · simpa [guid] using hser
  · simpa [guid] using hser
  · simpa [guid] using hser

/-- The session is handed a connection of which the GUID has been read, and nothing else. -/
theorem HandshakePhase.guid_of_success (h : HandshakePhase site env conn first)
    (hsettled : conn.Settled) (hfirst : first <+: guid ++ more) {calls : List WsSession.Call}
    (hnext : conn.next = .onHandshakeSuccess .serialization calls) : first = guid := by
  cases h with
  | fresh hconn => subst hconn; cases hnext
  | offering hoffering =>
      obtain ⟨_, _, hother, -⟩ := hoffering
      rw [hnext] at hother
      cases hother
  | dispatched hdone hne =>
      obtain ⟨e, hlast, hfinal, tag, hmem⟩ := final_of_dispatched hdone hne hfirst
      have hlastNext := hsettled e hlast hfinal
      rw [hnext] at hlastNext
      obtain rfl : _ = e := by simpa [Next.events] using hlastNext
      exact (success_mem_guidOffers.mp hmem).symm
  | stopped hother => rw [hnext] at hother; cases hother

end Handshake

/-! ## Over a run -/

variable {s s' : SerializeClient} {label : Label} {labels : List Label}

/-- In every phase the session has said at most an answer to what it has heard. -/
theorem ServerPhase.answers (h : ServerPhase setup questions p) : Answers p.heard p.said := by
  cases h with
  | header _ _ hsaid | data _ _ hsaid => exact .inl hsaid
  | reply _ _ _ hanswers | ended _ _ hanswers => exact hanswers

/-- It has heard nothing or the one question. -/
theorem ServerPhase.heard_cases (h : ServerPhase setup questions p) :
    p.heard = [] ∨ p.heard = questions := by
  cases h with
  | header _ hheard | data _ hheard => exact .inl hheard
  | reply _ hheard => exact .inr hheard
  | ended _ hheard => exact hheard

/-- The server's side answers what it has heard, begun or not. -/
theorem ServerState.answers (h : ServerState setup site env s) :
    Answers s.server.heard s.server.said := by
  cases h with
  | handshake _ _ _ hidle => exact .inl (by rw [hidle]; rfl)
  | session _ _ hphase => exact hphase.answers

/-- It has heard nothing or what the client said. -/
theorem ServerState.heard_cases (h : ServerState setup site env s) :
    s.server.heard = [] ∨ s.server.heard = s.client.said := by
  cases h with
  | handshake _ _ _ hidle => exact .inl (by rw [hidle]; rfl)
  | session _ _ hphase => exact hphase.heard_cases

/-- The client says one line at most. -/
theorem Inv.said_client (h : Inv setup site env s) :
    s.client.said.length ≤ 1 ∧
      ∀ msg ∈ s.client.said, ∃ text sent, msg = .clientEchoTimed text sent := by
  rcases h.client.said_cases with hsaid | ⟨sent, hsaid⟩ <;> simp [hsaid]

/-- The session says one reply at most. -/
theorem Inv.said_server (h : Inv setup site env s) :
    s.server.said.length ≤ 1 ∧
      ∀ msg ∈ s.server.said, ∃ text sent now, msg = .serverEchoTimed text sent now := by
  rcases h.server.answers with hsaid | ⟨msg, sent, now, -, hsaid⟩ <;> simp [hsaid]

theorem Inv.wire_client (h : Inv setup site env s) :
    s.client.out.wire <+: guid ++ s.client.said.flatMap (frame setup) := by
  simpa using h.clientSends.wire_first

theorem Inv.wire_server (h : Inv setup site env s) :
    s.server.out.wire <+: s.server.said.flatMap (frame setup) := by
  simpa using h.serverSends.wire_first

/-- What is pending at the server is pending for the session. -/
theorem Inv.session (h : Inv setup site env s) {pending : Pending}
    (hpending : s.server.pending = some pending) :
    s.begun = true ∧ ServerPhase setup s.client.said s.server := by
  cases h.server with
  | handshake _ _ _ hidle => rw [hidle] at hpending; cases hpending
  | session hbegun _ hphase => exact ⟨hbegun, hphase⟩

/-- A read that completes during the handshake finds the server as it was at first. -/
theorem Inv.fresh_of_read (h : Inv setup site env s) {junk : MaskingKey} {error : ErrorCode}
    {bytes : List UInt8} {conn : Conn}
    (hstep : s.conn.step (myServer site) env (.readCompletes junk error bytes) = some conn) :
    s.begun = false ∧ s.conn = Conn.onAccept (myServer site) ∧ s.server = Party.idle := by
  cases h.server with
  | session _ hnext => simp [Conn.step, hnext] at hstep
  | handshake hbegun hsettled hphase hidle hfirst =>
      obtain ⟨hconn, rfl⟩ := hphase.fresh_of_read hsettled (hfirst.trans h.wire_client) hstep
      exact ⟨hbegun, hconn, hidle⟩

/-- The invariant holds before anything has happened. -/
theorem inv_start (setup : Setup) (site : HttpServer.Site) (env : Env) :
    Inv setup site env (start site) where
  clientSends :=
    { writes := rfl
      inOrder := Sink.inOrder_start Sink.inOrder_empty _
      one := nofun
      small := nofun }
  serverSends :=
    { writes := rfl
      inOrder := Sink.inOrder_empty
      one := nofun
      small := nofun }
  client := .guid rfl rfl rfl rfl
  server := .handshake rfl (Conn.settled_onAccept _) (.fresh rfl rfl) rfl List.nil_prefix

/-- A step of a write only adds to its wire. -/
theorem wire_writeSome {sink sink' : Sink UInt8} {op count : Nat}
    (h : sink.writeSome op count = some sink') : sink.wire <+: sink'.wire := by
  obtain ⟨_, _, write, _, _, _, _, hwire, _⟩ := Sink.writeSome_cases h
  rw [hwire]
  exact List.prefix_append _ _

/-- What the client does is nothing to the server, which only sees what it sends and says. -/
theorem ServerState.of_client (h : ServerState setup site env s)
    (hwire : s.client.out.wire <+: p.out.wire)
    (hsaid : s.client.said = [] ∨ p.said = s.client.said) :
    ServerState setup site env { s with client := p } := by
  cases h with
  | handshake hbegun hsettled hphase hidle hfirst =>
      exact .handshake hbegun hsettled hphase hidle (hfirst.trans hwire)
  | session hbegun hnext hphase =>
      refine .session hbegun hnext ?_
      rcases hsaid with hnil | hsame
      · rw [hnil] at hphase
        exact hphase.of_nil _
      · show ServerPhase setup p.said s.server
        rw [hsame]
        exact hphase

/-- Reading, the client says nothing; the server does when it has got a message. -/
theorem Sends.readResult_client (h : Sends setup opening p) {size count : Nat} {handler : Handler}
    (hresult : ReadResult setup .client now replies p size count handler p') :
    Sends setup opening p' ∧ p'.said = p.said ∧ p'.out = p.out := by
  cases hresult with
  | short | header => exact ⟨h.congr rfl rfl, rfl, rfl⟩
  | @data got => cases got <;> exact ⟨h.congr rfl rfl, rfl, rfl⟩

/-- A read of the session that has said nothing leaves it sending at most an answer. -/
theorem Sends.readResult_server (h : Sends setup [] p) (hsaid : p.said = []) {size count : Nat}
    {handler : Handler} (hresult : ReadResult setup .server now questions p size count handler p') :
    Sends setup [] p' := by
  have hdone : p.out.Finished := by
    have hwrites := h.writes
    rw [hsaid] at hwrites
    simp [Sink.Finished, List.map_eq_nil_iff.mp hwrites]
  cases hresult with
  | short | header => exact h.congr rfl rfl
  | @data got =>
      cases got with
      | clientEchoTimed msg sent =>
          exact sends_asyncWrite
            (p := { p with pending := none, taken := p.taken + count, heard := p.heard ++ [_] })
            (h.congr rfl rfl) hdone _
      | serverEchoTimed msg clientSent serverSent => exact h.congr rfl rfl

/-- A step of the client. -/
theorem Inv.of_client (h : Inv setup site env s) (hsends : Sends setup [guid] p)
    (hphase : ClientPhase setup s.server.said p) (hwire : s.client.out.wire <+: p.out.wire)
    (hsaid : s.client.said = [] ∨ p.said = s.client.said) :
    Inv setup site env { s with client := p } :=
  ⟨hsends, h.serverSends, hphase, h.server.of_client hwire hsaid⟩

/-- A step of the server's session. -/
theorem Inv.of_server (h : Inv setup site env s) (hsends : Sends setup [] p)
    (hpending : s.server.pending ≠ none)
    (hphase : ServerPhase setup s.client.said s.server → ServerPhase setup s.client.said p)
    (hsaid : s.server.said = [] ∨ p.said = s.server.said) :
    Inv setup site env { s with server := p } := by
  refine ⟨h.clientSends, hsends, ?_, ?_⟩
  · have hclient := h.client
    rcases hsaid with hnil | hsame
    · rw [hnil] at hclient
      exact hclient.of_nil _
    · show ClientPhase setup p.said s.client
      rw [hsame]
      exact hclient
  · cases h.server with
    | handshake _ _ _ hidle => rw [hidle] at hpending; exact absurd rfl hpending
    | session hbegun hnext hserver => exact .session hbegun hnext (hphase hserver)

/-- A step of a write keeps the invariant. -/
theorem inv_writeSome (h : Inv setup site env s) {op count : Nat} {out : Sink UInt8}
    (hpending : (s.party side).pending = some .onWriteGuid ∨
      (s.party side).pending = some .onWrite)
    (hwrite : (s.party side).out.writeSome op count = some out) :
    Inv setup site env (s.update { s.party side with out := out } side) := by
  cases side with
  | client =>
      simp only [party] at hpending
      refine h.of_client (sends_writeSome h.clientSends hwrite) ?_ (wire_writeSome hwrite)
        (.inr rfl)
      cases h.client with
      | guid hother hsaid hheard htaken => exact .guid hother hsaid hheard htaken
      | question hother hsaid hheard htaken => exact .question hother hsaid hheard htaken
      | header hother | data hother | ended hother => simp [hother] at hpending
  | server =>
      simp only [party] at hpending
      have hsome : s.server.pending ≠ none := by rcases hpending with h | h <;> simp [h]
      refine h.of_server (sends_writeSome h.serverSends hwrite) hsome ?_ (.inr rfl)
      intro hphase
      cases hphase with
      | reply hother hheard hsaid hanswers => exact .reply hother hheard hsaid hanswers
      | header hother | data hother | ended hother => simp [hother] at hpending

/-- The completion of the GUID's write keeps it. -/
theorem inv_writeGuid (h : Inv setup site env s) (hdone : (s.party side).out.Finished)
    (hpending : (s.party side).pending = some .onWriteGuid) (now : Int64) :
    Inv setup site env (s.update ((s.party side).onWriteGuid setup now) side) := by
  cases side with
  | client =>
      simp only [party] at hpending
      have hnil : s.client.said = [] := by
        cases h.client with
        | guid _ hsaid => exact hsaid
        | question hother | header hother | data hother | ended hother => simp [hother] at hpending
      refine h.of_client (sends_asyncWrite h.clientSends hdone _)
        (h.client.onWriteGuid hpending now) ?_ (.inl hnil)
      rw [Party.onWriteGuid, wire_asyncWrite]
      exact List.prefix_refl _
  | server =>
      simp only [party] at hpending
      cases (h.session hpending).2 with
      | header hother | data hother | reply hother | ended hother => simp [hother] at hpending

/-- The completion of a message's write keeps it. -/
theorem inv_writeMsg (h : Inv setup site env s) (hdone : (s.party side).out.Finished)
    (hpending : (s.party side).pending = some .onWrite) :
    Inv setup site env (s.update ((s.party side).onWriteMsg side) side) := by
  cases side with
  | client =>
      exact h.of_client (h.clientSends.congr rfl rfl) (h.client.onWriteMsg hpending hdone)
        (List.prefix_refl _) (.inr rfl)
  | server =>
      have hsome : s.server.pending ≠ none := by simp [show s.server.pending = _ from hpending]
      exact h.of_server (h.serverSends.congr rfl rfl) hsome
        (fun hphase => hphase.onWriteMsg hpending) (.inr rfl)

/-- The failure of an operation keeps it. -/
theorem inv_fails (h : Inv setup site env s) {pending : Pending}
    (hpending : (s.party side).pending = some pending) :
    Inv setup site env (s.update { s.party side with pending := none } side) := by
  cases side with
  | client =>
      exact h.of_client (h.clientSends.congr rfl rfl) (h.client.fails hpending)
        (List.prefix_refl _) (.inr rfl)
  | server =>
      have hsome : s.server.pending ≠ none := by simp [show s.server.pending = _ from hpending]
      exact h.of_server (h.serverSends.congr rfl rfl) hsome (fun hphase => hphase.fails hpending)
        (.inr rfl)

/-- What a read of the client can come to. -/
theorem Inv.reads_client (h : Inv setup site env s)
    (hround : ∀ msg, setup.unarchive (setup.archive msg) = some msg) {size count : Nat}
    {handler : Handler} (hpending : s.client.pending = some (.onRead size handler))
    (hchecked : setup.isDebug = true ∨ count = size)
    (hle : count ≤ size) (hthere : count ≤ (s.incoming .client).length) (now : Int64) :
    ReadResult setup .client now s.server.said s.client size count handler
      (s.client.completeRead setup .client now size handler ((s.incoming .client).take count)) :=
  readResult (h.client.reading hpending).1 hchecked hround h.wire_server h.said_server.1
    h.serverSends.small hle hthere .client now

/-- What a read of the session can come to. -/
theorem Inv.reads_server (h : Inv setup site env s)
    (hround : ∀ msg, setup.unarchive (setup.archive msg) = some msg) {size count : Nat}
    {handler : Handler} (hpending : s.server.pending = some (.onRead size handler))
    (hchecked : setup.isDebug = true ∨ count = size)
    (hle : count ≤ size) (hthere : count ≤ (s.incoming .server).length) (now : Int64) :
    ReadResult setup .server now s.client.said s.server size count handler
      (s.server.completeRead setup .server now size handler ((s.incoming .server).take count)) :=
  readResult ((h.session hpending).2.reading hpending).1 hchecked hround h.wire_client
    h.said_client.1 h.clientSends.small hle hthere .server now

/-- The completion of a read keeps the invariant. -/
theorem inv_read (h : Inv setup site env s)
    (hround : ∀ msg, setup.unarchive (setup.archive msg) = some msg) {size count : Nat}
    {handler : Handler} (hpending : (s.party side).pending = some (.onRead size handler))
    (hchecked : setup.isDebug = true ∨ count = size)
    (hle : count ≤ size) (hthere : count ≤ (s.incoming side).length) (now : Int64) :
    Inv setup site env (s.update ((s.party side).completeRead setup side now size handler
      ((s.incoming side).take count)) side) := by
  cases side with
  | client =>
      have hresult := h.reads_client hround hpending hchecked hle hthere now
      obtain ⟨hsends, hsaid, hout⟩ := h.clientSends.readResult_client hresult
      exact h.of_client hsends (h.client.readResult hpending h.said_server.2 hresult)
        (hout ▸ List.prefix_refl _) (.inr hsaid)
  | server =>
      have hresult := h.reads_server hround hpending hchecked hle hthere now
      have hsome : s.server.pending ≠ none := by simp [show s.server.pending = _ from hpending]
      obtain ⟨-, -, hsaid⟩ := (h.session hpending).2.reading hpending
      exact h.of_server (h.serverSends.readResult_server hsaid hresult) hsome
        (fun hphase => hphase.readResult hpending h.said_client.2 hresult) (.inl hsaid)

/-- A step of the handshake that keeps its phase keeps the invariant. -/
theorem inv_handshake (h : Inv setup site env s) {conn : Conn} {first first' : List UInt8}
    (hbegun : s.begun = false) (hserver : s.server = { Party.idle with taken := first.length })
    (hsettled : conn.Settled) (hphase : HandshakePhase site env conn first')
    (hfirst : first' <+: s.client.out.wire) :
    Inv setup site env
      { s with conn := conn, server := { s.server with taken := first'.length } } :=
  ⟨h.clientSends, h.serverSends.congr rfl rfl, h.client,
    .handshake hbegun hsettled hphase (by rw [hserver]) hfirst⟩

/-- The first read of the handshake keeps it. -/
theorem inv_handshakeRead (h : Inv setup site env s) {junk : MaskingKey} {error : ErrorCode}
    {bytes : List UInt8} {conn : Conn} (hbytes : error = 0 → bytes ≠ [])
    (hincoming : bytes <+: s.incoming .server)
    (hstep : s.conn.step (myServer site) env (.readCompletes junk error bytes) = some conn) :
    Inv setup site env
      { s with
        conn := conn
        server := { s.server with taken := s.server.taken + bytes.length } } := by
  obtain ⟨hbegun, hconn, hidle⟩ := h.fresh_of_read hstep
  have htaken : s.server.taken = 0 := by rw [hidle]; rfl
  rw [incoming, htaken, List.drop_zero] at hincoming
  rw [htaken, Nat.zero_add]
  rw [hconn] at hstep
  have hsettled := Conn.settled_step (Conn.settled_onAccept _) hstep
  have hserver : s.server = { Party.idle with taken := ([] : List UInt8).length } := hidle
  exact inv_handshake h hbegun hserver hsettled (handshakePhase_of_read hbytes hstep) hincoming

/-- A call of the handshake keeps it. -/
theorem inv_handshakeCall (h : Inv setup site env s) {conn : Conn}
    (hstep : s.conn.step (myServer site) env .call = some conn) :
    Inv setup site env { s with conn := conn } := by
  cases h.server with
  | @handshake first hbegun hsettled hphase hidle hfirst =>
      have hcall := hphase.call hsettled (hfirst.trans h.wire_client) hstep
      have hinv := inv_handshake h hbegun hidle (Conn.settled_step hsettled hstep) hcall hfirst
      rwa [show { s.server with taken := first.length } = s.server by rw [hidle]] at hinv
  | session hbegun hnext => simp [Conn.step, hnext] at hstep

/-- The success of the handshake, which begins the session, keeps it. -/
theorem inv_onHandshakeSuccess (h : Inv setup site env s) (hbegun : s.begun = false)
    {calls : List WsSession.Call} (hnext : s.conn.next = .onHandshakeSuccess .serialization calls) :
    Inv setup site env { s with begun := true, server := s.server.onHandshakeSuccess } := by
  cases h.server with
  | @handshake first _ hsettled hphase hidle hfirst =>
      have hguid := hphase.guid_of_success hsettled (hfirst.trans h.wire_client) hnext
      refine ⟨h.clientSends, h.serverSends.congr rfl rfl, h.client, .session rfl hnext ?_⟩
      rw [hidle, hguid]
      exact .header rfl rfl rfl rfl
  | session hbegun' => rw [hbegun] at hbegun'; cases hbegun'

/-- The step lemma. -/
theorem inv_step (h : Inv setup site env s)
    (hround : ∀ msg, setup.unarchive (setup.archive msg) = some msg)
    (hchecked : Checked setup s label)
    (hstep : s.step setup site env label = some s') : Inv setup site env s' := by
  cases steps_of_step hstep with
  | handshakeRead hbytes hincoming _ hconn => exact inv_handshakeRead h hbytes hincoming hconn
  | handshakeCall hconn => exact inv_handshakeCall h hconn
  | onHandshakeSuccess hbegun hnext => exact inv_onHandshakeSuccess h hbegun hnext
  | writeSome hpending hwrite => exact inv_writeSome h hpending hwrite
  | writeGuid hpending hdone => exact inv_writeGuid h hdone hpending _
  | writeMsg hpending hdone => exact inv_writeMsg h hdone hpending
  | readCompletes hpending _ hle hthere =>
      exact inv_read h hround hpending (hchecked.imp_right fun hfills => hfills _ _ hpending)
        hle hthere _
  | fails hpending => exact inv_fails h hpending

/-- The invariant holds in every run whose reads are checked. -/
theorem inv_of_run {guard : SerializeClient → Label → Prop}
    (hround : ∀ msg, setup.unarchive (setup.archive msg) = some msg)
    (hguard : ∀ s label, guard s label → Checked setup s label)
    (hrun : Run setup site env guard labels s) : Inv setup site env s :=
  Reaches.invariant (I := fun _ s => Inv setup site env s) (inv_start setup site env)
    (fun _ s label _ h hlabel hstep => inv_step h hround (hguard s label hlabel) hstep) hrun

/-- What the server says is a reply to the line that was typed in. -/
theorem Inv.reply (h : Inv setup site env s) :
    s.server.said = [] ∨ ∃ sent now, s.server.heard = [.clientEchoTimed setup.request sent] ∧
      s.server.said = [.serverEchoTimed setup.request sent now] := by
  refine h.server.answers.imp_right ?_
  rintro ⟨msg, sent, now, hheard, hsaid⟩
  have hsame : s.server.heard = s.client.said :=
    h.server.heard_cases.resolve_left (by simp [hheard])
  rcases h.client.said_cases with hnil | ⟨asked, hone⟩
  · rw [hsame, hnil] at hheard
    cases hheard
  · rw [hsame, hone] at hheard
    obtain ⟨rfl, rfl⟩ : setup.request = msg ∧ asked = sent := by simpa using hheard
    exact ⟨asked, now, by rw [hsame, hone], hsaid⟩

/-- The client has heard nothing or what the session said. -/
theorem Inv.heard_client (h : Inv setup site env s) :
    s.client.heard = [] ∨ s.client.heard = s.server.said := by
  cases h.client with
  | guid _ _ hnil | question _ _ hnil | header _ _ hnil | data _ _ hnil => exact .inl hnil
  | ended _ _ hheard => exact hheard

/-- **Each end hears what the other one says.**  The client says the line that was typed in,
the server what it has heard with its own time, and nothing else is heard at either end: in
every run where assertions are compiled in, and else in those whose reads fill their
buffers. -/
theorem agrees (setup : Setup) (site : HttpServer.Site) (env : Env)
    (hround : ∀ msg, setup.unarchive (setup.archive msg) = some msg)
    (labels : List Label) (s : SerializeClient)
    (hrun : Run setup site env (Checked setup) labels s) :
    (s.client.said = [] ∨ ∃ sent, s.client.said = [.clientEchoTimed setup.request sent]) ∧
      (s.server.heard = [] ∨ s.server.heard = s.client.said) ∧
      (s.server.said = [] ∨ ∃ sent now, s.server.heard = [.clientEchoTimed setup.request sent] ∧
        s.server.said = [.serverEchoTimed setup.request sent now]) ∧
      (s.client.heard = [] ∨ s.client.heard = s.server.said) := by
  have hinv := inv_of_run hround (fun _ _ h => h) hrun
  exact ⟨hinv.client.said_cases, hinv.server.heard_cases, hinv.reply, hinv.heard_client⟩

section Hi

/-- A time as a number in a field of 16 characters. -/
def timeField (time : Int64) : List UInt8 :=
  HexStream.setw 16 (HexStream.format time.toUInt64.toNat)

/-- The time in the field at the front. -/
def readTime (fields : List UInt8) : Option Int64 :=
  (HexStream.extract 64 (fields.take 16)).map fun n => (UInt64.ofNat n).toInt64

theorem length_timeField (time : Int64) : (timeField time).length = 16 :=
  (HexStream.length_setw_format (by decide)).mpr time.toUInt64.toNat_lt

/-- A time is read back. -/
theorem readTime_append (time : Int64) (rest : List UInt8) :
    readTime (timeField time ++ rest) = some time := by
  rw [readTime, List.take_left' (length_timeField time), timeField,
    HexStream.extract_setw_format time.toUInt64.toNat_lt, Option.map_some, UInt64.ofNat_toNat]
  rfl

/-- Text behind the signature of a text archive: the class, the times and the message. -/
def textSetup (isDebug : Bool) (request : List UInt8) : Setup where
  archive
    | .clientEchoTimed msg sent =>
        chars "22 serialization::archive 12 " ++ (1 :: (timeField sent ++ msg))
    | .serverEchoTimed msg clientSent serverSent =>
        chars "22 serialization::archive 12 " ++
          (2 :: (timeField clientSent ++ (timeField serverSent ++ msg)))
  unarchive bytes :=
    match bytes.drop 29 with
    | [] => none
    | kind :: fields => do
        let first ← readTime fields
        let rest := fields.drop 16
        if kind = 1 then return .clientEchoTimed rest first
        let second ← readTime rest
        return .serverEchoTimed (rest.drop 16) first second
  request := request
  isDebug := isDebug

/-- A message is read back from its archive. -/
theorem unarchive_textSetup (isDebug : Bool) (request : List UInt8) (msg : Message) :
    (textSetup isDebug request).unarchive ((textSetup isDebug request).archive msg) =
      some msg := by
  have hsignature : (chars "22 serialization::archive 12 ").length = 29 := by decide
  cases msg with
  | clientEchoTimed msg sent =>
      simp [textSetup, List.drop_left' hsignature, readTime_append,
        List.drop_left' (length_timeField _)]
  | serverEchoTimed msg clientSent serverSent =>
      have hmsg : (timeField clientSent ++ (timeField serverSent ++ msg)).drop 32 = msg := by
        rw [← List.append_assoc, List.drop_left' (by simp [length_timeField])]
      simp [textSetup, List.drop_left' hsignature, readTime_append,
        List.drop_left' (length_timeField _), hmsg]

/-- An exchange without a short read. -/
def exchange : List Label :=
  [.writeSome .client 0 38, .writeCompletes .client 5, .handshakeRead (.replicate 4 0) 0 38,
    .handshakeCall, .handshakeCall, .handshakeCall, .onHandshakeSuccess, .writeSome .client 1 56,
    .writeCompletes .client 0, .readCompletes .server 8 0, .readCompletes .server 48 7,
    .writeSome .server 0 72, .readCompletes .client 8 0, .readCompletes .client 64 0]

/-- The client hears its line with both times. -/
theorem exists_exchange :
    ∃ s, Run (textSetup true (chars "hi")) noFiles answering AnyStep exchange s ∧
      s.client.heard = [.serverEchoTimed (chars "hi") 5 7] :=
  Reaches.exists_of_runFrom (fun s : SerializeClient => s.client.heard) (by decide +kernel)

/-- So that is what the server has said. -/
theorem agrees_hi : ∃ s, Run (textSetup true (chars "hi")) noFiles answering
    (Checked (textSetup true (chars "hi"))) exchange s ∧
    s.server.said = [.serverEchoTimed (chars "hi") 5 7] := by
  obtain ⟨s, hrun, hheard⟩ := exists_exchange
  have hchecked : Run (textSetup true (chars "hi")) noFiles answering
      (Checked (textSetup true (chars "hi"))) exchange s := hrun.mono fun _ _ _ => .inl rfl
  obtain ⟨-, -, -, hclient⟩ := agrees (textSetup true (chars "hi")) noFiles answering
    (unarchive_textSetup true (chars "hi")) exchange s hchecked
  rw [hheard] at hclient
  exact ⟨s, hchecked, (hclient.resolve_left (by simp)).symm⟩

/-- Where assertions are not compiled in, a short read alters a message: the last byte of the
reply has not come, and a zero is heard in its place. -/
theorem not_agrees_release : ∃ s,
    Run (textSetup false (chars "hi")) noFiles answering AnyStep
      (exchange.dropLast ++ [.readCompletes .client 63 0]) s ∧
    (s.server.said, s.client.heard) =
      ([.serverEchoTimed (chars "hi") 5 7], [.serverEchoTimed (chars "h" ++ [0]) 5 7]) :=
  Reaches.exists_of_runFrom (fun s : SerializeClient => (s.server.said, s.client.heard))
    (by decide +kernel)

end Hi

end SerializeClient

end Splice

import Splice.SerializeShortReads

/-!
# Splice.SerializeProgress

How `serialize_client`'s exchange goes on.  If every read fills its buffer and nothing fails,
both programs stay on their way (`Alive`), and each can do what comes next: the client asks,
the sessions are offered the GUID, the server reads and replies, the client reads
(`goes_heard`).
-/

namespace Splice

open ComposedWrite
open EchoServer
open Serialization (Handler Receiver headerLength)
open Transition

namespace SerializeClient

variable {setup : Setup} {site : HttpServer.Site} {env : Env} {side : Side} {now : Int64}
  {p p' : Party} {s s' : SerializeClient} {label : Label} {labels : List Label}

/-! ## Full reads -/

/-- A message that is small enough is being written. -/
theorem pending_asyncWrite {msg : Message} (hsmall : (setup.archive msg).length < 2 ^ 32) :
    (p.asyncWrite setup msg).pending = some .onWrite := by
  rcases asyncWrite_cases setup p msg with ⟨-, heq⟩ | ⟨hbig, -⟩
  · rw [heq]
  · exact absurd hsmall (not_lt.mpr hbig)

/-- A full read of a header is followed by one of the data. -/
theorem ReadResult.of_header {msgs : List Message} {size : Nat}
    (h : ReadResult setup side now msgs p size size .onReadHeader p') :
    ∃ size', p'.pending = some (.onRead size' .onReadData) := by
  cases h with
  | short hshort => exact absurd rfl hshort
  | header => exact ⟨_, rfl⟩

/-- And a full read of the data brings the message. -/
theorem ReadResult.of_data {msgs : List Message} {size : Nat}
    (h : ReadResult setup side now msgs p size size .onReadData p') :
    ∃ got, msgs = [got] ∧
      p' = ({ p with
        pending := none
        taken := p.taken + size
        heard := p.heard ++ [got] }.onRead setup now side got) := by
  cases h with
  | short hshort => exact absurd rfl hshort
  | data _ hmsg => exact ⟨_, hmsg, rfl⟩

/-- With a whole archive the client has heard something. -/
theorem heard_of_data_client (h : Inv setup site env s) {size : Nat}
    (hresult : ReadResult setup .client now s.server.said s.client size size .onReadData p') :
    p'.heard ≠ [] := by
  obtain ⟨got, hsaid, rfl⟩ := hresult.of_data
  obtain ⟨text, sent, answered, rfl⟩ :=
    h.said_server.2 got (by rw [hsaid]; exact List.mem_singleton_self _)
  simp [Party.onRead]

/-- With a whole archive the session writes its reply. -/
theorem pending_of_data_server
    (hsmall : ∀ sent now, (setup.archive (.serverEchoTimed setup.request sent now)).length < 2 ^ 32)
    (h : Inv setup site env s) {size : Nat}
    (hresult : ReadResult setup .server now s.client.said s.server size size .onReadData p') :
    p'.pending = some .onWrite := by
  obtain ⟨got, hsaid, rfl⟩ := hresult.of_data
  rcases h.client.said_cases with hnil | ⟨sent, hone⟩
  · rw [hnil] at hsaid
    cases hsaid
  · rw [hone] at hsaid
    obtain rfl := List.singleton_inj.mp hsaid
    exact pending_asyncWrite (hsmall sent now)

/-- What the server writes is its reply. -/
theorem Inv.said_of_onWrite (h : Inv setup site env s)
    (hpending : s.server.pending = some .onWrite) : s.server.said ≠ [] := by
  cases (h.session hpending).2 with
  | reply _ _ hsaid => exact hsaid
  | header hother | data hother | ended hother => simp [hother] at hpending

/-! ## As long as nothing fails -/

/-- Both programs are on their way or have done what they do. -/
structure Alive (site : HttpServer.Site) (env : Env) (s : SerializeClient) : Prop where
  client : s.client.pending = none → s.client.heard ≠ []
  server : s.begun = true → s.server.pending = none →
    s.server.said ≠ [] ∧ s.server.out.Finished
  handshake : s.begun = false → s.conn = Conn.onAccept (myServer site) ∨
    (∃ later, Conn.Offering (myServer site) env guid later s.conn) ∨
    Conn.Dispatched (myServer site) env guid s.conn

theorem alive_start (site : HttpServer.Site) (env : Env) : Alive site env (start site) :=
  ⟨by simp [start, Party.onSocketConnected], by simp [start], fun _ => .inl rfl⟩

theorem Alive.of_client (h : Alive site env s) (hp : p.pending = none → p.heard ≠ []) :
    Alive site env { s with client := p } :=
  ⟨hp, h.server, h.handshake⟩

/-- A step of the session keeps all alive if it leaves the session an operation, or done. -/
theorem Alive.of_server (h : Alive site env s)
    (hp : p.pending = none → p.said ≠ [] ∧ p.out.Finished) :
    Alive site env { s with server := p } :=
  ⟨h.client, fun _ => hp, h.handshake⟩

/-- The handler of an end has run, and left something pending. -/
theorem Alive.of_pending (h : Alive site env s) {pending : Pending}
    (hp : p.pending = some pending) : Alive site env (s.update p side) := by
  have hnone : p.pending ≠ none := by simp [hp]
  cases side with
  | client => exact h.of_client fun hother => absurd hother hnone
  | server => exact h.of_server fun hother => absurd hother hnone

/-- The first read of the handshake gives nobody up. -/
theorem alive_handshakeRead (h : Inv setup site env s) (halive : Alive site env s)
    {junk : MaskingKey} {conn : Conn} {n : Nat}
    (hstep : s.conn.step (myServer site) env (.readCompletes junk 0 guid) = some conn) :
    Alive site env { s with conn := conn, server := { s.server with taken := n } } := by
  obtain ⟨hbegun, hconn, -⟩ := h.fresh_of_read hstep
  rw [hconn] at hstep
  refine ⟨halive.client, ?_, fun _ => .inr ?_⟩
  · intro hother
    rw [hbegun] at hother
    cases hother
  · exact (Conn.first_step hstep).imp_left fun h => ⟨_, h⟩

/-- A call of the handshake gives nobody up. -/
theorem alive_handshakeCall (h : Inv setup site env s) (halive : Alive site env s) {conn : Conn}
    (hstep : s.conn.step (myServer site) env .call = some conn) :
    Alive site env { s with conn := conn } := by
  cases h.server with
  | session _ hnext => simp [Conn.step, hnext] at hstep
  | handshake hbegun hsettled =>
      refine ⟨halive.client, halive.server, fun _ => .inr ?_⟩
      rcases halive.handshake hbegun with hconn | hoffering | hdone
      · rw [hconn] at hstep
        cases hstep
      · exact Conn.offering_step hoffering hstep
      · have hguid : guid <+: guid ++ [] := List.prefix_append _ _
        obtain ⟨e, hlast, hfinal, -⟩ := final_of_dispatched hdone (by decide) hguid
        rw [hsettled.isSealed e hlast hfinal] at hstep
        cases hstep

section Alive

variable (hround : ∀ msg, setup.unarchive (setup.archive msg) = some msg)
  (hclient : ∀ sent, (setup.archive (.clientEchoTimed setup.request sent)).length < 2 ^ 32)
  (hserver : ∀ sent now,
    (setup.archive (.serverEchoTimed setup.request sent now)).length < 2 ^ 32)

include hround hserver in
/-- A read that fills its buffer gives nobody up. -/
theorem alive_read (h : Inv setup site env s) (halive : Alive site env s) {size : Nat}
    {handler : Handler} (hpending : (s.party side).pending = some (.onRead size handler))
    (hthere : size ≤ (s.incoming side).length) :
    Alive site env (s.update ((s.party side).completeRead setup side now size handler
      ((s.incoming side).take size)) side) := by
  cases side with
  | client =>
      have hresult := h.reads_client hround hpending (.inr rfl) le_rfl hthere now
      cases handler with
      | onReadHeader =>
          obtain ⟨size', hnext⟩ := hresult.of_header
          exact halive.of_pending hnext
      | onReadData => exact halive.of_client fun _ => heard_of_data_client h hresult
  | server =>
      have hresult := h.reads_server hround hpending (.inr rfl) le_rfl hthere now
      cases handler with
      | onReadHeader =>
          obtain ⟨size', hnext⟩ := hresult.of_header
          exact halive.of_pending hnext
      | onReadData => exact halive.of_pending (pending_of_data_server hserver h hresult)

include hround hclient hserver

/-- The step lemma. -/
theorem alive_step (h : Inv setup site env s) (halive : Alive site env s)
    (hsmooth : Smooth s label) (hstep : s.step setup site env label = some s') :
    Alive site env s' := by
  obtain ⟨hfull, hfails⟩ := hsmooth
  cases steps_of_step hstep with
  | @handshakeRead junk error count bytes conn _ _ hbytes hconn =>
      obtain ⟨rfl, hguid⟩ := hfull
      rw [if_pos rfl, hguid] at hbytes
      subst hbytes
      exact alive_handshakeRead h halive hconn
  | handshakeCall hconn => exact alive_handshakeCall h halive hconn
  | onHandshakeSuccess => exact ⟨halive.client, by simp [Party.onHandshakeSuccess], by simp⟩
  | writeSome hpending =>
      rcases hpending with hpending | hpending
      · exact halive.of_pending hpending
      · exact halive.of_pending hpending
  | writeGuid => exact halive.of_pending (pending_asyncWrite (hclient _))
  | @writeMsg side _ hpending hdone =>
      cases side with
      | client => exact halive.of_pending rfl
      | server =>
          -- the session of the server does nothing after its reply
          exact halive.of_server fun _ => ⟨h.said_of_onWrite hpending, hdone⟩
  | @readCompletes side count now size handler hpending _ _ hthere =>
      obtain rfl := hfull size handler hpending
      exact alive_read hround hserver h halive hpending hthere
  | @fails side => exact absurd rfl (hfails side)

/-- In a smooth run nobody gives up. -/
theorem alive_of_run (hrun : Run setup site env Smooth labels s) :
    Inv setup site env s ∧ Alive site env s := by
  refine Reaches.invariant (I := fun _ s => Inv setup site env s ∧ Alive site env s)
    ⟨inv_start setup site env, alive_start site env⟩ ?_ hrun
  rintro - s label s' ⟨h, halive⟩ hsmooth hstep
  exact ⟨inv_step h hround (hsmooth.checked setup) hstep,
    alive_step hround hclient hserver h halive hsmooth hstep⟩

end Alive

/-! ## On to the reply -/

/-- What an end writes gets sent. -/
theorem exists_finished (hrun : Run setup site env Smooth labels s) (side : Side)
    (hpending : (s.party side).pending = some .onWriteGuid ∨
      (s.party side).pending = some .onWrite)
    (hone : OneOutstanding (s.party side).out) :
    ∃ more out, Run setup site env Smooth (labels ++ more)
      (s.update { s.party side with out := out } side) ∧ out.Finished := by
  by_cases hdone : (s.party side).out.Finished
  · refine ⟨[], (s.party side).out, ?_, hdone⟩
    rw [List.append_nil]
    cases side <;> exact hrun
  · obtain ⟨op, count, out, hwrite, hdone⟩ := exists_writeSome hone hdone
    refine ⟨[.writeSome side op count], out, .step hrun ⟨trivial, by simp⟩ ?_, hdone⟩
    rcases hpending with hpending | hpending <;> simp [step, hpending, hwrite]

/-- And its handler is called. -/
theorem exists_onWriteMsg (hrun : Run setup site env Smooth labels s) (side : Side)
    (hpending : (s.party side).pending = some .onWrite)
    (hone : OneOutstanding (s.party side).out) :
    ∃ more out, Run setup site env Smooth (labels ++ more)
      (s.update (({ s.party side with out := out } : Party).onWriteMsg side) side) ∧
        out.Finished := by
  obtain ⟨more, out, hrun, hdone⟩ := exists_finished hrun side (.inr hpending) hone
  refine ⟨more ++ [.writeCompletes side 0], out, ?_, hdone⟩
  rw [← List.append_assoc]
  refine .step hrun ⟨trivial, by simp⟩ ?_
  cases side with
  | client => simp [step, update, party, show s.client.pending = _ from hpending, hdone]
  | server => simp [step, update, party, show s.server.pending = _ from hpending, hdone]

/-- All that is read is there, when the other end has sent its message. -/
theorem Reading.size_le {front sent : List UInt8} {msgs : List Message} {msg : Message}
    {size : Nat} {handler : Handler} (h : Reading setup front msgs p size handler)
    (hmsg : msgs = [msg]) (hwire : sent = front ++ msgs.flatMap (frame setup))
    (hsmall : (setup.archive msg).length < 2 ^ 32) : size ≤ (sent.drop p.taken).length := by
  have hfield := (Serialization.length_sizeField_iff (setup.archive msg).length).mpr hsmall
  cases h with
  | header htaken =>
      rw [hwire, htaken, List.drop_left' rfl, hmsg]
      simp [frame, hfield]
  | @data got htaken hgot =>
      rw [hmsg] at hgot
      obtain rfl := List.singleton_inj.mp hgot
      rw [hwire, htaken, ← List.drop_drop, List.drop_left' rfl, hmsg]
      simp [frame, List.drop_left' hfield]

/-- A read can complete once there are bytes enough for it. -/
theorem step_readCompletes (side : Side) {size : Nat} {handler : Handler}
    (hpending : (s.party side).pending = some (.onRead size handler))
    (hthere : size ≤ (s.incoming side).length) (now : Int64) :
    Smooth s (.readCompletes side size now) ∧
      s.step setup site env (.readCompletes side size now) =
        some (s.update ((s.party side).completeRead setup side now size handler
          ((s.incoming side).take size)) side) := by
  refine ⟨⟨fun size' handler' hother => ?_, by simp⟩, ?_⟩
  · rw [hpending] at hother
    cases hother
    rfl
  · rw [step, hpending]
    exact if_pos ⟨(Nat.eq_zero_or_pos size).symm, le_rfl, hthere⟩

/-- From every state of a run without a failure in which `P` holds, it goes on to `Q`. -/
abbrev Goes (setup : Setup) (site : HttpServer.Site) (env : Env)
    (P Q : SerializeClient → Prop) : Prop :=
  Leads (fun s label s' => s.step setup site env label = some s') Smooth (start site) P Q

/-- The client has sent its message. -/
def Asked (s : SerializeClient) : Prop :=
  ∃ size handler, s.client.pending = some (.onRead size handler)

/-- And the server has begun to read. -/
def Met (s : SerializeClient) : Prop := Asked s ∧ s.begun = true

/-- And has sent its reply. -/
def Replied (s : SerializeClient) : Prop :=
  Asked s ∧ s.server.said ≠ [] ∧ s.server.out.Finished

/-- The server has read nothing. -/
def Waiting (site : HttpServer.Site) (s : SerializeClient) : Prop :=
  Asked s ∧ s.begun = false ∧ s.conn = Conn.onAccept (myServer site)

/-- It has read the GUID, and some sessions have not been offered it. -/
def Offered (site : HttpServer.Site) (env : Env) (later : List UInt32) (s : SerializeClient) :
    Prop :=
  Asked s ∧ s.begun = false ∧ Conn.Offering (myServer site) env guid later s.conn

/-- The session has taken it. -/
def Taken (site : HttpServer.Site) (env : Env) (s : SerializeClient) : Prop :=
  Asked s ∧ s.begun = false ∧ Conn.Dispatched (myServer site) env guid s.conn

/-- The server reads the message. -/
def ServerReads (handler : Handler) (s : SerializeClient) : Prop :=
  Met s ∧ ∃ size, s.server.pending = some (.onRead size handler)

/-- The client reads the reply. -/
def ClientReads (handler : Handler) (s : SerializeClient) : Prop :=
  (∃ size, s.client.pending = some (.onRead size handler)) ∧ s.server.said ≠ [] ∧
    s.server.out.Finished

/-- Each call leaves one session less. -/
theorem goes_taken (later : List UInt32) :
    Goes setup site env (Offered site env later) (Taken site env) := by
  induction later with
  | nil =>
      refine Leads.of_step ?_
      rintro labels s - ⟨hasked, hbegun, hoffering⟩
      obtain ⟨conn, hstep, hdone⟩ := Conn.call_nil hoffering
      exact ⟨.handshakeCall, { s with conn := conn }, ⟨trivial, by simp⟩, by simp [step, hstep],
        hasked, hbegun, hdone⟩
  | cons protocolIndex later ih =>
      refine Leads.trans (Leads.of_step ?_) (ih.or (Leads.of_imp fun _ _ _ h => h))
      rintro labels s - ⟨hasked, hbegun, hoffering⟩
      obtain ⟨conn, hstep, hnext⟩ := Conn.call_cons hoffering
      exact ⟨.handshakeCall, { s with conn := conn }, ⟨trivial, by simp⟩, by simp [step, hstep],
        hnext.imp (fun h => ⟨hasked, hbegun, h⟩) fun h => ⟨hasked, hbegun, h⟩⟩

/-- Where the GUID has been dispatched, the connection is for the session. -/
theorem next_of_dispatched {conn : Conn} (hsettled : conn.Settled)
    (h : Conn.Dispatched (myServer site) env guid conn) :
    ∃ calls, conn.next = .onHandshakeSuccess .serialization calls := by
  have hguid : guid <+: guid ++ [] := List.prefix_append _ _
  obtain ⟨e, hlast, hfinal, tag, hmem⟩ := final_of_dispatched h (by decide) hguid
  have hsuccess : e = .onHandshakeSuccess .serialization := by
    have hoffers : guidOffers tag guid =
        [.doNextHandshake 1 tag guid, .onHandshakeSuccess .serialization] := rfl
    rw [hoffers] at hmem
    rcases List.mem_cons.mp hmem with rfl | hmem
    · exact absurd hfinal id
    · exact List.mem_singleton.mp hmem
  have hnext := hsettled e hlast hfinal
  rw [hsuccess] at hnext
  cases hconn : conn.next <;> simp_all [Next.events]

/-- What the server reads is there. -/
theorem size_le_server (h : Inv setup site env s) (hmet : Met s) {size : Nat} {handler : Handler}
    (hpending : s.server.pending = some (.onRead size handler)) :
    size ≤ (s.incoming .server).length := by
  obtain ⟨⟨size', handler', hclient⟩, -⟩ := hmet
  obtain ⟨-, -, hdone, sent, hsaid⟩ := h.client.reading hclient
  obtain ⟨hreading, -⟩ := (h.session hpending).2.reading hpending
  refine hreading.size_le hsaid ?_ (h.clientSends.small _ (by simp [hsaid]))
  rw [h.clientSends.wire_of_finished hdone]
  simp

/-- And what the client reads. -/
theorem size_le_client (h : Inv setup site env s) (hsaid : s.server.said ≠ [])
    (hdone : s.server.out.Finished) {size : Nat} {handler : Handler}
    (hpending : s.client.pending = some (.onRead size handler)) :
    size ≤ (s.incoming .client).length := by
  obtain ⟨hreading, -⟩ := h.client.reading hpending
  obtain ⟨msg, sent, now, -, hone⟩ := h.server.answers.resolve_left hsaid
  refine hreading.size_le hone ?_ (h.serverSends.small _ (by simp [hone]))
  rw [h.serverSends.wire_of_finished hdone]
  simp

section Progress

variable (hround : ∀ msg, setup.unarchive (setup.archive msg) = some msg)
  (hclient : ∀ sent, (setup.archive (.clientEchoTimed setup.request sent)).length < 2 ^ 32)
  (hserver : ∀ sent now,
    (setup.archive (.serverEchoTimed setup.request sent now)).length < 2 ^ 32)

include hround hclient hserver

/-- Behind its GUID the client writes its message. -/
theorem goes_onWrite : Goes setup site env (fun s => s.client.pending = some .onWriteGuid)
    (fun s => s.client.pending = some .onWrite) := by
  intro labels s hrun hpending
  obtain ⟨h, -⟩ := alive_of_run hround hclient hserver hrun
  obtain ⟨more, out, hrun, hdone⟩ :=
    exists_finished hrun .client (.inl hpending) h.clientSends.one
  refine ⟨more ++ [.writeCompletes .client 0],
    { s with client := ({ s.client with out := out } : Party).onWriteGuid setup 0 }, ?_,
    pending_asyncWrite (hclient 0)⟩
  rw [← List.append_assoc]
  refine .step hrun ⟨trivial, by simp⟩ ?_
  simp [step, update, party, hpending, hdone]

/-- The client has then asked. -/
theorem goes_asked : Goes setup site env (fun s => s.client.pending = some .onWrite) Asked := by
  intro labels s hrun hpending
  obtain ⟨h, -⟩ := alive_of_run hround hclient hserver hrun
  obtain ⟨more, out, hrun, -⟩ := exists_onWriteMsg hrun .client hpending h.clientSends.one
  exact ⟨more, _, hrun, _, _, rfl⟩

/-! ### The handshake -/

/-- A server that waits comes to offer what it read, or has taken it. -/
theorem goes_offered : Goes setup site env (Waiting site)
    (fun s => (∃ later, Offered site env later s) ∨ Taken site env s) := by
  refine Leads.of_step ?_
  rintro labels s hrun ⟨hasked, hbegun, hconn⟩
  obtain ⟨h, -⟩ := alive_of_run hround hclient hserver hrun
  obtain ⟨size, handler, hpending⟩ := hasked
  obtain ⟨-, -, hdone, sent, hsaid⟩ := h.client.reading hpending
  obtain ⟨conn, hstep⟩ : ∃ conn, s.conn.step (myServer site) env
      (.readCompletes (.replicate 4 0) 0 guid) = some conn := by
    have hfits : guid.length ≤ 8192 := by decide
    obtain ⟨n, c, -, hall, -⟩ := Conn.exists_run_of_first (myServer site) env (.replicate 4 0) hfits
    obtain ⟨conn, -, hfirst, -⟩ := reaches_cons.mp hall
    exact ⟨conn, hconn ▸ hfirst⟩
  have htaken : s.server.taken = 0 := by
    obtain ⟨-, -, hidle⟩ := h.fresh_of_read hstep
    rw [hidle]
    rfl
  have hincoming : s.incoming .server = guid ++ s.client.said.flatMap (frame setup) := by
    rw [incoming, htaken, List.drop_zero, h.clientSends.wire_of_finished hdone]
    simp
  have hguid : (s.incoming .server).take guid.length = guid := by
    rw [hincoming, List.take_left' rfl]
  have hlen : 0 < guid.length ∧ guid.length ≤ (s.incoming .server).length := by
    rw [hincoming, List.length_append]
    exact ⟨by decide, Nat.le_add_right _ _⟩
  refine ⟨.handshakeRead (.replicate 4 0) 0 guid.length,
    { s with conn := conn, server := { s.server with taken := s.server.taken + guid.length } },
    ⟨⟨rfl, hguid⟩, by simp⟩, ?_, ?_⟩
  · simp [step, hguid, hstep, hlen]
  · rw [hconn] at hstep
    exact (Conn.first_step hstep).imp (fun h => ⟨_, ⟨size, handler, hpending⟩, hbegun, h⟩)
      fun h => ⟨⟨size, handler, hpending⟩, hbegun, h⟩

/-- The session is established once the client has asked. -/
theorem goes_met : Goes setup site env Asked Met := by
  have hsplit : Goes setup site env Asked (fun s => Met s ∨ Waiting site s ∨
      (∃ later, Offered site env later s) ∨ Taken site env s) := by
    refine Leads.of_imp fun labels s hrun hasked => ?_
    obtain ⟨-, halive⟩ := alive_of_run hround hclient hserver hrun
    cases hbegun : s.begun with
    | true => exact .inl ⟨hasked, hbegun⟩
    | false =>
        rcases halive.handshake hbegun with hconn | hoffering | hdone
        · exact .inr (.inl ⟨hasked, hbegun, hconn⟩)
        · obtain ⟨later, hoffering⟩ := hoffering
          exact .inr (.inr (.inl ⟨later, hasked, hbegun, hoffering⟩))
        · exact .inr (.inr (.inr ⟨hasked, hbegun, hdone⟩))
  have hoffered : Goes setup site env (fun s => ∃ later, Offered site env later s)
      (Taken site env) := by
    rintro labels s hrun ⟨later, h⟩
    exact goes_taken later labels s hrun h
  have htaken : Goes setup site env (Taken site env) Met := by
    refine Leads.of_step ?_
    rintro labels s hrun ⟨hasked, hbegun, hdone⟩
    obtain ⟨h, -⟩ := alive_of_run hround hclient hserver hrun
    cases h.server with
    | session hother => rw [hbegun] at hother; cases hother
    | handshake _ hsettled =>
        obtain ⟨calls, hnext⟩ := next_of_dispatched hsettled hdone
        exact ⟨.onHandshakeSuccess,
          { s with begun := true, server := s.server.onHandshakeSuccess }, ⟨trivial, by simp⟩,
          by simp [step, hnext, hbegun], hasked, rfl⟩
  have hrest := (hoffered.trans htaken).or htaken
  have hwaiting := (goes_offered hround hclient hserver).trans hrest
  exact hsplit.trans ((Leads.of_imp fun _ _ _ h => h).or (hwaiting.or hrest))

/-! ### The message -/

/-- The session reads the header of the message, and then its data. -/
theorem goes_serverReads : Goes setup site env (ServerReads .onReadHeader)
    (ServerReads .onReadData) := by
  refine Leads.of_step ?_
  rintro labels s hrun ⟨hmet, size, hpending⟩
  obtain ⟨h, -⟩ := alive_of_run hround hclient hserver hrun
  have hthere := size_le_server h hmet hpending
  obtain ⟨hsmooth, hstep⟩ := step_readCompletes .server hpending hthere 0
  exact ⟨_, _, hsmooth, hstep, hmet,
    (h.reads_server hround hpending (.inr rfl) le_rfl hthere 0).of_header⟩

/-- With the data it writes its reply. -/
theorem goes_onWrite_server : Goes setup site env (ServerReads .onReadData)
    (fun s => Met s ∧ s.server.pending = some .onWrite) := by
  refine Leads.of_step ?_
  rintro labels s hrun ⟨hmet, size, hpending⟩
  obtain ⟨h, -⟩ := alive_of_run hround hclient hserver hrun
  have hthere := size_le_server h hmet hpending
  obtain ⟨hsmooth, hstep⟩ := step_readCompletes .server hpending hthere 0
  exact ⟨_, _, hsmooth, hstep, hmet,
    pending_of_data_server hserver h (h.reads_server hround hpending (.inr rfl) le_rfl hthere 0)⟩

/-- The reply is then sent. -/
theorem goes_written : Goes setup site env (fun s => Met s ∧ s.server.pending = some .onWrite)
    Replied := by
  rintro labels s hrun ⟨⟨hasked, -⟩, hpending⟩
  obtain ⟨h, -⟩ := alive_of_run hround hclient hserver hrun
  have hsaid := h.said_of_onWrite hpending
  obtain ⟨more, out, hrun, hdone⟩ := exists_onWriteMsg hrun .server hpending h.serverSends.one
  exact ⟨more, _, hrun, hasked, hsaid, hdone⟩

/-- A session that is established comes to have replied. -/
theorem goes_replied : Goes setup site env Met Replied := by
  have hsplit : Goes setup site env Met (fun s => ServerReads .onReadHeader s ∨
      ServerReads .onReadData s ∨ (Met s ∧ s.server.pending = some .onWrite) ∨ Replied s) := by
    refine Leads.of_imp fun labels s hrun hmet => ?_
    obtain ⟨h, halive⟩ := alive_of_run hround hclient hserver hrun
    cases h.server with
    | handshake hother => rw [hmet.2] at hother; cases hother
    | session hbegun _ hphase =>
        cases hphase with
        | header hpending => exact .inl ⟨hmet, _, hpending⟩
        | data hpending => exact .inr (.inl ⟨hmet, _, hpending⟩)
        | reply hpending => exact .inr (.inr (.inl ⟨hmet, hpending⟩))
        | ended hpending => exact .inr (.inr (.inr ⟨hmet.1, halive.server hbegun hpending⟩))
  have hwritten := @goes_written setup site env hround hclient hserver
  have hdata := (@goes_onWrite_server setup site env hround hclient hserver).trans hwritten
  have hheader := (@goes_serverReads setup site env hround hclient hserver).trans hdata
  exact hsplit.trans (hheader.or (hdata.or (hwritten.or (Leads.of_imp fun _ _ _ h => h))))

/-! ### The reply -/

/-- The client reads the header of the reply, and then its data. -/
theorem goes_clientReads : Goes setup site env (ClientReads .onReadHeader)
    (ClientReads .onReadData) := by
  refine Leads.of_step ?_
  rintro labels s hrun ⟨⟨size, hpending⟩, hsaid, hdone⟩
  obtain ⟨h, -⟩ := alive_of_run hround hclient hserver hrun
  have hthere := size_le_client h hsaid hdone hpending
  obtain ⟨hsmooth, hstep⟩ := step_readCompletes .client hpending hthere 0
  exact ⟨_, _, hsmooth, hstep,
    (h.reads_client hround hpending (.inr rfl) le_rfl hthere 0).of_header, hsaid, hdone⟩

/-- With the data it has heard the reply. -/
theorem goes_data : Goes setup site env (ClientReads .onReadData)
    (fun s => s.client.heard ≠ []) := by
  refine Leads.of_step ?_
  rintro labels s hrun ⟨⟨size, hpending⟩, hsaid, hdone⟩
  obtain ⟨h, -⟩ := alive_of_run hround hclient hserver hrun
  have hthere := size_le_client h hsaid hdone hpending
  obtain ⟨hsmooth, hstep⟩ := step_readCompletes .client hpending hthere 0
  exact ⟨_, _, hsmooth, hstep,
    heard_of_data_client h (h.reads_client hround hpending (.inr rfl) le_rfl hthere 0)⟩

/-- **The client comes to hear something**, from wherever a smooth run is. -/
theorem goes_heard : Goes setup site env (fun _ => True) (fun s => s.client.heard ≠ []) := by
  have hsplit : Goes setup site env (fun _ => True) (fun s =>
      s.client.pending = some .onWriteGuid ∨ s.client.pending = some .onWrite ∨ Asked s ∨
        s.client.heard ≠ []) := by
    refine Leads.of_imp fun labels s hrun _ => ?_
    obtain ⟨h, halive⟩ := alive_of_run hround hclient hserver hrun
    cases h.client with
    | guid hpending => exact .inl hpending
    | question hpending => exact .inr (.inl hpending)
    | header hpending | data hpending => exact .inr (.inr (.inl ⟨_, _, hpending⟩))
    | ended hpending => exact .inr (.inr (.inr (halive.client hpending)))
  have hreplied : Goes setup site env Replied
      (fun s => ClientReads .onReadHeader s ∨ ClientReads .onReadData s) := by
    refine Leads.of_imp fun labels s _ hreplied => ?_
    obtain ⟨⟨size, handler, hpending⟩, hrest⟩ := hreplied
    cases handler with
    | onReadHeader => exact .inl ⟨⟨size, hpending⟩, hrest⟩
    | onReadData => exact .inr ⟨⟨size, hpending⟩, hrest⟩
  have hdata := @goes_data setup site env hround hclient hserver
  have hheader := (@goes_clientReads setup site env hround hclient hserver).trans hdata
  have hmet := (goes_replied hround hclient hserver).trans (hreplied.trans (hheader.or hdata))
  have hasked := (goes_met hround hclient hserver).trans hmet
  have hwritten := (goes_asked hround hclient hserver).trans hasked
  have hguid := (goes_onWrite hround hclient hserver).trans hwritten
  exact hsplit.trans (hguid.or (hwritten.or (hasked.or (Leads.of_imp fun _ _ _ h => h))))

end Progress

end SerializeClient

end Splice

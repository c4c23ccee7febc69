import Splice.SerializeAgreement

/-!
# Splice.SerializeShortReads

What short reads do to `serialize_client`'s exchange where assertions are compiled in.  A read
that does not fill its buffer, or a first read that is not the GUID alone, ends one of the
programs before the client has heard anything (`Spoiled`).
-/

namespace Splice

open ComposedWrite
open EchoServer
open Serialization (Handler Receiver headerLength)
open Transition

namespace SerializeClient

variable {setup : Setup} {site : HttpServer.Site} {env : Env} {side : Side} {now : Int64}
  {p p' : Party} {questions replies : List Message} {s s' : SerializeClient} {label : Label}
  {labels : List Label}

/-- A read brings what its handler takes it for: the GUID, or as much as the buffer holds. -/
def FullRead (s : SerializeClient) : Label → Prop
  | .handshakeRead _ error count => error = 0 ∧ (s.incoming .server).take count = guid
  | .readCompletes side count _ =>
      ∀ size handler, (s.party side).pending = some (.onRead size handler) → count = size
  | .handshakeCall | .onHandshakeSuccess | .writeSome _ _ _ | .writeCompletes _ _ | .fails _ => True

/-- And nothing fails. -/
def Smooth (s : SerializeClient) (label : Label) : Prop :=
  FullRead s label ∧ ∀ side, label ≠ .fails side

/-- A full read fills its buffer. -/
theorem FullRead.fillsBuffer (h : FullRead s label) : FillsBuffer s label := by
  cases label with
  | readCompletes => exact h
  | handshakeRead | handshakeCall | onHandshakeSuccess | writeSome | writeCompletes | fails =>
      exact trivial

/-- Without a short read it makes no difference how the programs have been compiled. -/
theorem Smooth.checked (h : Smooth s label) (setup : Setup) : Checked setup s label :=
  .inr h.1.fillsBuffer

/-! ## Short reads -/

/-- The server has been given up, and has said nothing. -/
def ServerLost (s : SerializeClient) : Prop :=
  s.server.said = [] ∧ s.server.pending = none ∧
    (s.begun = true ∨ s.conn.log ≠ [] ∧ s.server.taken ≠ guid.length)

/-- The client has heard nothing, and one of the programs has ended. -/
def Spoiled (s : SerializeClient) : Prop :=
  s.client.heard = [] ∧ (s.client.pending = none ∨ ServerLost s)

/-- A read leaves something in the log. -/
theorem log_ne_nil_of_read {server : Server} {c c' : Conn} {junk : MaskingKey}
    {error : ErrorCode} {bytes : List UInt8}
    (hstep : c.step server env (.readCompletes junk error bytes) = some c') : c'.log ≠ [] := by
  cases Conn.steps_of_step hstep with
  | @asyncReadSome incomingData handler _ _ _ hnext hlen =>
      cases handler <;> simp [Conn.completeRead, Conn.wsSession, Conn.proceed]

theorem Inv.heard_of_said (h : Inv setup site env s) (hsaid : s.server.said = []) :
    s.client.heard = [] :=
  h.heard_client.elim id fun hsame => hsame.trans hsaid

/-- As long as the server has said nothing there is nothing to read for the client. -/
theorem Inv.not_reads_client (h : Inv setup site env s) (hsaid : s.server.said = []) {size : Nat}
    {handler : Handler} (hpending : s.client.pending = some (.onRead size handler)) {count : Nat}
    (hcount : 0 < count ∨ size = 0) : ¬ count ≤ (s.incoming .client).length := by
  have hwire := h.wire_server
  rw [hsaid] at hwire
  have hnil : s.incoming .client = [] := by
    rw [incoming, List.prefix_nil.mp hwire, List.drop_nil]
  have hsize : size ≠ 0 := by
    obtain ⟨hreading, -⟩ := h.client.reading hpending
    cases hreading with
    | header => decide
    | data _ hreply => rw [hsaid] at hreply; cases hreply
  rw [hnil]
  simp only [List.length_nil]
  omega

/-- What a client does is nothing to it. -/
theorem ServerLost.update (hlost : ServerLost s) (hpending : (s.party side).pending ≠ none)
    (p : Party) : ServerLost (s.update p side) := by
  cases side with
  | client => exact hlost
  | server => exact absurd hlost.2.1 hpending

/-- A server that has been given up stays so. -/
theorem serverLost_step (h : Inv setup site env s) (hlost : ServerLost s)
    (hstep : s.step setup site env label = some s') : ServerLost s' := by
  cases steps_of_step hstep with
  | handshakeRead _ _ _ hconn =>
      obtain ⟨hbegun, hfresh, -⟩ := h.fresh_of_read hconn
      rcases hlost.2.2 with hgone | ⟨hlog, -⟩
      · rw [hbegun] at hgone
        cases hgone
      · rw [hfresh] at hlog
        exact absurd rfl hlog
  | handshakeCall hconn =>
      refine ⟨hlost.1, hlost.2.1, hlost.2.2.imp_right (And.imp_left ?_)⟩
      intro hlog hnil
      exact hlog (List.prefix_nil.mp (hnil ▸ Conn.log_prefix_of_step hconn))
  | onHandshakeSuccess hbegun hnext =>
      rcases hlost.2.2 with hgone | ⟨-, htaken⟩
      · rw [hbegun] at hgone
        cases hgone
      · cases h.server with
        | handshake _ hsettled hphase hserver hfirst =>
            have hguid := hphase.guid_of_success hsettled (hfirst.trans h.wire_client) hnext
            rw [hserver, hguid] at htaken
            exact absurd rfl htaken
        | session hbegun' => rw [hbegun] at hbegun'; cases hbegun'
  | writeSome hpending =>
      refine hlost.update ?_ _
      rcases hpending with hpending | hpending <;> simp [hpending]
  | writeGuid hpending | writeMsg hpending | readCompletes hpending | fails hpending =>
      exact hlost.update (by simp [hpending]) _

/-- What the client has heard changes only with its reads. -/
theorem heard_client_of_step (hstep : s.step setup site env label = some s')
    (hread : ∀ count now, label ≠ .readCompletes .client count now) :
    s'.client.heard = s.client.heard := by
  cases steps_of_step hstep with
  | handshakeRead | handshakeCall | onHandshakeSuccess => rfl
  | @writeSome side | @writeMsg side | @fails side => cases side <;> rfl
  | @writeGuid side =>
      cases side with
      | client => exact heard_asyncWrite setup s.client _
      | server => rfl
  | @readCompletes side count now =>
      cases side with
      | client => exact absurd rfl (hread count now)
      | server => rfl

/-- A client that has ended does nothing. -/
theorem client_of_step (hnone : s.client.pending = none)
    (hstep : s.step setup site env label = some s') : s'.client = s.client := by
  have hserver : ∀ side p, (s.party side).pending ≠ none → (s.update p side).client = s.client := by
    intro side p hpending
    cases side with
    | client => exact absurd hnone hpending
    | server => rfl
  cases steps_of_step hstep with
  | handshakeRead | handshakeCall | onHandshakeSuccess => rfl
  | writeSome hpending =>
      refine hserver _ _ ?_
      rcases hpending with hpending | hpending <;> simp [hpending]
  | writeGuid hpending | writeMsg hpending | readCompletes hpending | fails hpending =>
      exact hserver _ _ (by simp [hpending])

/-- Nothing that follows mends a run that is spoiled. -/
theorem spoiled_step (h : Inv setup site env s) (hspoiled : Spoiled s)
    (hstep : s.step setup site env label = some s') : Spoiled s' := by
  obtain ⟨hheard, hended⟩ := hspoiled
  rcases hended with hnone | hlost
  · have hsame := client_of_step hnone hstep
    exact ⟨by rw [hsame, hheard], .inl (by rw [hsame, hnone])⟩
  · refine ⟨?_, .inr (serverLost_step h hlost hstep)⟩
    rw [heard_client_of_step hstep, hheard]
    rintro count now rfl
    cases steps_of_step hstep with
    | readCompletes hpending hcount _ hthere =>
        exact h.not_reads_client hlost.1 hpending hcount hthere

/-- A first read of another length than the GUID, where it is not the GUID. -/
theorem length_ne_of_not_guid {bytes more : List UInt8} (hfirst : bytes <+: guid ++ more)
    (hne : bytes ≠ guid) : bytes.length ≠ guid.length := by
  intro hlen
  have hguid : bytes <+: guid :=
    List.prefix_of_prefix_length_le hfirst (List.prefix_append _ _) hlen.le
  exact hne (hguid.eq_of_length hlen)

/-- A short read ends the party that made it. -/
theorem ReadResult.eq_of_short {msgs : List Message} {size count : Nat} {handler : Handler}
    (h : ReadResult setup side now msgs p size count handler p') (hshort : count ≠ size) :
    p' = { p with pending := none, taken := p.taken + count } := by
  cases h with
  | short => rfl
  | header hfull | data hfull => exact absurd hfull hshort

/-- It spoils the run. -/
theorem spoiled_of_short_read (hdebug : setup.isDebug = true) (h : Inv setup site env s)
    (hround : ∀ msg, setup.unarchive (setup.archive msg) = some msg) {size count : Nat}
    {handler : Handler} (hpending : (s.party side).pending = some (.onRead size handler))
    (hle : count ≤ size) (hthere : count ≤ (s.incoming side).length) (hshort : count ≠ size) :
    Spoiled (s.update ((s.party side).completeRead setup side now size handler
      ((s.incoming side).take count)) side) := by
  cases side with
  | client =>
      obtain ⟨-, hheard, -⟩ := h.client.reading hpending
      have hclient :=
        (h.reads_client hround hpending (.inl hdebug) hle hthere now).eq_of_short hshort
      simp only [update, party, hclient]
      exact ⟨hheard, .inl rfl⟩
  | server =>
      have hserver :=
        (h.reads_server hround hpending (.inl hdebug) hle hthere now).eq_of_short hshort
      simp only [update, party, hserver]
      obtain ⟨hbegun, hphase⟩ := h.session hpending
      obtain ⟨-, -, hsaid⟩ := hphase.reading hpending
      exact ⟨h.heard_of_said hsaid, .inr ⟨hsaid, rfl, .inl hbegun⟩⟩

/-- A read that brings something else than its handler takes it for ends one of the
programs. -/
theorem spoiled_of_short (hdebug : setup.isDebug = true) (h : Inv setup site env s)
    (hround : ∀ msg, setup.unarchive (setup.archive msg) = some msg)
    (hstep : s.step setup site env label = some s') (hshort : ¬ FullRead s label) : Spoiled s' := by
  cases steps_of_step hstep with
  | handshakeCall | onHandshakeSuccess | writeSome | writeGuid | writeMsg | fails =>
      exact absurd trivial hshort
  | @handshakeRead junk error count bytes conn _ hincoming hbytes hconn =>
      obtain ⟨-, -, hidle⟩ := h.fresh_of_read hconn
      have hsaid : s.server.said = [] := by rw [hidle]; rfl
      have hpending : s.server.pending = none := by rw [hidle]; rfl
      have htaken : s.server.taken = 0 := by rw [hidle]; rfl
      refine ⟨h.heard_of_said hsaid,
        .inr ⟨hsaid, hpending, .inr ⟨log_ne_nil_of_read hconn, ?_⟩⟩⟩
      show s.server.taken + bytes.length ≠ guid.length
      rw [incoming, htaken, List.drop_zero] at hincoming
      rw [htaken, Nat.zero_add]
      refine length_ne_of_not_guid (hincoming.trans h.wire_client) ?_
      -- nothing at all, where the read has failed
      intro hguid
      by_cases herror : error = 0
      · exact hshort ⟨herror, by rw [← hguid, hbytes, if_pos herror]⟩
      · rw [hbytes, if_neg herror] at hguid
        exact absurd hguid (by decide)
  | @readCompletes side count now size handler hpending hcount hle hthere =>
      refine spoiled_of_short_read hdebug h hround hpending hle hthere ?_
      rintro rfl
      refine hshort fun size' handler' hother => ?_
      rw [hpending] at hother
      cases hother
      rfl

/-- So a run in which the client hears something has none of these. -/
theorem fullRead_of_heard (hdebug : setup.isDebug = true)
    (hround : ∀ msg, setup.unarchive (setup.archive msg) = some msg)
    (hrun : Run setup site env AnyStep labels s) (hheard : s.client.heard ≠ []) :
    Run setup site env FullRead labels s := by
  have hinv : Inv setup site env s ∧ (Run setup site env FullRead labels s ∨ Spoiled s) := by
    refine Reaches.invariant (I := fun labels s => Inv setup site env s ∧
      (Run setup site env FullRead labels s ∨ Spoiled s))
      ⟨inv_start setup site env, .inl .init⟩ ?_ hrun
    rintro labels s label s' ⟨h, hfull | hspoiled⟩ - hstep
    · refine ⟨inv_step h hround (.inl hdebug) hstep, ?_⟩
      by_cases hread : FullRead s label
      · exact .inl (.step hfull hread hstep)
      · exact .inr (spoiled_of_short hdebug h hround hstep hread)
    · exact ⟨inv_step h hround (.inl hdebug) hstep, .inr (spoiled_step h hspoiled hstep)⟩
  exact hinv.2.resolve_right fun hspoiled => hheard hspoiled.1

end SerializeClient

end Splice

import Splice.EchoServer
import Splice.Exchange
import Splice.Lib.HandOver

/-!
# Splice.FallThrough

How `multi_protocol` goes through its protocols: `on_handshake_fail` binds each index
to the handler that it passes on, so the indices are a chain of handlers handed on.

For the chain alone nothing is assumed of the sessions but that none calls its handler
twice.  The sessions of the source are then shown to be such a chain, and to pass the
first read on as they got it.
-/

namespace Splice

open Transition

/-- The indices after the first session: `protocolCount - 2` down to zero. -/
def countdown (protocolCount : UInt32) : List UInt32 :=
  (List.range (protocolCount.toNat - 1)).reverse.map UInt32.ofNat

/-- While no upgrade has been written, what is offered to the next session is the first
read. -/
def OffersFirstRead (log : List Event) : Prop :=
  Throughout (fun past e => ¬ Upgraded past → ∀ protocolIndex tag incoming,
    e = .doNextHandshake protocolIndex tag incoming → firstRead past = some incoming) log

/-! ## The chain of indices -/

/-- Behind a positive index comes the one below it. -/
theorem onHandshakeFail_succ {n : Nat} (h : n + 1 < 2 ^ 32) :
    onHandshakeFail (UInt32.ofNat (n + 1)) = some (UInt32.ofNat n) := by
  have hne : UInt32.ofNat (n + 1) ≠ 0 := by
    intro hzero
    have hnat := congrArg UInt32.toNat hzero
    rw [UInt32.toNat_ofNat_of_lt' h] at hnat
    exact absurd hnat (Nat.succ_ne_zero n)
  have hsub : UInt32.ofNat (n + 1) - 1 = UInt32.ofNat n := by
    rw [UInt32.ofNat_add]
    exact UInt32.add_sub_cancel _ _
  rw [onHandshakeFail, if_neg hne, hsub]

/-- The indices from one down are a chain of hand-overs. -/
theorem isChain_ofNat {n : Nat} (h : n < 2 ^ 32) :
    (UInt32.ofNat n :: (List.range n).reverse.map UInt32.ofNat).IsChain
      fun i j => onHandshakeFail i = some j := by
  induction n with
  | zero => exact List.isChain_singleton _
  | succ n ih =>
      rw [List.range_succ, List.reverse_append, List.reverse_singleton, List.singleton_append,
        List.map_cons]
      exact List.isChain_cons_cons.mpr ⟨onHandshakeFail_succ h, ih (by omega)⟩

/-- The last of them is zero. -/
theorem getLast_ofNat (n : Nat) :
    (UInt32.ofNat n :: (List.range n).reverse.map UInt32.ofNat).getLast (by simp) = 0 := by
  induction n with
  | zero => rfl
  | succ n ih =>
      simp only [List.range_succ, List.reverse_append, List.reverse_singleton,
        List.singleton_append, List.map_cons]
      rw [List.getLast_cons (by simp)]
      exact ih

section Chain

variable {protocolCount : UInt32}

/-- The first index is one below the number of protocols. -/
theorem ofNat_pred (h : 1 ≤ protocolCount) :
    UInt32.ofNat (protocolCount.toNat - 1) = protocolCount - 1 := by
  have hle : 1 ≤ protocolCount.toNat := UInt32.le_iff_toNat_le.mp h
  rw [UInt32.ofNat_sub hle, UInt32.ofNat_toNat]
  rfl

/-- From the index bound first, the indices are counted down. -/
theorem isChain_countdown (h : 1 ≤ protocolCount) :
    ((protocolCount - 1) :: countdown protocolCount).IsChain
      fun i j => onHandshakeFail i = some j := by
  have hlt := protocolCount.toNat_lt
  rw [← ofNat_pred h]
  exact isChain_ofNat (by omega)

/-- The countdown ends where there is nothing left to try. -/
theorem onHandshakeFail_getLast (h : 1 ≤ protocolCount) :
    onHandshakeFail (((protocolCount - 1) :: countdown protocolCount).getLast (by simp)) =
      none := by
  simp only [← ofNat_pred h, countdown, getLast_ofNat]
  rfl

variable {calls : List Nat} {s : HandOver.State UInt32}

/-- Whoever calls when, the indices are the beginning of the countdown. -/
theorem visited_prefix_countdown (h : 1 ≤ protocolCount)
    (hrun : HandOver.Run onHandshakeFail (protocolCount - 1) calls s) :
    s.visited <+: countdown protocolCount :=
  HandOver.visited_prefix hrun (isChain_countdown h) (onHandshakeFail_getLast h)

/-- Once the handler bound to zero has been called, they are all of it. -/
theorem visited_eq_countdown {n : Nat} (h : 1 ≤ protocolCount)
    (hrun : HandOver.Run onHandshakeFail (protocolCount - 1) calls s)
    (hcalled : (0, n + 1) ∈ s.holders) : s.visited = countdown protocolCount :=
  HandOver.visited_eq hrun (isChain_countdown h) (onHandshakeFail_getLast h) rfl hcalled

end Chain

/-! ## The sessions of the source -/

namespace Conn

variable {server : Server} {env : Env} {c c' : Conn}

/-- The indices tried are those of a chain of handlers.  Its last handler is the one in
use, unless there is nothing left to try. -/
def Chained (server : Server) (c : Conn) : Prop :=
  ∃ calls s, HandOver.Run onHandshakeFail (server.protocolCount - 1) calls s ∧
    s.visited = tried c.log ∧
    ((∃ spent h, s.holders = spent ++ [(h, 0)] ∧ c.Fits h) ∨ c.next = .stop .unableToConnect)

/-- A new connection has tried nothing. -/
theorem chained_onAccept (server : Server) : Chained server (onAccept server) :=
  ⟨[], HandOver.start _, .init, rfl, Or.inl ⟨[], _, rfl, fits_onAccept server⟩⟩

/-- Every step keeps what was tried a chain. -/
theorem chained_step {label : Label} (hchained : Chained server c)
    (hstep : c.step server env label = some c') : Chained server c' := by
  obtain ⟨calls, ⟨holders, visited⟩, hrun, hvisited, ⟨spent, h, rfl, hfits⟩ | hstop⟩ := hchained
  · have hguard : HandOver.NotCalled ⟨spent ++ [(h, 0)], visited⟩ spent.length := by
      simp [HandOver.NotCalled]
    have hcall := HandOver.call_last onHandshakeFail spent h 0 visited
    obtain ⟨hfits, htried⟩ | ⟨hfail, -, htried, hnext⟩ | ⟨i, hfail, hfits, htried⟩ :=
      moves_step hfits hstep
    · exact ⟨calls, _, hrun, hvisited.trans htried.symm, Or.inl ⟨spent, h, rfl, hfits⟩⟩
    · rw [hfail] at hcall
      exact ⟨_, _, .step hrun hguard hcall, hvisited.trans htried.symm, Or.inr hnext⟩
    · rw [hfail] at hcall
      refine ⟨_, _, .step hrun hguard hcall, ?_, Or.inl ⟨_, i, rfl, hfits⟩⟩
      rw [htried, ← hvisited]
  · cases label <;> simp [step, hstop] at hstep

/-- The sessions of the source hand their handlers on in a chain. -/
theorem chained_of_run {guard : Conn → Label → Prop} {labels : List Label}
    (hrun : Run server env guard labels c) : Chained server c :=
  Reaches.invariant (I := fun _ c => Chained server c) (chained_onAccept server)
    (fun _ _ _ _ hchained _ hstep => chained_step hchained hstep) hrun

end Conn

/-- In an exchange the first read is offered until the upgrade. -/
theorem Exchange.offersFirstRead {log : List Event} {x : Exchange} (h : Exchange.Run log x) :
    OffersFirstRead log := by
  refine Reaches.throughout (I := Exchange.Run) .init ?_ ?_ h
  · intro past x e x' hrun hguard hnext
    exact .step hrun hguard hnext
  · rintro past x e x' hrun - hnext hupgraded protocolIndex tag incoming rfl
    obtain ⟨hoffers, -⟩ := Option.ite_none_right_eq_some.mp hnext
    have hsums := Exchange.sums_of_run hrun
    cases x with
    | unread | answered => exact hoffers.elim
    | undecided first =>
        rw [hoffers.2]
        exact hsums.1
    | upgraded => exact absurd ((Exchange.upgraded_iff hrun).mpr rfl) hupgraded

/-- The fall-through visits the protocols in order, each at most once, and ends; and
until an upgrade has been written, every session is offered the first read. -/
theorem fallThrough_in_order (protocolCount : UInt32) (h : 1 ≤ protocolCount) :
    (∀ calls s, HandOver.Run onHandshakeFail (protocolCount - 1) calls s →
      s.visited <+: countdown protocolCount ∧
        ∀ n, (0, n + 1) ∈ s.holders → s.visited = countdown protocolCount) ∧
    ∀ server env labels c, server.protocolCount = protocolCount →
      Conn.Run server env AnyStep labels c →
        (∃ calls s, HandOver.Run onHandshakeFail (protocolCount - 1) calls s ∧
          s.visited = tried c.log) ∧
        OffersFirstRead c.log := by
  constructor
  · intro calls s hrun
    exact ⟨visited_prefix_countdown h hrun, fun n hcalled => visited_eq_countdown h hrun hcalled⟩
  · rintro server env labels c rfl hrun
    constructor
    · obtain ⟨calls, s, hchain, hvisited, -⟩ := Conn.chained_of_run hrun
      exact ⟨calls, s, hchain, hvisited⟩
    · obtain ⟨h', x, hexchange, -⟩ := Conn.fits_of_run hrun
      exact Exchange.offersFirstRead hexchange

/-- A client of the echo server whose first read no session takes. -/
theorem fallThrough_in_order_echo :
    (∃ s, HandOver.Run onHandshakeFail 4 [0, 1, 2, 3, 4] s ∧ s.visited = countdown 5) ∧
      ∃ c, Conn.Run (EchoServer.myServer EchoServer.noFiles) EchoServer.answering AnyStep
          (.readCompletes #v[0, 0, 0, 0] 0 (chars "\x7b\x7d") :: List.replicate 5 .call) c ∧
        tried c.log = [3, 2, 1, 0] ∧ OffersFirstRead c.log := by
  obtain ⟨hchain, hsessions⟩ := fallThrough_in_order 5 (by decide)
  have hcalls : ∃ s, HandOver.Run onHandshakeFail 4 [0, 1, 2, 3, 4] s ∧
      s.holders = [(4, 1), (3, 1), (2, 1), (1, 1), (0, 1)] :=
    Reaches.exists_of_runFrom HandOver.State.holders (by decide)
  have hclient : ∃ c, Conn.Run (EchoServer.myServer EchoServer.noFiles) EchoServer.answering
      AnyStep (.readCompletes #v[0, 0, 0, 0] 0 (chars "\x7b\x7d") :: List.replicate 5 .call) c ∧
        tried c.log = [3, 2, 1, 0] :=
    Reaches.exists_of_runFrom (fun c : Conn => tried c.log) (by decide)
  obtain ⟨s, hrun, hholders⟩ := hcalls
  obtain ⟨c, hconn, htried⟩ := hclient
  exact ⟨⟨s, hrun, (hchain _ s hrun).2 0 (by simp [hholders])⟩, c, hconn, htried,
    (hsessions _ _ _ c rfl hconn).2⟩

end Splice

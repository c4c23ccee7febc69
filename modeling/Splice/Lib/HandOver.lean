import Mathlib.Data.List.Chain
import Splice.Lib.Transition

/-!
# Splice.Lib.HandOver

Handlers that are handed on.  A handler with a value bound to it is given to a
holder; when the holder calls it, `next` of the value either is the end, or goes with
a new handler to a new holder.

Nothing is assumed of when the holders call, only that none calls twice.  Then the
values visited are a chain of `next` from the first value, and the last handler given
out is the only one that may still be called.
-/

namespace HandOver

open Transition

variable {α : Type} {next : α → Option α} {a : α}

/-- The handlers given out, each with its value and the number of calls, and the values
that were passed on. -/
structure State (α : Type) where
  holders : List (α × Nat)
  visited : List α

/-- One holder, and nothing called yet. -/
def start (a : α) : State α := ⟨[(a, 0)], []⟩

/-- Holder `i` calls its handler. -/
def call (next : α → Option α) (s : State α) (i : Nat) : Option (State α) :=
  match s.holders[i]? with
  | none => none
  | some (a, n) =>
      let holders := s.holders.set i (a, n + 1)
      match next a with
      | none => some { s with holders := holders }
      | some b => some { holders := holders ++ [(b, 0)], visited := s.visited ++ [b] }

/-- Holder `i` has not called its handler. -/
def NotCalled (s : State α) (i : Nat) : Prop := s.holders[i]?.map Prod.snd = some 0

instance (s : State α) (i : Nat) : Decidable (NotCalled s i) :=
  inferInstanceAs (Decidable (_ = _))

/-- The runs in which no holder calls twice. -/
abbrev Run (next : α → Option α) (a : α) : List Nat → State α → Prop :=
  Reaches (fun s i s' => call next s i = some s') NotCalled (start a)

/-! ## Chains -/

/-- A chain of a function is a prefix of any chain that ends where the function does. -/
theorem prefix_of_isChain {l m : List α} (hl : (a :: l).IsChain fun x y => next x = some y)
    (hm : (a :: m).IsChain fun x y => next x = some y)
    (hend : next ((a :: m).getLast (by simp)) = none) : l <+: m := by
  induction l generalizing a m with
  | nil => exact List.nil_prefix
  | cons b l ih =>
      obtain ⟨hab, hl⟩ := List.isChain_cons_cons.mp hl
      cases m with
      | nil => simp [hab] at hend
      | cons c m =>
          obtain ⟨hac, hm⟩ := List.isChain_cons_cons.mp hm
          obtain rfl : b = c := Option.some.inj (hab.symm.trans hac)
          exact (List.cons_prefix_cons).mpr ⟨rfl, ih hl hm (by simpa using hend)⟩

/-! ## Runs -/

/-- All holders but the last have called; the last may have called only where `next`
ends.  The values are a chain. -/
def Linked (next : α → Option α) (a : α) (s : State α) : Prop :=
  ∃ spent b n, s.holders = spent.map (·, 1) ++ [(b, n)] ∧ a :: s.visited = spent ++ [b] ∧
    (spent ++ [b]).IsChain (fun x y => next x = some y) ∧ (n ≠ 0 → next b = none)

theorem linked_start : Linked next a (start a) :=
  ⟨[], a, 0, rfl, rfl, List.isChain_singleton a, fun h => absurd rfl h⟩

/-- Only the last holder can call. -/
theorem eq_last_of_notCalled {spent : List α} {b : α} {n i : Nat} {visited : List α}
    (h : NotCalled ⟨spent.map (·, 1) ++ [(b, n)], visited⟩ i) : i = spent.length ∧ n = 0 := by
  unfold NotCalled at h
  rcases Nat.lt_trichotomy i spent.length with hi | rfl | hi
  · simp [List.getElem?_append_left, hi] at h
  · simpa using h
  · have hlen : (spent.map (·, 1) ++ [(b, n)]).length ≤ i := by
      simp
      omega
    simp [List.getElem?_eq_none hlen] at h

/-- What the call of the last holder does. -/
theorem call_last (next : α → Option α) (spent : List (α × Nat)) (b : α) (n : Nat)
    (visited : List α) :
    call next ⟨spent ++ [(b, n)], visited⟩ spent.length =
      match next b with
      | none => some ⟨spent ++ [(b, n + 1)], visited⟩
      | some c => some ⟨spent ++ [(b, n + 1)] ++ [(c, 0)], visited ++ [c]⟩ := by
  simp [call]

/-- A call of a holder that has not been called keeps the chain. -/
theorem linked_call {s s' : State α} {i : Nat} (h : Linked next a s) (hguard : NotCalled s i)
    (hcall : call next s i = some s') : Linked next a s' := by
  obtain ⟨holders, visited⟩ := s
  obtain ⟨spent, b, n, rfl, hvisited, hchain, -⟩ := h
  obtain ⟨rfl, rfl⟩ := eq_last_of_notCalled hguard
  have hlast := call_last next (spent.map (·, 1)) b 0 visited
  rw [List.length_map, hcall] at hlast
  cases hb : next b with
  | none =>
      rw [hb] at hlast
      obtain rfl := Option.some.inj hlast
      exact ⟨spent, b, 1, rfl, hvisited, hchain, fun _ => hb⟩
  | some c =>
      rw [hb] at hlast
      obtain rfl := Option.some.inj hlast
      refine ⟨spent ++ [b], c, 0, by simp, ?_, ?_, fun h => absurd rfl h⟩
      · show a :: (visited ++ [c]) = spent ++ [b] ++ [c]
        rw [← List.cons_append, show a :: visited = spent ++ [b] from hvisited]
      · refine List.isChain_append.mpr ⟨hchain, List.isChain_singleton c, ?_⟩
        simp [hb]

/-- The holders are a chain in every run. -/
theorem linked_of_run {calls : List Nat} {s : State α} (h : Run next a calls s) :
    Linked next a s :=
  Reaches.invariant (I := fun _ s => Linked next a s) linked_start
    (fun _ _ _ _ hlinked hguard hstep => linked_call hlinked hguard hstep) h

/-- However the holders call, what is visited is the start of the way from `a` to the
end. -/
theorem visited_prefix {calls : List Nat} {s : State α} {m : List α} (h : Run next a calls s)
    (hm : (a :: m).IsChain fun x y => next x = some y)
    (hend : next ((a :: m).getLast (by simp)) = none) : s.visited <+: m := by
  obtain ⟨spent, b, n, -, hvisited, hchain, -⟩ := linked_of_run h
  exact prefix_of_isChain (by rwa [hvisited]) hm hend

/-- Once a handler has been called whose value ends the way, all of the way has been
visited. -/
theorem visited_eq {calls : List Nat} {s : State α} {m : List α} {b : α} {n : Nat}
    (h : Run next a calls s) (hm : (a :: m).IsChain fun x y => next x = some y)
    (hend : next ((a :: m).getLast (by simp)) = none)
    (hb : next b = none) (hcalled : (b, n + 1) ∈ s.holders) : s.visited = m := by
  have hstart := visited_prefix h hm hend
  obtain ⟨spent, last, k, hholders, hvisited, hchain, -⟩ := linked_of_run h
  -- a value that has a successor is not the end, so the handler is the last one
  have hlast : next last = none := by
    rw [hholders, List.mem_append] at hcalled
    rcases hcalled with hspent | hcalled
    · obtain ⟨x, hx, hxb⟩ := List.mem_map.mp hspent
      obtain rfl : x = b := congrArg Prod.fst hxb
      obtain ⟨before, after, rfl⟩ := List.append_of_mem hx
      have hsucc := (List.isChain_append.mp
        (by simpa [List.append_assoc] using hchain : (before ++ (x :: (after ++ [last]))).IsChain
          fun x y => next x = some y)).2.1
      cases after with
      | nil => simp [hb] at hsucc
      | cons y after => simp [hb] at hsucc
    · simp only [List.mem_singleton, Prod.mk.injEq] at hcalled
      rwa [← hcalled.1]
  have hback : m <+: s.visited := by
    refine prefix_of_isChain hm (by rwa [hvisited]) ?_
    simp only [hvisited, List.getLast_append_singleton, hlast]
  exact hstart.eq_of_length (Nat.le_antisymm hstart.length_le hback.length_le)

end HandOver

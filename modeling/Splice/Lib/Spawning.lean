import Splice.Lib.Transition

/-!
# Splice.Lib.Spawning

Systems that create processes and let them run side by side.  All processes start alike and
take steps of one step function; a system step creates a process or lets one of them step.

Whatever the interleaving, each process makes a run of its own (`runs_step`), so what
holds of every run of one process holds of all processes at all times.
-/

namespace Spawning

open Transition

variable {σ α : Type}

/-- A step of the system. -/
inductive Action (α : Type) where
  | spawn
  | act (i : Nat) (a : α)

/-- The processes, in the order in which they were created. -/
def step (process : σ → α → Option σ) (start : σ) (processes : List σ) :
    Action α → Option (List σ)
  | .spawn => some (processes ++ [start])
  | .act i a => do
      let p ← processes[i]?
      let p' ← process p a
      return processes.set i p'

/-- The steps of one process. -/
def labelsOf (i : Nat) (trace : List (Action α)) : List α :=
  trace.filterMap fun
    | .spawn => none
    | .act j a => if j = i then some a else none

@[simp] theorem labelsOf_append (i : Nat) (trace more : List (Action α)) :
    labelsOf i (trace ++ more) = labelsOf i trace ++ labelsOf i more := List.filterMap_append

@[simp] theorem labelsOf_spawn (i : Nat) : labelsOf i [(.spawn : Action α)] = [] := rfl

theorem labelsOf_act_self (i : Nat) (a : α) : labelsOf i [.act i a] = [a] := by
  simp [labelsOf]

theorem labelsOf_act_of_ne {i j : Nat} (h : j ≠ i) (a : α) : labelsOf i [.act j a] = [] := by
  simp [labelsOf, h]

variable {process : σ → α → Option σ} {start : σ} {processes processes' : List σ}
  {trace : List (Action α)} {action : Action α}

/-- What a step can be. -/
theorem step_cases (h : step process start processes action = some processes') :
    (action = .spawn ∧ processes' = processes ++ [start]) ∨
      ∃ i a p p', action = .act i a ∧ processes[i]? = some p ∧ process p a = some p' ∧
        processes' = processes.set i p' := by
  cases action with
  | spawn => exact .inl ⟨rfl, (Option.some.inj h).symm⟩
  | act i a =>
      obtain ⟨p, hp, h⟩ := Option.bind_eq_some_iff.mp h
      obtain ⟨p', hp', h⟩ := Option.bind_eq_some_iff.mp h
      exact .inr ⟨i, a, p, p', rfl, hp, hp', (Option.some.inj h).symm⟩

/-- The runs of the processes, and no steps of what has not been created. -/
structure Runs (process : σ → α → Option σ) (start : σ) (trace : List (Action α))
    (processes : List σ) : Prop where
  reaches : ∀ i p, processes[i]? = some p →
    Reaches (fun p a p' => process p a = some p') AnyStep start (labelsOf i trace) p
  none : ∀ i, processes.length ≤ i → labelsOf i trace = []

theorem runs_nil : Runs process start [] [] := ⟨nofun, fun _ _ => rfl⟩

/-- A step belongs to the run of one process, or begins a new one. -/
theorem runs_step (h : Runs process start trace processes)
    (hstep : step process start processes action = some processes') :
    Runs process start (trace ++ [action]) processes' := by
  obtain ⟨rfl, rfl⟩ | ⟨j, a, p, p', rfl, hp, hp', rfl⟩ := step_cases hstep
  · refine ⟨fun i q hq => ?_, fun i hi => ?_⟩
    · rw [labelsOf_append, labelsOf_spawn, List.append_nil]
      rcases Nat.lt_or_ge i processes.length with hlt | hge
      · rw [List.getElem?_append_left hlt] at hq
        exact h.reaches i q hq
      · -- the one just created
        rw [List.getElem?_append_right hge] at hq
        obtain rfl := List.mem_singleton.mp (List.mem_of_getElem? hq)
        rw [h.none i hge]
        exact .init
    · rw [List.length_append] at hi
      rw [labelsOf_append, labelsOf_spawn, List.append_nil]
      exact h.none i (by omega)
  · have hlt : j < processes.length := (List.getElem?_eq_some_iff.mp hp).1
    refine ⟨fun i q hq => ?_, fun i hi => ?_⟩
    · by_cases hij : j = i
      · subst hij
        rw [List.getElem?_set_self hlt] at hq
        obtain rfl := Option.some.inj hq
        rw [labelsOf_append, labelsOf_act_self]
        exact .step (h.reaches j p hp) trivial hp'
      · rw [List.getElem?_set_ne hij] at hq
        rw [labelsOf_append, labelsOf_act_of_ne hij, List.append_nil]
        exact h.reaches i q hq
    · rw [List.length_set] at hi
      rw [labelsOf_append, labelsOf_act_of_ne (by omega), List.append_nil]
      exact h.none i hi

end Spawning

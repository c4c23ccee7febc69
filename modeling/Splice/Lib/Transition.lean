import Mathlib.Data.List.Induction

/-!
# Splice.Lib.Transition

Labelled transition systems with a guard on their steps.  `Reaches step guard init`
holds of the traces and states of all runs from `init` whose every step satisfies
the guard in the state before it; with the guard `AnyStep` these are all runs.

`Reaches.invariant` is the induction over runs, once for all: what holds at the start
and is preserved by a guarded step holds of every trace and state reached.

`Throughout P log` says of a log of events that each satisfies `P` with those before it.
-/

namespace Transition

variable {σ α : Type}

/-- The runs from `init` whose steps all satisfy `guard`, as the labels taken and the
state reached. -/
inductive Reaches (step : σ → α → σ → Prop) (guard : σ → α → Prop) (init : σ) :
    List α → σ → Prop
  | init : Reaches step guard init [] init
  | step {trace s a s'} : Reaches step guard init trace s → guard s a → step s a s' →
      Reaches step guard init (trace ++ [a]) s'

/-- The guard that every step satisfies. -/
def AnyStep (_ : σ) (_ : α) : Prop := True

instance (s : σ) (a : α) : Decidable (AnyStep s a) := isTrue trivial

variable {step : σ → α → σ → Prop} {guard : σ → α → Prop} {init s s' : σ}
  {trace : List α} {a : α}

/-- The invariant rule. -/
theorem Reaches.invariant {I : List α → σ → Prop} (hinit : I [] init)
    (hstep : ∀ trace s a s', I trace s → guard s a → step s a s' → I (trace ++ [a]) s')
    (h : Reaches step guard init trace s) : I trace s := by
  induction h with
  | init => exact hinit
  | step _ hguard hs ih => exact hstep _ _ _ _ ih hguard hs

/-- A run under a guard is one under every weaker guard. -/
theorem Reaches.mono {guard' : σ → α → Prop} (h : Reaches step guard init trace s)
    (hguard : ∀ s a, guard s a → guard' s a) : Reaches step guard' init trace s := by
  induction h with
  | init => exact .init
  | step _ ha hs ih => exact .step ih (hguard _ _ ha) hs

theorem reaches_nil : Reaches step guard init [] s ↔ s = init := by
  constructor
  · intro h
    generalize htrace : ([] : List α) = trace at h
    cases h with
    | init => rfl
    | step _ _ _ => simp at htrace
  · rintro rfl
    exact .init

/-- A run is its first step and the run from there. -/
theorem reaches_cons : Reaches step guard init (a :: trace) s ↔
    ∃ s₁, guard init a ∧ step init a s₁ ∧ Reaches step guard s₁ trace s := by
  constructor
  · intro h
    generalize htrace : a :: trace = labels at h
    induction h generalizing trace with
    | init => cases htrace
    | @step past s b s' hpast hguard hstep ih =>
        cases past with
        | nil =>
            obtain ⟨rfl, rfl⟩ := List.cons.inj htrace
            obtain rfl := reaches_nil.mp hpast
            exact ⟨s', hguard, hstep, .init⟩
        | cons c past =>
            obtain ⟨rfl, rfl⟩ := List.cons.inj htrace
            obtain ⟨s₁, hfirst, hs₁, hrest⟩ := ih rfl
            exact ⟨s₁, hfirst, hs₁, .step hrest hguard hstep⟩
  · rintro ⟨s₁, hguard, hs₁, h⟩
    induction h with
    | init =>
        have hinit : Reaches step guard init [] init := .init
        exact .step hinit hguard hs₁
    | step _ hguard' hstep ih => exact .step ih hguard' hstep

/-- And so is any part of it. -/
theorem reaches_append {more : List α} : Reaches step guard init (trace ++ more) s ↔
    ∃ s₁, Reaches step guard init trace s₁ ∧ Reaches step guard s₁ more s := by
  induction trace generalizing init with
  | nil => simp [reaches_nil]
  | cons a trace ih =>
      rw [List.cons_append, reaches_cons]
      constructor
      · rintro ⟨s₁, hguard, hstep, hrest⟩
        obtain ⟨s₂, htrace, hmore⟩ := ih.mp hrest
        exact ⟨s₂, reaches_cons.mpr ⟨s₁, hguard, hstep, htrace⟩, hmore⟩
      · rintro ⟨s₂, htrace, hmore⟩
        obtain ⟨s₁, hguard, hstep, hrest⟩ := reaches_cons.mp htrace
        exact ⟨s₁, hguard, hstep, ih.mpr ⟨s₂, hrest, hmore⟩⟩

/-- Where a guard is exactly what keeps a property, the runs that keep it are the guarded
ones. -/
theorem Reaches.guarded_iff {I P : List α → σ → Prop} (hinit : I [] init) (hP : P [] init)
    (hI : ∀ trace s a s', I trace s → step s a s' → I (trace ++ [a]) s')
    (hback : ∀ trace s a s', I trace s → step s a s' → P (trace ++ [a]) s' → P trace s)
    (hiff : ∀ trace s a s', I trace s → P trace s → step s a s' →
      (P (trace ++ [a]) s' ↔ guard s a))
    (h : Reaches step AnyStep init trace s) : P trace s ↔ Reaches step guard init trace s := by
  constructor
  · intro hPs
    have hinv : I trace s ∧ (P trace s → Reaches step guard init trace s) := by
      refine Reaches.invariant
        (I := fun trace s => I trace s ∧ (P trace s → Reaches step guard init trace s))
        ⟨hinit, fun _ => .init⟩ ?_ h
      rintro trace s a s' ⟨hs, hreach⟩ - hstep
      refine ⟨hI trace s a s' hs hstep, fun hP' => ?_⟩
      have hPs := hback trace s a s' hs hstep hP'
      exact .step (hreach hPs) ((hiff trace s a s' hs hPs hstep).mp hP') hstep
    exact hinv.2 hPs
  · intro hguarded
    have hinv : I trace s ∧ P trace s := by
      refine Reaches.invariant (I := fun trace s => I trace s ∧ P trace s) ⟨hinit, hP⟩ ?_ hguarded
      rintro trace s a s' ⟨hs, hPs⟩ hguard hstep
      exact ⟨hI trace s a s' hs hstep, (hiff trace s a s' hs hPs hstep).mpr hguard⟩
    exact hinv.2

/-- Where each step from a state with the invariant makes a measure smaller, there is no
infinite run. -/
theorem acc_of_decreasing {β : Type} {smaller : β → β → Prop} (hwf : WellFounded smaller)
    {I : σ → Prop} {next : σ → σ → Prop} (measure : σ → β)
    (hstep : ∀ s s', I s → next s s' → I s' ∧ smaller (measure s') (measure s)) (hs : I s) :
    Acc (fun later earlier => next earlier later) s := by
  generalize hm : measure s = m
  induction m using hwf.induction generalizing s with
  | _ m ih =>
      subst hm
      refine ⟨s, fun s' hnext => ?_⟩
      obtain ⟨hs', hless⟩ := hstep s s' hs hnext
      exact ih _ hless hs' rfl

/-! ## Progress -/

/-- From every state reached in which `P` holds the run can go on to one in which `Q`
holds. -/
def Leads (step : σ → α → σ → Prop) (guard : σ → α → Prop) (init : σ) (P Q : σ → Prop) : Prop :=
  ∀ trace s, Reaches step guard init trace s → P s →
    ∃ more s', Reaches step guard init (trace ++ more) s' ∧ Q s'

section Leads

variable {P Q R : σ → Prop}

/-- A property leads to what it implies. -/
theorem Leads.of_imp (h : ∀ trace s, Reaches step guard init trace s → P s → Q s) :
    Leads step guard init P Q := by
  intro trace s hrun hP
  exact ⟨[], s, by rwa [List.append_nil], h trace s hrun hP⟩

/-- A property leads to what one step brings. -/
theorem Leads.of_step (h : ∀ trace s, Reaches step guard init trace s → P s →
      ∃ a s', guard s a ∧ step s a s' ∧ Q s') : Leads step guard init P Q := by
  intro trace s hrun hP
  obtain ⟨a, s', hguard, hstep, hQ⟩ := h trace s hrun hP
  exact ⟨[a], s', .step hrun hguard hstep, hQ⟩

/-- What leads to a second and that to a third leads there. -/
theorem Leads.trans (h : Leads step guard init P Q) (h' : Leads step guard init Q R) :
    Leads step guard init P R := by
  intro trace s hrun hP
  obtain ⟨more, s₁, hrun₁, hQ⟩ := h trace s hrun hP
  obtain ⟨more', s₂, hrun₂, hR⟩ := h' _ s₁ hrun₁ hQ
  exact ⟨more ++ more', s₂, by rwa [← List.append_assoc], hR⟩

/-- Two that lead to a third do so together. -/
theorem Leads.or (h : Leads step guard init P R) (h' : Leads step guard init Q R) :
    Leads step guard init (fun s => P s ∨ Q s) R := by
  rintro trace s hrun (hP | hQ)
  · exact h trace s hrun hP
  · exact h' trace s hrun hQ

end Leads

/-! ## Step functions -/

/-- Run a step function along a list of labels, as far as the guard and the function
allow. -/
def runFrom (f : σ → α → Option σ) (guard : σ → α → Prop) [∀ s a, Decidable (guard s a)] :
    σ → List α → Option σ
  | s, [] => some s
  | s, a :: as => if guard s a then (f s a).bind fun s' => runFrom f guard s' as else none

/-- The labels determine the state. -/
theorem Reaches.unique {f : σ → α → Option σ}
    (h : Reaches (fun s a s' => f s a = some s') guard init trace s)
    (h' : Reaches (fun s a s' => f s a = some s') guard init trace s') : s = s' := by
  induction trace generalizing init with
  | nil => rw [reaches_nil.mp h, reaches_nil.mp h']
  | cons a trace ih =>
      obtain ⟨s₁, -, hstep, hrest⟩ := reaches_cons.mp h
      obtain ⟨s₂, -, hstep', hrest'⟩ := reaches_cons.mp h'
      obtain rfl := Option.some.inj (hstep.symm.trans hstep')
      exact ih hrest hrest'

/-- Where a run can go on to `Q`, a step can be taken as long as `Q` does not hold. -/
theorem Leads.holds_or_step {f : σ → α → Option σ} {P Q : σ → Prop}
    (h : Leads (fun s a s' => f s a = some s') guard init P Q)
    (hrun : Reaches (fun s a s' => f s a = some s') guard init trace s) (hP : P s) :
    Q s ∨ ∃ a s', guard s a ∧ f s a = some s' := by
  obtain ⟨more, s', hmore, hQ⟩ := h trace s hrun hP
  obtain ⟨s₁, htrace, hrest⟩ := reaches_append.mp hmore
  obtain rfl := hrun.unique htrace
  cases more with
  | nil =>
      obtain rfl := reaches_nil.mp hrest
      exact .inl hQ
  | cons a more =>
      obtain ⟨s₂, hguard, hstep, -⟩ := reaches_cons.mp hrest
      exact .inr ⟨a, s₂, hguard, hstep⟩

/-- What the function computes, the relation reaches. -/
theorem Reaches.append_of_runFrom {f : σ → α → Option σ} [∀ s a, Decidable (guard s a)]
    {trace as : List α} {s s' : σ}
    (h : Reaches (fun s a s' => f s a = some s') guard init trace s)
    (hrun : runFrom f guard s as = some s') :
    Reaches (fun s a s' => f s a = some s') guard init (trace ++ as) s' := by
  induction as generalizing trace s with
  | nil =>
      rw [List.append_nil, ← Option.some.inj hrun]
      exact h
  | cons a as ih =>
      unfold runFrom at hrun
      split at hrun
      · next hguard =>
          obtain ⟨s₁, hs₁, hrest⟩ := Option.bind_eq_some_iff.mp hrun
          rw [List.append_cons]
          exact ih (.step h hguard hs₁) hrest
      · exact absurd hrun (by simp)

/-- A run that is computed is a run. -/
theorem Reaches.of_runFrom {f : σ → α → Option σ} [∀ s a, Decidable (guard s a)]
    {trace : List α} {s : σ} (hrun : runFrom f guard init trace = some s) :
    Reaches (fun s a s' => f s a = some s') guard init trace s :=
  Reaches.append_of_runFrom .init hrun

/-- The same, for a view of the state reached. -/
theorem Reaches.exists_of_runFrom {f : σ → α → Option σ} [∀ s a, Decidable (guard s a)]
    {trace : List α} {β : Type} (view : σ → β) {y : β}
    (hrun : (runFrom f guard init trace).map view = some y) :
    ∃ s, Reaches (fun s a s' => f s a = some s') guard init trace s ∧ view s = y := by
  obtain ⟨s, hs, hview⟩ := Option.map_eq_some_iff.mp hrun
  exact ⟨s, Reaches.of_runFrom hs, hview⟩

/-! ## Logs -/

variable {ε : Type} {P : List ε → ε → Prop} {log : List ε} {e : ε}

/-- Every event of a log satisfies `P` with the events before it. -/
def Throughout (P : List ε → ε → Prop) (log : List ε) : Prop :=
  ∀ past e, past ++ [e] <+: log → P past e

@[simp] theorem throughout_nil : Throughout P [] := by
  intro past e h
  simp at h

/-- A longer log is judged by its last event. -/
@[simp] theorem throughout_concat :
    Throughout P (log ++ [e]) ↔ Throughout P log ∧ P log e := by
  constructor
  · intro h
    exact ⟨fun past e' hpast => h past e' (hpast.trans (List.prefix_append _ _)),
      h log e (List.prefix_refl _)⟩
  · rintro ⟨hlog, he⟩ past e' hpast
    rcases List.prefix_concat_iff.mp hpast with heq | hpast
    · obtain ⟨rfl, he'⟩ := List.append_inj' heq rfl
      rwa [List.singleton_inj.mp he']
    · exact hlog past e' hpast

/-- The first event, and the others behind it. -/
theorem throughout_cons :
    Throughout P (e :: log) ↔ P [] e ∧ Throughout (fun past => P (e :: past)) log := by
  constructor
  · intro h
    exact ⟨h [] e (List.prefix_append [e] log),
      fun past e' hpast => h (e :: past) e' (List.cons_prefix_cons.mpr ⟨rfl, hpast⟩)⟩
  · rintro ⟨he, hlog⟩ past e' hpast
    cases past with
    | nil =>
        obtain ⟨rfl, -⟩ := List.cons_prefix_cons.mp hpast
        exact he
    | cons first past =>
        obtain ⟨rfl, hrest⟩ := List.cons_prefix_cons.mp hpast
        exact hlog past e' hrest

theorem throughout_of_forall (h : ∀ e ∈ log, ∀ past, P past e) : Throughout P log := by
  intro past e hpast
  exact h e (hpast.subset (by simp)) past

/-- What is said of a log is said of its beginning. -/
theorem Throughout.of_append {more : List ε} (h : Throughout P (log ++ more)) :
    Throughout P log :=
  fun past e hpast => h past e (hpast.trans (List.prefix_append _ _))

/-- Events that always satisfy `P` do not matter. -/
theorem throughout_append {more : List ε} (h : ∀ e ∈ more, ∀ past, P past e) :
    Throughout P (log ++ more) ↔ Throughout P log := by
  induction more using List.reverseRecOn with
  | nil => rw [List.append_nil]
  | append_singleton more e ih =>
      rw [← List.append_assoc, throughout_concat, ih fun e he => h e (by simp [he])]
      exact and_iff_left (h e (by simp) _)

/-- What an invariant gives at each step holds throughout the trace. -/
theorem Reaches.throughout {I : List α → σ → Prop} {Q : List α → α → Prop} (hinit : I [] init)
    (hstep : ∀ trace s a s', I trace s → guard s a → step s a s' → I (trace ++ [a]) s')
    (hQ : ∀ trace s a s', I trace s → guard s a → step s a s' → Q trace a)
    (h : Reaches step guard init trace s) : Throughout Q trace := by
  have hboth := Reaches.invariant (I := fun trace s => I trace s ∧ Throughout Q trace)
    ⟨hinit, throughout_nil⟩
    (fun _ _ _ _ hi hguard hs => ⟨hstep _ _ _ _ hi.1 hguard hs,
      throughout_concat.mpr ⟨hi.2, hQ _ _ _ _ hi.1 hguard hs⟩⟩) h
  exact hboth.2

end Transition

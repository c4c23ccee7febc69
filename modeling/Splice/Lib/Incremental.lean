/-!
# Splice.Lib.Incremental

Machines that consume their input one item at a time and give a three-valued
answer: *true* (a complete value has been read), *false* (the input is not one)
or *indeterminate* (more input is needed).  `parse` drives such a machine over a
buffer and reports where it stopped; `parseCalls` is a sequence of such calls on
one machine, a call for each chunk the input happens to arrive in.

Everything is over an arbitrary step function.  What a user of the module gets is
the chunk law — a machine that accepts a buffer to its last item accepts it in
whatever chunks it arrives (`parseCalls_of_parse`) — and the rule that an
invariant of one step is an invariant of a whole call (`parse_invariant`).

`steps` are the states in which a call takes its items, each with the item: what is
asserted of a step that a machine makes is asserted of these.
-/

namespace Incremental

/-- The answer of one step or one call: `boost::tribool`. -/
inductive Tribool where
  | false
  | true
  | indeterminate
  deriving DecidableEq, Repr

variable {σ α : Type} {consume : σ → α → Tribool × σ}

/-- Feed the input to `consume` until the answer is definite or the input ends.
The last component is the unread rest of the input. -/
def parse (consume : σ → α → Tribool × σ) : σ → List α → Tribool × σ × List α
  | s, [] => (.indeterminate, s, [])
  | s, x :: xs =>
      match consume s x with
      | (.indeterminate, s') => parse consume s' xs
      | (r, s') => (r, s', xs)

/-- Successive calls of `parse` on one machine.  Each call is recorded as its
answer and the rest of its own chunk. -/
def parseCalls (consume : σ → α → Tribool × σ) :
    σ → List (List α) → List (Tribool × List α) × σ
  | s, [] => ([], s)
  | s, c :: cs =>
      let (r, s', rest) := parse consume s c
      let (calls, s'') := parseCalls consume s' cs
      ((r, rest) :: calls, s'')

/-! ## One call -/

@[simp] theorem parse_nil (s : σ) : parse consume s [] = (.indeterminate, s, []) := rfl

/-- An input that leaves the answer open is followed by the rest of the parse. -/
theorem parse_cons_of_indeterminate {s s' : σ} {x : α}
    (h : consume s x = (.indeterminate, s')) (xs : List α) :
    parse consume s (x :: xs) = parse consume s' xs := by
  simp [parse, h]

/-- An input that settles the answer ends the parse. -/
theorem parse_cons_of_definite {s s' : σ} {x : α} {r : Tribool}
    (h : consume s x = (r, s')) (hr : r ≠ .indeterminate) (xs : List α) :
    parse consume s (x :: xs) = (r, s', xs) := by
  cases r <;> simp_all [parse]

/-- A call that asks for more data has read the whole of its input. -/
theorem rest_eq_nil_of_indeterminate {s s' : σ} {xs rest : List α}
    (h : parse consume s xs = (.indeterminate, s', rest)) : rest = [] := by
  induction xs generalizing s with
  | nil => simp_all
  | cons x xs ih =>
      cases hx : consume s x with
      | mk r s₁ =>
          by_cases hr : r = .indeterminate
          · subst hr
            rw [parse_cons_of_indeterminate hx] at h
            exact ih h
          · rw [parse_cons_of_definite hx hr] at h
            exact absurd (congrArg Prod.fst h) hr

/-! ## Chunks -/

/-- Parsing goes on where an indeterminate call stopped. -/
theorem parse_append_of_indeterminate {s s' : σ} {xs rest : List α}
    (h : parse consume s xs = (.indeterminate, s', rest)) (ys : List α) :
    parse consume s (xs ++ ys) = parse consume s' ys := by
  induction xs generalizing s with
  | nil =>
      rw [parse_nil] at h
      have hs : s = s' := congrArg (fun p => p.2.1) h
      rw [hs, List.nil_append]
  | cons x xs ih =>
      cases hx : consume s x with
      | mk r s₁ =>
          by_cases hr : r = .indeterminate
          · subst hr
            rw [parse_cons_of_indeterminate hx] at h
            rw [List.cons_append, parse_cons_of_indeterminate hx, ih h]
          · rw [parse_cons_of_definite hx hr] at h
            exact absurd (congrArg Prod.fst h) hr

/-- What follows the point where a definite call stopped does not matter to it. -/
theorem parse_append_of_definite {s s' : σ} {xs rest : List α} {r : Tribool}
    (h : parse consume s xs = (r, s', rest)) (hr : r ≠ .indeterminate) (ys : List α) :
    parse consume s (xs ++ ys) = (r, s', rest ++ ys) := by
  induction xs generalizing s with
  | nil =>
      rw [parse_nil] at h
      exact absurd (congrArg Prod.fst h).symm hr
  | cons x xs ih =>
      cases hx : consume s x with
      | mk r₁ s₁ =>
          by_cases hr₁ : r₁ = .indeterminate
          · subst hr₁
            rw [parse_cons_of_indeterminate hx] at h
            rw [List.cons_append, parse_cons_of_indeterminate hx, ih h]
          · rw [parse_cons_of_definite hx hr₁] at h
            rw [List.cons_append, parse_cons_of_definite hx hr₁]
            simp_all

/-- A machine that needs the input to its last item asks for more data on every
strict prefix of it. -/
theorem parse_prefix_indeterminate {s s' : σ} {xs ys : List α} {r : Tribool}
    (h : parse consume s (xs ++ ys) = (r, s', [])) (hys : ys ≠ []) :
    ∃ s₁, parse consume s xs = (.indeterminate, s₁, []) ∧ parse consume s₁ ys = (r, s', []) := by
  cases hx : parse consume s xs with
  | mk r₁ p =>
      obtain ⟨s₁, rest⟩ := p
      by_cases hr : r₁ = .indeterminate
      · subst hr
        have hrest : rest = [] := rest_eq_nil_of_indeterminate hx
        subst hrest
        rw [parse_append_of_indeterminate hx] at h
        exact ⟨s₁, rfl, h⟩
      · rw [parse_append_of_definite hx hr] at h
        have hnil : rest ++ ys = [] := congrArg (fun p => p.2.2) h
        exact absurd (List.append_eq_nil_iff.mp hnil).2 hys

/-- **The chunk law**: a machine that gives its definite answer at the last item of
`chunks.flatten ++ last` gives it in the call that holds that item, having asked
for more data, and read all it was given, in every call before. -/
theorem parseCalls_of_parse {s s' : σ} {r : Tribool} {last : List α}
    (chunks : List (List α)) (hr : r ≠ .indeterminate) (hlast : last ≠ [])
    (h : parse consume s (chunks.flatten ++ last) = (r, s', [])) (rest : List α) :
    parseCalls consume s (chunks ++ [last ++ rest]) =
      (chunks.map (fun _ => (.indeterminate, [])) ++ [(r, rest)], s') := by
  induction chunks generalizing s with
  | nil =>
      rw [List.flatten_nil, List.nil_append] at h
      have hcall := parse_append_of_definite h hr rest
      simp [parseCalls, hcall]
  | cons c cs ih =>
      rw [List.flatten_cons, List.append_assoc] at h
      have hne : cs.flatten ++ last ≠ [] := by simp [hlast]
      obtain ⟨s₁, hc, hcs⟩ := parse_prefix_indeterminate h hne
      simp [parseCalls, hc, ih hcs]

/-! ## Invariants -/

/-- What every step preserves, a whole call preserves. -/
theorem parse_invariant {P : σ → Prop} (hstep : ∀ s x, P s → P (consume s x).2)
    {s : σ} (hs : P s) (xs : List α) : P (parse consume s xs).2.1 := by
  induction xs generalizing s with
  | nil => simpa using hs
  | cons x xs ih =>
      have hx := hstep s x hs
      cases hc : consume s x with
      | mk r s₁ =>
          rw [hc] at hx
          by_cases hr : r = .indeterminate
          · subst hr
            rw [parse_cons_of_indeterminate hc]
            exact ih hx
          · rw [parse_cons_of_definite hc hr]
            exact hx

/-- An answer that no step gives, no call gives. -/
theorem parse_ne {r : Tribool} (hr : r ≠ .indeterminate) (hstep : ∀ s x, (consume s x).1 ≠ r)
    (s : σ) (xs : List α) : (parse consume s xs).1 ≠ r := by
  induction xs generalizing s with
  | nil => simpa using hr.symm
  | cons x xs ih =>
      have hx := hstep s x
      cases hc : consume s x with
      | mk r₁ s₁ =>
          rw [hc] at hx
          by_cases hr₁ : r₁ = .indeterminate
          · subst hr₁
            rw [parse_cons_of_indeterminate hc]
            exact ih s₁
          · rw [parse_cons_of_definite hc hr₁]
            exact hx

/-- States from which every step asks for more data and stays among them are
never left. -/
theorem parse_stuck {P : σ → Prop}
    (hstep : ∀ s x, P s → (consume s x).1 = .indeterminate ∧ P (consume s x).2)
    {s : σ} (hs : P s) (xs : List α) :
    ∃ s', parse consume s xs = (.indeterminate, s', []) ∧ P s' := by
  induction xs generalizing s with
  | nil => exact ⟨s, rfl, hs⟩
  | cons x xs ih =>
      obtain ⟨hr, hx⟩ := hstep s x hs
      have hc : consume s x = (.indeterminate, (consume s x).2) := Prod.ext hr rfl
      rw [parse_cons_of_indeterminate hc]
      exact ih hx

/-- What ties the state to the items read so far, as long as more is asked for. -/
theorem parse_indeterminate_invariant {P : σ → List α → Prop}
    (hstep : ∀ s before x s', P s before → consume s x = (.indeterminate, s') →
      P s' (before ++ [x]))
    {s s' : σ} {before xs rest : List α} (hs : P s before)
    (h : parse consume s xs = (.indeterminate, s', rest)) : P s' (before ++ xs) := by
  induction xs generalizing s before with
  | nil =>
      rw [parse_nil] at h
      obtain ⟨rfl, -⟩ := Prod.mk.inj (Prod.mk.inj h).2
      rwa [List.append_nil]
  | cons x xs ih =>
      cases hc : consume s x with
      | mk r s₁ =>
          by_cases hr : r = .indeterminate
          · subst hr
            rw [parse_cons_of_indeterminate hc] at h
            rw [← List.singleton_append, ← List.append_assoc]
            exact ih (hstep s before x s₁ hs hc) h
          · rw [parse_cons_of_definite hc hr] at h
            exact absurd (congrArg Prod.fst h) hr

/-- What grows by at most one in a step grows by at most the items read in a call. -/
theorem parse_measure_le {f : σ → Nat} (hstep : ∀ s x, f (consume s x).2 ≤ f s + 1)
    (s : σ) (xs : List α) :
    f (parse consume s xs).2.1 + (parse consume s xs).2.2.length ≤ f s + xs.length := by
  induction xs generalizing s with
  | nil => simp
  | cons x xs ih =>
      have hx := hstep s x
      cases hc : consume s x with
      | mk r s₁ =>
          rw [hc] at hx
          replace hx : f s₁ ≤ f s + 1 := hx
          rw [List.length_cons]
          by_cases hr : r = .indeterminate
          · subst hr
            rw [parse_cons_of_indeterminate hc]
            have hrest := ih s₁
            omega
          · rw [parse_cons_of_definite hc hr]
            show f s₁ + xs.length ≤ _
            omega

/-- A machine that only notes what it reads, as long as it is of one kind. -/
theorem parse_while {P : α → Prop} (f : List α → σ)
    (hstep : ∀ xs x, P x → consume (f xs) x = (.indeterminate, f (xs ++ [x])))
    {xs : List α} (h : ∀ x ∈ xs, P x) (before rest : List α) :
    parse consume (f before) (xs ++ rest) = parse consume (f (before ++ xs)) rest := by
  induction xs generalizing before with
  | nil => rw [List.nil_append, List.append_nil]
  | cons x xs ih =>
      obtain ⟨hx, hxs⟩ := List.forall_mem_cons.mp h
      rw [List.cons_append, parse_cons_of_indeterminate (hstep before x hx), ih hxs,
        List.append_assoc, List.singleton_append]

/-! ## Steps -/

/-- The steps of a call: the states in which it takes its items. -/
def steps (consume : σ → α → Tribool × σ) : σ → List α → List (σ × α)
  | _, [] => []
  | s, x :: xs =>
      (s, x) ::
        match consume s x with
        | (.indeterminate, s') => steps consume s' xs
        | _ => []

/-- The steps of successive calls on one machine, whatever they answer. -/
def stepsOfCalls (consume : σ → α → Tribool × σ) : σ → List (List α) → List (σ × α)
  | _, [] => []
  | s, c :: cs => steps consume s c ++ stepsOfCalls consume (parse consume s c).2.1 cs

/-- Successive calls up to the first definite answer, with all steps made. -/
def feed (consume : σ → α → Tribool × σ) :
    σ → List (List α) → Tribool × σ × List (σ × α)
  | s, [] => (.indeterminate, s, [])
  | s, c :: cs =>
      match parse consume s c with
      | (.indeterminate, s', _) =>
          let (r, s'', more) := feed consume s' cs
          (r, s'', steps consume s c ++ more)
      | (r, s', _) => (r, s', steps consume s c)

/-- A step of a call is made where all before it asked for more data. -/
theorem mem_steps_iff {s s' : σ} {x : α} {xs : List α} :
    (s', x) ∈ steps consume s xs ↔
      ∃ before after, xs = before ++ x :: after ∧
        parse consume s before = (.indeterminate, s', []) := by
  induction xs generalizing s with
  | nil => simp [steps]
  | cons y ys ih =>
      rw [steps, List.mem_cons]
      constructor
      · rintro (heq | hmem)
        · obtain ⟨rfl, rfl⟩ := Prod.mk.inj heq
          exact ⟨[], ys, rfl, rfl⟩
        · cases hc : consume s y with
          | mk r s₁ =>
              cases r with
              | indeterminate =>
                  rw [hc] at hmem
                  obtain ⟨before, after, rfl, hparse⟩ := ih.mp hmem
                  exact ⟨y :: before, after, rfl, by rw [parse_cons_of_indeterminate hc, hparse]⟩
              | true | false =>
                  rw [hc] at hmem
                  simp at hmem
      · rintro ⟨before, after, hxs, hparse⟩
        cases before with
        | nil =>
            obtain ⟨rfl, rfl⟩ := List.cons.inj hxs
            exact .inl (by rw [parse_nil] at hparse; simp_all)
        | cons z before =>
            obtain ⟨rfl, rfl⟩ := List.cons.inj hxs
            cases hc : consume s y with
            | mk r s₁ =>
                by_cases hr : r = .indeterminate
                · subst hr
                  rw [parse_cons_of_indeterminate hc] at hparse
                  exact .inr (ih.mpr ⟨before, after, rfl, hparse⟩)
                · rw [parse_cons_of_definite hc hr] at hparse
                  exact absurd (congrArg Prod.fst hparse) hr

/-- An invariant holds in every step of a call. -/
theorem steps_invariant {P : σ → Prop} (hstep : ∀ s x, P s → P (consume s x).2) {s : σ} (hs : P s)
    {xs : List α} {step : σ × α} (h : step ∈ steps consume s xs) : P step.1 := by
  obtain ⟨before, after, -, hparse⟩ := mem_steps_iff.mp h
  have hbefore := parse_invariant hstep hs before
  rwa [hparse] at hbefore

/-- What each input preserves holds before each step of every call. -/
theorem stepsOfCalls_invariant {P : σ → Prop} (hstep : ∀ s x, P s → P (consume s x).2) {s : σ}
    (hs : P s) {chunks : List (List α)} {step : σ × α}
    (h : step ∈ stepsOfCalls consume s chunks) : P step.1 := by
  induction chunks generalizing s with
  | nil => simp [stepsOfCalls] at h
  | cons c cs ih =>
      rcases List.mem_append.mp h with hc | hcs
      · exact steps_invariant hstep hs hc
      · exact ih (parse_invariant hstep hs c) hcs

/-- The steps of a parse that stays open go on in what comes behind. -/
theorem steps_append_of_indeterminate {s s' : σ} {xs rest : List α}
    (h : parse consume s xs = (.indeterminate, s', rest)) (ys : List α) :
    steps consume s (xs ++ ys) = steps consume s xs ++ steps consume s' ys := by
  induction xs generalizing s with
  | nil =>
      rw [parse_nil] at h
      obtain ⟨rfl, -⟩ := Prod.mk.inj (Prod.mk.inj h).2
      rfl
  | cons x xs ih =>
      cases hc : consume s x with
      | mk r s₁ =>
          by_cases hr : r = .indeterminate
          · subst hr
            rw [parse_cons_of_indeterminate hc] at h
            simp [steps, hc, ih h]
          · rw [parse_cons_of_definite hc hr] at h
            exact absurd (congrArg Prod.fst h) hr

/-- A parse that has ended takes no step in what comes behind. -/
theorem steps_append_of_definite {s s' : σ} {xs rest : List α} {r : Tribool}
    (h : parse consume s xs = (r, s', rest)) (hr : r ≠ .indeterminate) (ys : List α) :
    steps consume s (xs ++ ys) = steps consume s xs := by
  induction xs generalizing s with
  | nil =>
      rw [parse_nil] at h
      exact absurd (congrArg Prod.fst h).symm hr
  | cons x xs ih =>
      cases hc : consume s x with
      | mk r₁ s₁ =>
          cases r₁ with
          | indeterminate =>
              rw [parse_cons_of_indeterminate hc] at h
              simp [steps, hc, ih h]
          | true | false => simp [steps, hc]

/-- **A stream is read the same way however it is cut**: the answer, the state and the steps
are those of one call. -/
theorem feed_eq (s : σ) (chunks : List (List α)) :
    feed consume s chunks =
      ((parse consume s chunks.flatten).1, (parse consume s chunks.flatten).2.1,
        steps consume s chunks.flatten) := by
  induction chunks generalizing s with
  | nil => rfl
  | cons c cs ih =>
      rw [List.flatten_cons]
      cases hc : parse consume s c with
      | mk r p =>
          obtain ⟨s', rest⟩ := p
          by_cases hr : r = .indeterminate
          · subst hr
            rw [parse_append_of_indeterminate hc, steps_append_of_indeterminate hc, feed, hc]
            simp only [ih s']
          · rw [parse_append_of_definite hc hr, steps_append_of_definite hc hr, feed, hc]
            cases r <;> simp_all

end Incremental

import Splice.Lib.Incremental

/-!
# Splice.Lib.Recognizer

When an incremental machine accepts exactly a language.

`lang s w r` says that `w` is what the machine still has to read in state `s`, and that
`r` comes of it.  A machine `Recognizes` such a family of languages if each of its steps
takes the head off the words of its state, if no word is empty and if every state has a
word left.  The answers of a whole call follow: it is *true* right behind a word
(`accepts_iff`), *false* at the first item with which no word begins (`rejects_iff`) and
*indeterminate* on what some longer word begins with (`asks_iff`).

`one` and `upto` are the languages of lexical classes: an item of a class, and items of a
class up to one that ends them.
-/

namespace Incremental

variable {σ α β : Type} {consume : σ → α → Tribool × σ} {result : σ → β}
  {lang : σ → List α → β → Prop}

/-- What is to be read behind an answer of `consume`. -/
def left (result : σ → β) (lang : σ → List α → β → Prop) :
    Tribool × σ → List α → β → Prop
  | (.indeterminate, s), w, r => lang s w r
  | (.true, s), w, r => w = [] ∧ r = result s
  | (.false, _), _, _ => False

/-- `consume` reads the words of `lang` and leaves their value in `result`. -/
structure Recognizes (consume : σ → α → Tribool × σ) (result : σ → β)
    (lang : σ → List α → β → Prop) : Prop where
  not_nil : ∀ s r, ¬ lang s [] r
  completable : ∀ s, ∃ w r, lang s w r
  step : ∀ s x w r, lang s (x :: w) r ↔ left result lang (consume s x) w r

/-- Some word begins with `p`. -/
def Viable (lang : σ → List α → β → Prop) (s : σ) (p : List α) : Prop :=
  ∃ t r, lang s (p ++ t) r

namespace Recognizes

/-- An input that leaves the answer open is one of the texts that go on from there. -/
theorem lang_cons_of_indeterminate (h : Recognizes consume result lang) {s s' : σ} {x : α}
    (hx : consume s x = (.indeterminate, s')) (w : List α) (r : β) :
    lang s (x :: w) r ↔ lang s' w r := by
  simp [h.step, hx, left]

/-- An input that accepts is the end of its text. -/
theorem lang_cons_of_true (h : Recognizes consume result lang) {s s' : σ} {x : α}
    (hx : consume s x = (.true, s')) (w : List α) (r : β) :
    lang s (x :: w) r ↔ w = [] ∧ r = result s' := by
  simp [h.step, hx, left]

theorem not_lang_cons_of_false (h : Recognizes consume result lang) {s s' : σ} {x : α}
    (hx : consume s x = (.false, s')) (w : List α) (r : β) : ¬ lang s (x :: w) r := by
  simp [h.step, hx, left]

/-! ## Words -/

/-- **Acceptance**: a call is true right behind a word, with the value of the word. -/
theorem accepts_iff (h : Recognizes consume result lang) {s : σ} {w rest : List α} {r : β} :
    (∃ s', parse consume s w = (.true, s', rest) ∧ result s' = r) ↔
      ∃ p, lang s p r ∧ w = p ++ rest := by
  induction w generalizing s with
  | nil =>
      constructor
      · rintro ⟨s', hs', -⟩
        simp at hs'
      · rintro ⟨p, hp, hw⟩
        rw [(List.append_eq_nil_iff.mp hw.symm).1] at hp
        exact absurd hp (h.not_nil s r)
  | cons x w ih =>
      have hhead : (∃ p, lang s p r ∧ x :: w = p ++ rest) ↔
          ∃ p, lang s (x :: p) r ∧ w = p ++ rest := by
        constructor
        · rintro ⟨p, hp, hw⟩
          cases p with
          | nil => exact absurd hp (h.not_nil s r)
          | cons y p =>
              obtain ⟨rfl, rfl⟩ := List.cons.inj hw
              exact ⟨p, hp, rfl⟩
        · rintro ⟨p, hp, rfl⟩
          exact ⟨x :: p, hp, rfl⟩
      rw [hhead]
      cases hx : consume s x with
      | mk a s₁ =>
          cases a with
          | indeterminate =>
              simp only [parse_cons_of_indeterminate hx, h.lang_cons_of_indeterminate hx]
              exact ih
          | true =>
              rw [parse_cons_of_definite hx (by simp)]
              simp only [h.lang_cons_of_true hx]
              constructor
              · rintro ⟨s', hs', hr⟩
                obtain ⟨rfl, rfl⟩ : s₁ = s' ∧ w = rest := by simpa using hs'
                exact ⟨[], ⟨rfl, hr.symm⟩, rfl⟩
              · rintro ⟨p, ⟨rfl, rfl⟩, rfl⟩
                exact ⟨s₁, rfl, rfl⟩
          | false =>
              rw [parse_cons_of_definite hx (by simp)]
              simp [h.not_lang_cons_of_false hx]

/-- A text of the language is accepted, whatever is behind it. -/
theorem parse_of_lang (h : Recognizes consume result lang) {s : σ} {p : List α} {r : β}
    (hp : lang s p r) (rest : List α) :
    ∃ s', parse consume s (p ++ rest) = (.true, s', rest) ∧ result s' = r :=
  h.accepts_iff.mpr ⟨p, hp, rfl⟩

/-! ## Beginnings of words -/

theorem viable_nil (h : Recognizes consume result lang) (s : σ) : Viable lang s [] :=
  h.completable s

/-- What stands in front of the point where a word ends is no word again. -/
theorem not_viable_of_accepted (h : Recognizes consume result lang) {s s' : σ} {w rest : List α}
    (hw : parse consume s w = (.true, s', rest)) (hrest : rest ≠ []) : ¬ Viable lang s w := by
  rintro ⟨t, r, ht⟩
  obtain ⟨s₁, hs₁, -⟩ := h.parse_of_lang ht []
  rw [List.append_nil, parse_append_of_definite hw (by simp)] at hs₁
  have hnil : rest ++ t = [] := congrArg (fun p => p.2.2) hs₁
  exact hrest (List.append_eq_nil_iff.mp hnil).1

/-- What is viable behind an open answer is so in front of it. -/
theorem viable_cons_of_indeterminate (h : Recognizes consume result lang) {s s' : σ} {x : α}
    (hx : consume s x = (.indeterminate, s')) (p : List α) :
    Viable lang s (x :: p) ↔ Viable lang s' p := by
  simp [Viable, h.lang_cons_of_indeterminate hx]

theorem viable_cons_of_true (h : Recognizes consume result lang) {s s' : σ} {x : α}
    (hx : consume s x = (.true, s')) (p : List α) : Viable lang s (x :: p) ↔ p = [] := by
  simp [Viable, h.lang_cons_of_true hx]

theorem not_viable_cons_of_false (h : Recognizes consume result lang) {s s' : σ} {x : α}
    (hx : consume s x = (.false, s')) (p : List α) : ¬ Viable lang s (x :: p) := by
  simp [Viable, h.not_lang_cons_of_false hx]

/-- An item of a list is its first or one of the others. -/
theorem exists_item_cons {x : α} {w rest : List α} {Q : List α → α → Prop} :
    (∃ p y, x :: w = p ++ y :: rest ∧ Q p y) ↔
      (w = rest ∧ Q [] x) ∨ ∃ p y, w = p ++ y :: rest ∧ Q (x :: p) y := by
  constructor
  · rintro ⟨p, y, hw, hQ⟩
    cases p with
    | nil =>
        obtain ⟨rfl, rfl⟩ := List.cons.inj hw
        exact Or.inl ⟨rfl, hQ⟩
    | cons z p =>
        obtain ⟨rfl, rfl⟩ := List.cons.inj hw
        exact Or.inr ⟨p, y, rfl, hQ⟩
  · rintro (⟨rfl, hQ⟩ | ⟨p, y, rfl, hQ⟩)
    · exact ⟨[], x, rfl, hQ⟩
    · exact ⟨x :: p, y, rfl, hQ⟩

/-- **Rejection**: a call is false right behind the first item with which no word begins,
unless a word ended before. -/
theorem rejects_iff (h : Recognizes consume result lang) {s : σ} {w rest : List α} :
    (∃ s', parse consume s w = (.false, s', rest)) ↔
      ∃ p x, w = p ++ x :: rest ∧ Viable lang s p ∧ (∀ r, ¬ lang s p r) ∧
        ¬ Viable lang s (p ++ [x]) := by
  induction w generalizing s with
  | nil => simp
  | cons x w ih =>
      rw [exists_item_cons]
      cases hx : consume s x with
      | mk a s₁ =>
          cases a with
          | indeterminate =>
              rw [parse_cons_of_indeterminate hx, ih]
              simp [h.viable_cons_of_indeterminate hx, h.lang_cons_of_indeterminate hx,
                h.viable_nil]
          | true =>
              rw [parse_cons_of_definite hx (by simp)]
              simp [h.viable_cons_of_true hx, h.lang_cons_of_true hx]
          | false =>
              rw [parse_cons_of_definite hx (by simp)]
              simp [h.not_viable_cons_of_false hx, h.viable_nil, h.not_nil]

/-- **Asking for more**: a call is indeterminate on what a longer word begins with. -/
theorem asks_iff (h : Recognizes consume result lang) {s : σ} {w : List α} :
    (∃ s', parse consume s w = (.indeterminate, s', [])) ↔
      Viable lang s w ∧ ∀ r, ¬ lang s w r := by
  constructor
  · rintro ⟨s', hs'⟩
    constructor
    · obtain ⟨t, r, ht⟩ := h.completable s'
      obtain ⟨s₁, hs₁, hr⟩ := h.parse_of_lang ht []
      rw [List.append_nil, ← parse_append_of_indeterminate hs'] at hs₁
      obtain ⟨p, hp, hw⟩ := h.accepts_iff.mp ⟨s₁, hs₁, hr⟩
      rw [List.append_nil] at hw
      exact ⟨t, r, hw ▸ hp⟩
    · intro r hw
      obtain ⟨s₁, hs₁, -⟩ := h.parse_of_lang hw []
      rw [List.append_nil, hs'] at hs₁
      simp at hs₁
  · rintro ⟨hviable, hnot⟩
    cases hw : parse consume s w with
    | mk a q =>
        obtain ⟨s', rest⟩ := q
        cases a with
        | indeterminate =>
            rw [rest_eq_nil_of_indeterminate hw]
            exact ⟨s', rfl⟩
        | true =>
            by_cases hrest : rest = []
            · subst hrest
              obtain ⟨p, hp, hw⟩ := h.accepts_iff.mp ⟨s', hw, rfl⟩
              rw [List.append_nil] at hw
              exact absurd (hw ▸ hp) (hnot _)
            · exact absurd hviable (h.not_viable_of_accepted hw hrest)
        | false =>
            obtain ⟨p, x, rfl, -, -, hstop⟩ := h.rejects_iff.mp ⟨s', hw⟩
            obtain ⟨t, r, ht⟩ := hviable
            exact absurd ⟨rest ++ t, r, by simpa using ht⟩ hstop

end Recognizes

/-! ## Lexical classes -/

variable {p : α → Bool} {stop x : α} {J : α → List α → β → Prop}
  {K : List α → List α → β → Prop} {w : List α} {r : β}

/-- An item that satisfies `p`, then what `J` says comes after it. -/
def one (p : α → Bool) (J : α → List α → β → Prop) (w : List α) (r : β) : Prop :=
  ∃ x w', p x ∧ w = x :: w' ∧ J x w' r

@[simp] theorem not_one_nil : ¬ one p J [] r := by
  rintro ⟨x, w', -, hw, -⟩
  simp at hw

@[simp] theorem one_cons : one p J (x :: w) r ↔ p x ∧ J x w r := by
  constructor
  · rintro ⟨y, w', hp, hw, hJ⟩
    obtain ⟨rfl, rfl⟩ := List.cons.inj hw
    exact ⟨hp, hJ⟩
  · rintro ⟨hp, hJ⟩
    exact ⟨x, w, hp, rfl, hJ⟩

theorem exists_one (hx : p x) (h : ∃ w r, J x w r) : ∃ w r, one p J w r := by
  obtain ⟨w, r, hJ⟩ := h
  exact ⟨x :: w, r, one_cons.mpr ⟨hx, hJ⟩⟩

/-- Items that satisfy `p`, then `stop`, then what `K` says comes after them. -/
def upto (p : α → Bool) (stop : α) (K : List α → List α → β → Prop) (w : List α) (r : β) : Prop :=
  ∃ xs w', (∀ x ∈ xs, p x) ∧ w = xs ++ stop :: w' ∧ K xs w' r

@[simp] theorem not_upto_nil : ¬ upto p stop K [] r := by
  rintro ⟨xs, w', -, hw, -⟩
  simp at hw

/-- A run of inputs ends at the stop, or goes on with one more of them. -/
theorem upto_cons [DecidableEq α] (hstop : p stop = false) :
    upto p stop K (x :: w) r ↔
      if x = stop then K [] w r else p x ∧ upto p stop (fun xs => K (x :: xs)) w r := by
  constructor
  · rintro ⟨xs, w', hxs, hw, hK⟩
    cases xs with
    | nil =>
        obtain ⟨rfl, rfl⟩ := List.cons.inj hw
        simpa using hK
    | cons y xs =>
        obtain ⟨rfl, rfl⟩ := List.cons.inj hw
        obtain ⟨hp, hxs⟩ := List.forall_mem_cons.mp hxs
        have hx : x ≠ stop := fun h => by simp [h, hstop] at hp
        rw [if_neg hx]
        exact ⟨hp, xs, w', hxs, rfl, hK⟩
  · intro h
    split at h
    · next hx => exact ⟨[], w, by simp, by simp [hx], h⟩
    · obtain ⟨hp, xs, w', hxs, rfl, hK⟩ := h
      exact ⟨x :: xs, w', List.forall_mem_cons.mpr ⟨hp, hxs⟩, rfl, hK⟩

/-- An empty run and a text of the rest are a text. -/
theorem exists_upto (h : ∃ w r, K [] w r) : ∃ w r, upto p stop K w r := by
  obtain ⟨w, r, hK⟩ := h
  exact ⟨stop :: w, r, [], w, by simp, rfl, hK⟩

end Incremental

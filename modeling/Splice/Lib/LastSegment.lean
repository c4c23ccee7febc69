import Mathlib.Data.List.DropRight

/-!
# Splice.Lib.LastSegment

Backward searches.  `List.rtakeWhile` is the longest suffix whose items all have some
property; with the property of not being a separator it is the last segment of a list, and
`extension` is what follows the last dot of that segment.

What a user of the module gets is how both behave when something is put behind a list: a
separator in it decides alone, and without one it is only appended.
-/

namespace LastSegment

variable {α : Type} {p : α → Bool}

/-! ## The longest suffix -/

/-- A tail that holds everywhere is taken whole, and what is in front of it goes on. -/
theorem rtakeWhile_append_of_forall (xs : List α) {ys : List α} (h : ∀ y ∈ ys, p y) :
    (xs ++ ys).rtakeWhile p = xs.rtakeWhile p ++ ys := by
  have hreverse : ∀ y ∈ ys.reverse, p y := by simpa using h
  simp [List.rtakeWhile, List.takeWhile_append_of_pos hreverse]

/-- A tail that holds not everywhere is where the taking stops. -/
theorem rtakeWhile_append_of_exists (xs : List α) {ys : List α} (h : ∃ y ∈ ys, ¬ p y) :
    (xs ++ ys).rtakeWhile p = ys.rtakeWhile p := by
  obtain ⟨y, hy, hp⟩ := h
  have hlen : (ys.reverse.takeWhile p).length ≠ ys.reverse.length := by
    intro hlen
    have hall := List.takeWhile_eq_self_iff.mp ((List.takeWhile_prefix p).eq_of_length hlen)
    exact hp (hall y (List.mem_reverse.mpr hy))
  simp only [List.rtakeWhile, List.reverse_append, List.takeWhile_append, hlen, if_false]

/-- It is the longest one. -/
theorem suffix_rtakeWhile_iff {s xs : List α} :
    s <:+ xs.rtakeWhile p ↔ s <:+ xs ∧ ∀ x ∈ s, p x := by
  constructor
  · intro h
    exact ⟨h.trans (List.rtakeWhile_suffix p xs), fun x hx => List.mem_rtakeWhile_imp (h.mem hx)⟩
  · rintro ⟨⟨before, rfl⟩, hs⟩
    rw [rtakeWhile_append_of_forall before hs]
    exact List.suffix_append _ _

/-- What stands before it ends with an item that has not the property. -/
theorem exists_append_rtakeWhile {xs : List α} (h : ∃ x ∈ xs, ¬ p x) :
    ∃ before x, xs = before ++ x :: xs.rtakeWhile p ∧ ¬ p x := by
  induction xs using List.reverseRecOn with
  | nil => simp at h
  | append_singleton xs x ih =>
      by_cases hx : p x
      · obtain ⟨y, hy, hp⟩ := h
        have hmem : y ∈ xs := by
          rcases List.mem_append.mp hy with hy | hy
          · exact hy
          · exact absurd (List.mem_singleton.mp hy ▸ hx) hp
        obtain ⟨before, z, heq, hz⟩ := ih ⟨y, hmem, hp⟩
        refine ⟨before, z, ?_, hz⟩
        rw [List.rtakeWhile_concat_pos p xs x hx, ← List.cons_append, ← List.append_assoc, ← heq]
      · exact ⟨xs, x, by rw [List.rtakeWhile_concat_neg p xs x hx], hx⟩

/-! ## Segments -/

variable [DecidableEq α] {sep dot : α} {xs ys : List α}

/-- What follows the last separator; all of a list without one. -/
def lastSegment (sep : α) (xs : List α) : List α := xs.rtakeWhile (· ≠ sep)

/-- What follows the last dot of the last segment; nothing if that has none. -/
def extension (sep dot : α) (xs : List α) : List α :=
  if dot ∈ lastSegment sep xs then lastSegment dot (lastSegment sep xs) else []

theorem lastSegment_append_of_mem (xs : List α) (h : sep ∈ ys) :
    lastSegment sep (xs ++ ys) = lastSegment sep ys :=
  rtakeWhile_append_of_exists xs ⟨sep, h, by simp⟩

theorem lastSegment_append_of_notMem (xs : List α) (h : sep ∉ ys) :
    lastSegment sep (xs ++ ys) = lastSegment sep xs ++ ys :=
  rtakeWhile_append_of_forall xs fun y hy => by simpa using ne_of_mem_of_not_mem hy h

theorem lastSegment_of_notMem (h : sep ∉ xs) : lastSegment sep xs = xs :=
  List.rtakeWhile_eq_self_iff.mpr fun x hx => by simpa using ne_of_mem_of_not_mem hx h

theorem notMem_lastSegment (sep : α) (xs : List α) : sep ∉ lastSegment sep xs := by
  intro h
  simpa using List.mem_rtakeWhile_imp h

/-- The last segment stands behind a separator, if there is one. -/
theorem exists_append_lastSegment (h : sep ∈ xs) :
    ∃ before, xs = before ++ sep :: lastSegment sep xs := by
  obtain ⟨before, x, heq, hx⟩ := exists_append_rtakeWhile (p := (· ≠ sep)) ⟨sep, h, by simp⟩
  obtain rfl : x = sep := by simpa using hx
  exact ⟨before, heq⟩

/-! ## Extensions -/

/-- A separator or a dot decides alone. -/
theorem extension_append_of_mem (xs : List α) (h : sep ∈ ys ∨ dot ∈ ys) :
    extension sep dot (xs ++ ys) = extension sep dot ys := by
  by_cases hsep : sep ∈ ys
  · simp only [extension, lastSegment_append_of_mem xs hsep]
  · have hdot : dot ∈ ys := h.resolve_left hsep
    simp [extension, lastSegment_append_of_notMem xs hsep, lastSegment_of_notMem hsep, hdot,
      lastSegment_append_of_mem _ hdot]

/-- What has neither goes to the extension, if there is one. -/
theorem extension_append_of_notMem (xs : List α) (hsep : sep ∉ ys) (hdot : dot ∉ ys) :
    extension sep dot (xs ++ ys) =
      if dot ∈ lastSegment sep xs then extension sep dot xs ++ ys else [] := by
  simp only [extension, lastSegment_append_of_notMem xs hsep, List.mem_append, hdot, or_false]
  split
  · exact lastSegment_append_of_notMem _ hdot
  · rfl

end LastSegment

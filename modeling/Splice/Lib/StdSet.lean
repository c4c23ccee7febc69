import Mathlib.Data.List.Sort

/-!
# Splice.Lib.StdSet

Ordered sets, as the lists that an iteration over them gives: strictly increasing.
-/

/-- A `std::set`, in the order of its iterators. -/
structure StdSet (ι : Type) [LinearOrder ι] where
  toList : List ι
  increasing : toList.Pairwise (· < ·)

namespace StdSet

variable {ι : Type} [LinearOrder ι] {set : StdSet ι} {s t : ι}

instance : Membership ι (StdSet ι) := ⟨fun set s => s ∈ set.toList⟩

instance (s : ι) (set : StdSet ι) : Decidable (s ∈ set) :=
  inferInstanceAs (Decidable (s ∈ set.toList))

/-- The set without elements. -/
def empty : StdSet ι := ⟨[], List.Pairwise.nil⟩

theorem not_mem_empty : s ∉ (empty : StdSet ι) := List.not_mem_nil

theorem nodup (set : StdSet ι) : set.toList.Nodup := set.increasing.imp ne_of_lt

/-- A new element is put where the order stays. -/
theorem increasing_orderedInsert {elems : List ι} (h : elems.Pairwise (· < ·)) (hs : s ∉ elems) :
    (elems.orderedInsert (· ≤ ·) s).Pairwise (· < ·) := by
  have hle : (elems.orderedInsert (· ≤ ·) s).Pairwise (· ≤ ·) :=
    (h.imp le_of_lt).orderedInsert s elems
  have hne : (elems.orderedInsert (· ≤ ·) s).Nodup :=
    (List.perm_orderedInsert _ s elems).nodup_iff.mpr (List.nodup_cons.mpr ⟨hs, h.imp ne_of_lt⟩)
  exact (hle.and hne).imp fun ⟨hle, hne⟩ => lt_of_le_of_ne hle hne

/-- `insert`: nothing if the element is there. -/
def insert (set : StdSet ι) (s : ι) : StdSet ι :=
  if h : s ∈ set.toList then set
  else ⟨set.toList.orderedInsert (· ≤ ·) s, increasing_orderedInsert set.increasing h⟩

/-- `erase` of an element that may not be there. -/
def erase (set : StdSet ι) (s : ι) : StdSet ι :=
  ⟨set.toList.erase s, set.increasing.sublist List.erase_sublist⟩

/-- An insertion adds its element. -/
@[simp] theorem mem_insert : t ∈ set.insert s ↔ t = s ∨ t ∈ set := by
  unfold insert
  split
  · next h =>
      constructor
      · exact .inr
      · rintro (rfl | ht)
        · exact h
        · exact ht
  · exact List.mem_orderedInsert _

@[simp] theorem mem_erase : t ∈ set.erase s ↔ t ≠ s ∧ t ∈ set := set.nodup.mem_erase_iff

/-- An element less. -/
theorem length_erase (h : s ∈ set) :
    (set.erase s).toList.length + 1 = set.toList.length := by
  have hpos : 0 < set.toList.length := List.length_pos_of_mem h
  have hlen : (set.erase s).toList.length = set.toList.length - 1 := List.length_erase_of_mem h
  omega

end StdSet

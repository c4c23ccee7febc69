import Mathlib.Data.List.Infix

/-!
# Splice.Lib.PathWalk

How a file system resolves a name without links: component by component, from some
directory.  A directory is the list of names that lead to it from the root.

`Confined` says of a name that the walk along it, once it has come to the directory that
the name begins with, never leaves it; `confined_of_not_mem` that it is enough to have no
component that goes up.
-/

namespace PathWalk

variable {α : Type} {sep dot : α} {text pattern root more : List α} {dir : List (List α)}
  {names : List (List α)}

/-- What is in a name is in the path made of the names. -/
theorem infix_intercalate (hmem : pattern ∈ names) : pattern <:+: text.intercalate names := by
  induction names with
  | nil => simp at hmem
  | cons name names ih =>
      cases names with
      | nil =>
          obtain rfl := List.mem_singleton.mp hmem
          simp
      | cons next names =>
          rw [List.intercalate_cons_cons]
          rcases List.mem_cons.mp hmem with rfl | hmem
          · exact ⟨[], text ++ text.intercalate (next :: names), by simp⟩
          · exact (ih hmem).trans (List.suffix_append _ _).isInfix

/-- What has no separator in it is found on one side of a separator. -/
theorem infix_append_sep (hsep : sep ∉ pattern) (h : pattern <:+: root ++ sep :: more) :
    pattern <:+: root ∨ pattern <:+: more := by
  obtain ⟨before, behind, heq⟩ := h
  rcases List.append_eq_append_iff.mp heq with ⟨as, rfl, -⟩ | ⟨bs, hbs, hmore⟩
  · exact Or.inl ⟨before, as, rfl⟩
  · cases bs with
    | nil => exact Or.inl ⟨before, [], by simpa using hbs⟩
    | cons b bs =>
        obtain ⟨rfl, rfl⟩ := List.cons.inj hmore
        rcases List.append_eq_append_iff.mp hbs with ⟨cs, -, rfl⟩ | ⟨cs, -, hcs⟩
        · exact absurd (by simp) hsep
        · cases cs with
          | nil =>
              have hpattern : pattern = sep :: bs := by simpa using hcs.symm
              simp [hpattern] at hsep
          | cons c cs =>
              obtain ⟨-, rfl⟩ := List.cons.inj hcs
              exact Or.inr ⟨cs, behind, rfl⟩

variable [DecidableEq α]

/-! ## Walks -/

/-- The components of a name. -/
def components (sep : α) (text : List α) : List (List α) := text.splitOn sep

/-- Follow one component. -/
def enter (dot : α) (dir : List (List α)) (name : List α) : List (List α) :=
  if name = [] ∨ name = [dot] then dir
  else if name = [dot, dot] then dir.dropLast
  else dir ++ [name]

/-- Follow some components. -/
def walk (dot : α) (dir : List (List α)) (names : List (List α)) : List (List α) :=
  names.foldl (enter dot) dir

/-- The walk along `name` stays below the directory that it comes to with `root`. -/
def Confined (sep dot : α) (root name : List α) : Prop :=
  components sep root <+: components sep name ∧
    ∀ dir way, components sep root <+: way → way <+: components sep name →
      walk dot dir (components sep root) <+: walk dot dir way

/-- No name but the one of the parent leads out of a directory. -/
theorem prefix_enter (h : text ≠ [dot, dot]) : dir <+: enter dot dir text := by
  by_cases hstay : text = [] ∨ text = [dot]
  · simp [enter, hstay]
  · simp [enter, hstay, h]

/-- Without a component that goes up, a walk stays below the place where it begins. -/
theorem prefix_walk (h : [dot, dot] ∉ names) : dir <+: walk dot dir names := by
  induction names generalizing dir with
  | nil => exact List.prefix_refl dir
  | cons name names ih =>
      obtain ⟨hname, hnames⟩ : [dot, dot] ≠ name ∧ [dot, dot] ∉ names := by simpa using h
      exact (prefix_enter hname.symm).trans (ih hnames)

theorem walk_append (names more : List (List α)) :
    walk dot dir (names ++ more) = walk dot (walk dot dir names) more :=
  List.foldl_append

@[simp] theorem components_append_sep :
    components sep (root ++ sep :: more) = components sep root ++ components sep more :=
  List.splitOn_append_cons_self root more

/-- **A path without the parent's name** leads to a place under its root. -/
theorem confined_of_not_mem (h : [dot, dot] ∉ components sep more) :
    Confined sep dot root (root ++ sep :: more) := by
  rw [Confined, components_append_sep]
  refine ⟨List.prefix_append _ _, ?_⟩
  rintro dir way ⟨past, rfl⟩ hway
  have hpast : past <+: components sep more := (List.prefix_append_right_inj _).mp hway
  rw [walk_append]
  exact prefix_walk fun hmem => h (hpast.subset hmem)

theorem infix_of_mem_components (h : pattern ∈ components sep text) : pattern <:+: text := by
  have hinfix : pattern <:+: [sep].intercalate (components sep text) := infix_intercalate h
  rwa [components, List.intercalate_splitOn] at hinfix

end PathWalk

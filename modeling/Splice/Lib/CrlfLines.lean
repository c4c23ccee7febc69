import Splice.Lib.StreamReader

/-!
# Splice.Lib.CrlfLines

Texts as lines, each ended by a carriage return and a line feed.  `split` is strict: a
carriage return or a line feed that stands alone, and a last line that is not ended, make
it fail.

`readHead` reads lines off a stream, up to the empty one; what follows is not looked at.
-/

namespace CrlfLines

/-- A line holds no carriage return and no line feed. -/
def IsLine (line : List UInt8) : Prop := ∀ b ∈ line, b ≠ 13 ∧ b ≠ 10

instance (line : List UInt8) : Decidable (IsLine line) := List.decidableBAll _ line

/-- Lines, each with its end. -/
def join (lines : List (List UInt8)) : List UInt8 := lines.flatMap fun line => line ++ [13, 10]

/-- The lines of a text. -/
def split : List UInt8 → Option (List (List UInt8))
  | [] => some []
  | 13 :: 10 :: rest => (split rest).map ([] :: ·)
  | b :: rest =>
      if b = 13 ∨ b = 10 then none
      else
        match split rest with
        | some (line :: lines) => some ((b :: line) :: lines)
        | some [] | none => none

theorem isLine_cons {b : UInt8} {line : List UInt8} :
    IsLine (b :: line) ↔ (b ≠ 13 ∧ b ≠ 10) ∧ IsLine line := List.forall_mem_cons

theorem isLine_append {line more : List UInt8} :
    IsLine (line ++ more) ↔ IsLine line ∧ IsLine more := List.forall_mem_append

/-- A byte of a line belongs to the first line of what is split. -/
theorem split_cons {b : UInt8} (h : b ≠ 13 ∧ b ≠ 10) (rest : List UInt8) :
    split (b :: rest) =
      match split rest with
      | some (line :: lines) => some ((b :: line) :: lines)
      | some [] | none => none := by
  rw [split, if_neg (by simp [h])]
  rintro more hb
  exact absurd hb h.1

/-- The first line comes off. -/
theorem split_line {line : List UInt8} (h : IsLine line) (rest : List UInt8) :
    split (line ++ 13 :: 10 :: rest) = (split rest).map (line :: ·) := by
  induction line with
  | nil => rfl
  | cons b line ih =>
      obtain ⟨hb, hline⟩ := isLine_cons.mp h
      rw [List.cons_append, split_cons hb, ih hline]
      cases split rest with
      | none => rfl
      | some lines => rfl

/-- The first line begins as the text does. -/
theorem exists_line_of_split {b : UInt8} (h : b ≠ 13 ∧ b ≠ 10) {rest : List UInt8}
    {lines : List (List UInt8)} (hsplit : split (b :: rest) = some lines) :
    ∃ line more, lines = (b :: line) :: more := by
  rw [split_cons h] at hsplit
  split at hsplit
  · next line more _ => exact ⟨line, more, (Option.some.inj hsplit).symm⟩
  · cases hsplit
  · cases hsplit

/-- **Lines are read back** from their text. -/
theorem split_join {lines : List (List UInt8)} (h : ∀ line ∈ lines, IsLine line) :
    split (join lines) = some lines := by
  induction lines with
  | nil => rfl
  | cons line lines ih =>
      obtain ⟨hline, hlines⟩ := List.forall_mem_cons.mp h
      have hjoin : join (line :: lines) = line ++ 13 :: 10 :: join lines := by simp [join]
      rw [hjoin, split_line hline, ih hlines, Option.map_some]

/-! ## Lines of a stream -/

open StreamReader (Reader Reads Stable)

/-- The lines up to the empty one, behind the beginning of the first. -/
def readLines (line : List UInt8) : Reader UInt8 (List (List UInt8))
  | [] => none
  | 13 :: 10 :: rest =>
      if line = [] then some ([], rest)
      else (readLines [] rest).map fun (lines, rest) => (line :: lines, rest)
  | b :: rest => if b = 13 ∨ b = 10 then none else readLines (line ++ [b]) rest

/-- The lines up to the empty one. -/
def readHead : Reader UInt8 (List (List UInt8)) := readLines []

/-- The reader keeps a byte of a line. -/
theorem readLines_cons {b : UInt8} (h : b ≠ 13 ∧ b ≠ 10) (line rest : List UInt8) :
    readLines line (b :: rest) = readLines (line ++ [b]) rest := by
  rw [readLines, if_neg (by simp [h])]
  rintro more hb
  exact absurd hb h.1

/-- The reader keeps the bytes of a line. -/
theorem readLines_append {more : List UInt8} (h : IsLine more) (line rest : List UInt8) :
    readLines line (more ++ rest) = readLines (line ++ more) rest := by
  induction more generalizing line with
  | nil => rw [List.nil_append, List.append_nil]
  | cons b more ih =>
      obtain ⟨hb, hmore⟩ := isLine_cons.mp h
      rw [List.cons_append, readLines_cons hb, ih hmore, List.append_assoc, List.singleton_append]

/-- **A head is read back**, whatever follows its empty line. -/
theorem reads_head {lines : List (List UInt8)} (h : ∀ line ∈ lines, line ≠ [] ∧ IsLine line) :
    Reads readHead lines (join (lines ++ [[]])) := by
  intro rest
  induction lines with
  | nil => rfl
  | cons line lines ih =>
      obtain ⟨⟨hne, hline⟩, hlines⟩ := List.forall_mem_cons.mp h
      have hjoin : join (line :: lines ++ [[]]) ++ rest =
          line ++ 13 :: 10 :: (join (lines ++ [[]]) ++ rest) := by simp [join]
      rw [hjoin, readHead, readLines_append hline, List.nil_append, readLines, if_neg hne]
      rw [readHead] at ih
      rw [ih hlines, Option.map_some]

/-- More bytes behind the lines do not change what is read of them. -/
theorem stable_readLines (line : List UInt8) : Stable (readLines line) := by
  intro text lines rest h more
  induction line, text using readLines.induct generalizing lines rest with
  | case1 line => cases h
  | case2 text =>
      rw [readLines, if_pos rfl] at h
      obtain ⟨rfl, rfl⟩ := Prod.mk.inj (Option.some.inj h)
      rfl
  | case3 line text hne ih =>
      rw [readLines, if_neg hne] at h
      obtain ⟨⟨lines', rest'⟩, hread, heq⟩ := Option.map_eq_some_iff.mp h
      obtain ⟨rfl, rfl⟩ := Prod.mk.inj heq
      rw [List.cons_append, List.cons_append, readLines, if_neg hne, ih hread, Option.map_some]
  | case4 line b text hcrlf hb =>
      rw [readLines, if_pos hb] at h
      · cases h
      · exact hcrlf
  | case5 line b text hcrlf hb ih =>
      have hne : b ≠ 13 ∧ b ≠ 10 := not_or.mp hb
      rw [readLines_cons hne] at h
      rw [List.cons_append, readLines_cons hne, ih h]

theorem stable_readHead : Stable readHead := stable_readLines []

end CrlfLines

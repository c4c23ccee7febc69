import Splice.CommonTypes
import Splice.Lib.LastSegment
import Mathlib.Algebra.Group.Nat.Defs

/-!
# Splice.LogInterface

`log_interface::extract_file_name`, which takes the directories off a `__FILE__`.  It
searches backwards for a separator with an index of type `size_t`, and what it asks of the
index, `i>=0`, holds of all of them: only a separator ends the search.

What stands in memory around the path is not known, so the search is over a `Memory`.
-/

namespace Splice

open LastSegment

/-- A C string: its characters, and its length with the zero byte is a `size_t`. -/
structure CString where
  bytes : List UInt8
  zero_notMem : 0 ∉ bytes
  length_lt : bytes.length + 1 < 2 ^ 64

/-- What is read at `path[i]`. -/
structure CString.Memory (path : CString) where
  read : UInt64 → UInt8
  read_bytes : ∀ i (h : i < path.bytes.length), read (UInt64.ofNat i) = path.bytes[i]
  read_end : read (UInt64.ofNat path.bytes.length) = 0

theorem CString.toNat_ofNat (path : CString) {i : Nat} (h : i ≤ path.bytes.length) :
    (UInt64.ofNat i).toNat = i :=
  UInt64.toNat_ofNat_of_lt' (h.trans_lt (Nat.lt_of_succ_lt path.length_lt))

/-- A path with zero bytes around it. -/
def CString.alone (path : CString) : path.Memory where
  read i := path.bytes.getD i.toNat 0
  read_bytes i h := by
    rw [path.toNat_ofNat h.le]
    simp [h]
  read_end := by
    rw [path.toNat_ofNat (Nat.le_refl _)]
    simp

namespace LogInterface

/-- A character that ends a directory. -/
def isSeparator (c : UInt8) : Bool :=
  c == '\\'.toUInt8 || c == '/'.toUInt8 || c == ':'.toUInt8

/-- The indices that are read in the first steps of the loop, and the one it stops at; none
as long as it goes on. -/
def search (read : UInt64 → UInt8) : Nat → UInt64 → List UInt64 × Option UInt64
  | 0, _ => ([], none)
  | steps + 1, i =>
      if isSeparator (read i) then ([i], some i)
      else
        let (reads, stop) := search read steps (i - 1)
        (i :: reads, stop)

/-- `extract_file_name` in so many steps: the indices read, and the offset of the pointer
that is returned. -/
def extractFileName {path : CString} (memory : path.Memory) (steps : Nat) :
    List UInt64 × Option UInt64 :=
  let searched := search memory.read steps (UInt64.ofNat path.bytes.length - 1)
  (searched.1, searched.2.map (· + 1))

/-- The longest suffix without a separator. -/
def IsFileName (path name : List UInt8) : Prop :=
  ∀ suffix, suffix <:+ name ↔ suffix <:+ path ∧ ∀ c ∈ suffix, ¬ isSeparator c

/-- The search stops in as many steps as the path has characters, reads nothing else, and
the pointer returned is to the file name. -/
def ExtractsName {path : CString} (memory : path.Memory) : Prop :=
  (∀ i ∈ (extractFileName memory path.bytes.length).1, i.toNat < path.bytes.length) ∧
    ∃ offset, (extractFileName memory path.bytes.length).2 = some offset ∧
      IsFileName path.bytes (path.bytes.drop offset.toNat)

/-! ## The search -/

variable {path : CString} (memory : path.Memory)

/-- The characters behind the last separator. -/
def fileName (text : List UInt8) : List UInt8 := text.rtakeWhile fun c => !isSeparator c

/-- The last segment is the name of the file. -/
theorem isFileName_fileName (text : List UInt8) : IsFileName text (fileName text) := by
  intro suffix
  rw [fileName, suffix_rtakeWhile_iff]
  simp

theorem search_of_separator {read : UInt64 → UInt8} {steps : Nat} {i : UInt64}
    (h : isSeparator (read i)) : search read (steps + 1) i = ([i], some i) := by
  rw [search, if_pos h]

/-- The search goes back over any other character. -/
theorem search_of_other {read : UInt64 → UInt8} {steps : Nat} {i : UInt64}
    (h : ¬ isSeparator (read i)) :
    search read (steps + 1) i =
      (i :: (search read steps (i - 1)).1, (search read steps (i - 1)).2) := by
  rw [search, if_neg h]

/-- The search in a part of the path from its start on: it stops at the last separator of
the part, if it has one. -/
theorem search_prefix {part : List UInt8} (h : part <+: path.bytes) :
    (∀ i ∈ (search memory.read part.length (UInt64.ofNat part.length - 1)).1,
      i.toNat < part.length) ∧
    (search memory.read part.length (UInt64.ofNat part.length - 1)).2 =
      if part.any isSeparator then
        some (UInt64.ofNat (part.length - (fileName part).length) - 1)
      else none := by
  induction part using List.reverseRecOn with
  | nil => simp [search]
  | append_singleton part c ih =>
      obtain ⟨hreads, hstop⟩ := ih ((List.prefix_append part [c]).trans h)
      obtain ⟨rest, hpath⟩ := h
      have hlt : part.length < path.bytes.length := by
        rw [← hpath]
        simp
      have hread : memory.read (UInt64.ofNat part.length) = c := by
        rw [memory.read_bytes _ hlt]
        simp [← hpath]
      have hlast : UInt64.ofNat (part ++ [c]).length - 1 = UInt64.ofNat part.length := by
        rw [List.length_append, List.length_singleton, UInt64.ofNat_add]
        exact UInt64.add_sub_cancel _ _
      have hindex : (UInt64.ofNat part.length).toNat = part.length := path.toNat_ofNat hlt.le
      by_cases hc : isSeparator c
      · have hname : fileName (part ++ [c]) = [] := List.rtakeWhile_concat_neg _ _ _ (by simp [hc])
        rw [hname, List.length_nil, Nat.sub_zero, hlast, List.length_append, List.length_singleton,
          search_of_separator (by rwa [hread])]
        simp [hc, hindex]
      · have hname : fileName (part ++ [c]) = fileName part ++ [c] :=
          List.rtakeWhile_concat_pos _ _ _ (by simp [hc])
        rw [hlast, hname, List.length_append, List.length_append, List.length_singleton,
          search_of_other (by rwa [hread]), Nat.add_sub_add_right]
        simp only [hc, List.any_append, List.any_cons, List.any_nil, Bool.or_false]
        refine ⟨List.forall_mem_cons.mpr ⟨by omega, fun i hi => ?_⟩, hstop⟩
        have hfar := hreads i hi
        omega

/-- A search that has stopped reads no more. -/
theorem search_succ_of_stopped {read : UInt64 → UInt8} {steps : Nat} {i stop : UInt64}
    (h : (search read steps i).2 = some stop) :
    search read (steps + 1) i = search read steps i := by
  induction steps generalizing i with
  | zero => simp [search] at h
  | succ steps ih =>
      by_cases hi : isSeparator (read i)
      · rw [search_of_separator hi, search_of_separator hi]
      · rw [search_of_other hi] at h
        rw [search_of_other hi, search_of_other hi, ih h]

/-- A search that goes on reads what stands before. -/
theorem mem_search_succ_of_going {read : UInt64 → UInt8} {steps : Nat} {i : UInt64}
    (h : (search read steps i).2 = none) :
    i - UInt64.ofNat steps ∈ (search read (steps + 1) i).1 := by
  induction steps generalizing i with
  | zero =>
      rw [search]
      split <;> simp
  | succ steps ih =>
      by_cases hi : isSeparator (read i)
      · simp [search_of_separator hi] at h
      · rw [search_of_other hi] at h ⊢
        have hback : i - UInt64.ofNat (steps + 1) = i - 1 - UInt64.ofNat steps := by
          rw [UInt64.ofNat_add]
          grind
        rw [hback]
        exact List.mem_cons_of_mem _ (ih h)

/-! ## The file name -/

theorem drop_fileName (text : List UInt8) :
    text.drop (text.length - (fileName text).length) = fileName text :=
  (List.suffix_iff_eq_drop.mp (List.rtakeWhile_suffix _ text)).symm

/-- With a separator in the path the name is extracted. -/
theorem extractsName_of_separator (h : path.bytes.any isSeparator) : ExtractsName memory := by
  obtain ⟨hreads, hstop⟩ := search_prefix memory (List.prefix_refl path.bytes)
  rw [if_pos h] at hstop
  refine ⟨hreads, UInt64.ofNat (path.bytes.length - (fileName path.bytes).length), ?_, ?_⟩
  · simp only [extractFileName, hstop, Option.map_some, UInt64.sub_add_cancel]
  · rw [path.toNat_ofNat (Nat.sub_le _ _), drop_fileName]
    exact isFileName_fileName path.bytes

/-- Without a separator the search has left the string, and has not stopped. -/
theorem going_of_no_separator (h : ¬ path.bytes.any isSeparator) :
    (search memory.read path.bytes.length (UInt64.ofNat path.bytes.length - 1)).2 = none := by
  obtain ⟨-, hstop⟩ := search_prefix memory (List.prefix_refl path.bytes)
  rwa [if_neg h] at hstop

theorem not_extractsName (h : ¬ path.bytes.any isSeparator) : ¬ ExtractsName memory := by
  rintro ⟨-, offset, hoffset, -⟩
  simp [extractFileName, going_of_no_separator memory h] at hoffset

/-- **`extract_file_name`** stops inside the string exactly if the path has a separator; if
it has none, the step after its first character reads what stands before it. -/
theorem extractsName_iff (path : CString) (memory : path.Memory) :
    (ExtractsName memory ↔ ∃ c ∈ path.bytes, isSeparator c) ∧
      (-1 ∈ (extractFileName memory (path.bytes.length + 1)).1 ↔
        ∀ c ∈ path.bytes, ¬ isSeparator c) := by
  by_cases h : path.bytes.any isSeparator
  · have hname := extractsName_of_separator memory h
    have hany : ∃ c ∈ path.bytes, isSeparator c := List.any_eq_true.mp h
    refine ⟨iff_of_true hname hany, iff_of_false (fun hmem => ?_) (by simpa using hany)⟩
    obtain ⟨hreads, offset, hoffset, -⟩ := hname
    obtain ⟨stop, hstop, -⟩ := Option.map_eq_some_iff.mp hoffset
    simp only [extractFileName, search_succ_of_stopped hstop] at hmem
    have hbound := hreads _ hmem
    have hlength := path.length_lt
    have hlast : (-1 : UInt64).toNat = 2 ^ 64 - 1 := by decide
    omega
  · have hnone : ∀ c ∈ path.bytes, ¬ isSeparator c := by simpa using h
    refine ⟨iff_of_false (not_extractsName memory h) (by simpa using hnone),
      iff_of_true ?_ hnone⟩
    have hmem := mem_search_succ_of_going (going_of_no_separator memory h)
    have hlast : UInt64.ofNat path.bytes.length - 1 - UInt64.ofNat path.bytes.length = -1 := by
      grind
    rwa [hlast] at hmem

/-- The name of a file in the directory that a compiler is called in. -/
def srcCpp : CString := ⟨chars "src.cpp", by decide, by decide⟩

/-- Nothing in it ends the search. -/
theorem extractsName_counterexample : ¬ ExtractsName srcCpp.alone :=
  not_extractsName srcCpp.alone (by decide)

end LogInterface

end Splice

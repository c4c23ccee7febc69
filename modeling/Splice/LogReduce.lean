import Splice.RequestParser
import Splice.Lib.WhileLoop
import Mathlib.Data.List.Basic

/-!
# Splice.LogReduce

`log_interface::reduce`, which shows the client's bytes in a log line: a short buffer as it
is, and of a long one the first ten bytes and the last ten.

The loop over a long buffer ends when its iterator is equal to the end, and on its way it
moves the iterator once, together with `begin`.  `scanned` is where it stands behind each
iteration, on both sides of that jump.
-/

namespace Splice

open WhileLoop
open RequestParser (intOf)

/-- The arguments `begin` and `size`, with the memory that they point into. -/
structure Buffer where
  memory : UInt64 → UInt8
  begin : UInt64
  size : UInt64

namespace Buffer

/-- An address in the buffer. -/
def Contains (buffer : Buffer) (address : UInt64) : Prop := address - buffer.begin < buffer.size

/-- The byte at an offset. -/
def byte (buffer : Buffer) (offset : UInt64) : UInt8 := buffer.memory (buffer.begin + offset)

/-- The bytes of the buffer. -/
def bytes (buffer : Buffer) : List UInt8 :=
  (List.range buffer.size.toNat).map fun k => buffer.byte (UInt64.ofNat k)

@[simp] theorem length_bytes (buffer : Buffer) : buffer.bytes.length = buffer.size.toNat := by
  simp [bytes]

end Buffer

namespace LogInterface

/-! ## The function -/

/-- The addresses from one pointer to another. -/
def addresses (first last : UInt64) : List UInt64 :=
  (List.range (last - first).toNat).map fun k => first + UInt64.ofNat k

/-- A byte in the log: itself, or its value behind a backslash. -/
def shown (isprint : Int → Bool) (c : UInt8) : List UInt8 :=
  if isprint (intOf c) then [c] else chars "\\" ++ chars (toString (intOf c))

/-- The variables of the loop, and the addresses that have been read. -/
structure Scan where
  it : UInt64
  begin : UInt64
  i : UInt64
  ss : List UInt8
  reads : List UInt64

/-- The body of the loop, and `it++,i++` behind it. -/
def iteration (isprint : Int → Bool) (buffer : Buffer) (s : Scan) : Scan :=
  let c := buffer.memory s.it
  let s := { s with ss := s.ss ++ shown isprint c, reads := s.reads ++ [s.it] }
  let s :=
    if s.i = 9 then
      let begin := s.begin + (buffer.size - 11)
      { s with ss := s.ss ++ chars " ... ", begin := begin, it := begin }
    else s
  { s with it := s.it + 1, i := s.i + 1 }

/-- `reduce`, with a bound on the iterations of its loop: the string, and the addresses
that have been read. -/
def reduce (isprint : Int → Bool) (buffer : Buffer) (bound : Nat) :
    Option (List UInt8 × List UInt64) :=
  let stop := buffer.begin + buffer.size
  let ss := chars "\""
  if buffer.size < 2 * 10 + 5 then
    let reads := addresses buffer.begin stop
    some (ss ++ reads.map buffer.memory ++ chars "\"", reads)
  else
    (run (fun s => s.it != stop) (iteration isprint buffer) bound
      ⟨buffer.begin, buffer.begin, 0, ss, []⟩).map fun s => (s.ss ++ chars "\"", s.reads)

/-- What the log shows of some bytes. -/
def abbreviation (isprint : Int → Bool) (bytes : List UInt8) : List UInt8 :=
  if bytes.length < 25 then bytes
  else
    (bytes.take 10).flatMap (shown isprint) ++ chars " ... " ++
      (bytes.drop (bytes.length - 10)).flatMap (shown isprint)

/-! ## The loop -/

section Loop

variable {isprint : Int → Bool} {buffer : Buffer}

/-- The offset that is read in an iteration. -/
def offset (size : UInt64) (k : Nat) : UInt64 :=
  if k < 10 then UInt64.ofNat k else size - 20 + UInt64.ofNat k

/-- What an iteration appends. -/
def appended (isprint : Int → Bool) (buffer : Buffer) (k : Nat) : List UInt8 :=
  shown isprint (buffer.byte (offset buffer.size k)) ++ if k = 9 then chars " ... " else []

/-- The loop behind so many iterations. -/
def scanned (isprint : Int → Bool) (buffer : Buffer) (k : Nat) : Scan where
  it := buffer.begin + offset buffer.size k
  begin := if k < 10 then buffer.begin else buffer.begin + (buffer.size - 11)
  i := UInt64.ofNat k
  ss := chars "\"" ++ (List.range k).flatMap (appended isprint buffer)
  reads := (List.range k).map fun j => buffer.begin + offset buffer.size j

/-- An iteration but the tenth steps to the next byte. -/
theorem iteration_of_ne {s : Scan} (h : s.i ≠ 9) :
    iteration isprint buffer s =
      ⟨s.it + 1, s.begin, s.i + 1, s.ss ++ shown isprint (buffer.memory s.it),
        s.reads ++ [s.it]⟩ := by
  simp only [iteration, if_neg h]

/-- The tenth iteration jumps behind the bytes that are left out. -/
theorem iteration_of_nine {s : Scan} (h : s.i = 9) :
    iteration isprint buffer s =
      ⟨s.begin + (buffer.size - 11) + 1, s.begin + (buffer.size - 11), s.i + 1,
        s.ss ++ shown isprint (buffer.memory s.it) ++ chars " ... ", s.reads ++ [s.it]⟩ := by
  simp only [iteration, if_pos h]

/-- All offsets but the tenth are followed by the next byte. -/
theorem offset_succ {size : UInt64} {k : Nat} (h : k ≠ 9) :
    offset size (k + 1) = offset size k + 1 := by
  have hnext : UInt64.ofNat (k + 1) = UInt64.ofNat k + 1 := UInt64.ofNat_add k 1
  unfold offset
  by_cases hk : k < 10
  · rw [if_pos hk, if_pos (by omega), hnext]
  · rw [if_neg hk, if_neg (by omega), hnext, UInt64.add_assoc]

theorem toNat_index {k : Nat} (h : k ≤ 20) : (UInt64.ofNat k).toNat = k :=
  UInt64.toNat_ofNat_of_lt' (Nat.lt_of_le_of_lt h (by decide))

/-- One iteration, also the tenth, which jumps. -/
theorem iteration_scanned {k : Nat} (h : k < 20) :
    iteration isprint buffer (scanned isprint buffer k) = scanned isprint buffer (k + 1) := by
  have hnext : UInt64.ofNat (k + 1) = UInt64.ofNat k + 1 := UInt64.ofNat_add k 1
  have hnine : (scanned isprint buffer k).i = 9 ↔ k = 9 := by
    rw [← UInt64.toNat_inj]
    exact Eq.congr (toNat_index (Nat.le_of_lt h)) rfl
  by_cases hk : k = 9
  · rw [iteration_of_nine (hnine.mpr hk)]
    subst hk
    have hjump : buffer.begin + (buffer.size - 11) + 1 = buffer.begin + offset buffer.size 10 := by
      rw [UInt64.add_assoc, offset, if_neg (by decide)]
      grind
    simp only [scanned, List.range_succ, List.flatMap_append, List.map_append, ← hjump]
    simp [appended, Buffer.byte, hnext]
  · have hbegin : (k < 10) = (k + 1 < 10) := by rw [eq_iff_iff]; omega
    rw [iteration_of_ne (mt hnine.mp hk)]
    simp only [scanned, List.range_succ, List.flatMap_append, List.map_append, hnext,
      offset_succ hk, hbegin]
    simp [appended, Buffer.byte, hk, UInt64.add_assoc]

/-- The offsets are those of the first ten bytes and of the last ten. -/
theorem toNat_offset {size : UInt64} (hsize : 25 ≤ size.toNat) {k : Nat} (h : k ≤ 20) :
    (offset size k).toNat = if k < 10 then k else size.toNat - 20 + k := by
  have hlt := size.toNat_lt
  have hindex := toNat_index h
  have hle : 20 ≤ size := by
    rw [UInt64.le_iff_toNat_le]
    exact Nat.le_of_add_right_le (k := 5) hsize
  have hback : (size - 20).toNat = size.toNat - 20 := UInt64.toNat_sub_of_le _ _ hle
  unfold offset
  by_cases h10 : k < 10
  · rw [if_pos h10, if_pos h10, hindex]
  · rw [if_neg h10, if_neg h10, UInt64.toNat_add, hback, hindex]
    omega

/-- An offset is inside the buffer. -/
theorem offset_lt (hsize : 25 ≤ buffer.size.toNat) {k : Nat} (h : k < 20) :
    offset buffer.size k < buffer.size := by
  rw [UInt64.lt_iff_toNat_lt, toNat_offset hsize (Nat.le_of_lt h)]
  split_ifs <;> omega

theorem offset_end (hsize : 25 ≤ buffer.size.toNat) : offset buffer.size 20 = buffer.size := by
  rw [← UInt64.toNat_inj, toNat_offset hsize (Nat.le_refl 20), if_neg (by decide)]
  omega

/-- The loop with so many iterations left. -/
def Left (isprint : Int → Bool) (buffer : Buffer) (left : Nat) (s : Scan) : Prop :=
  left ≤ 20 ∧ s = scanned isprint buffer (20 - left)

/-- With no iteration left the loop ends. -/
theorem not_cond_of_left {s : Scan} (hsize : 25 ≤ buffer.size.toNat)
    (h : Left isprint buffer 0 s) : ¬ (s.it != buffer.begin + buffer.size) := by
  obtain ⟨-, rfl⟩ := h
  simp [scanned, offset_end hsize]

/-- With one left it goes on, and leaves one less. -/
theorem left_iteration {left : Nat} {s : Scan} (hsize : 25 ≤ buffer.size.toNat)
    (h : Left isprint buffer (left + 1) s) :
    (s.it != buffer.begin + buffer.size) ∧
      Left isprint buffer left (iteration isprint buffer s) := by
  obtain ⟨hleft, rfl⟩ := h
  have hlt : 20 - (left + 1) < 20 := by omega
  have hnext : 20 - (left + 1) + 1 = 20 - left := by omega
  refine ⟨?_, Nat.le_of_succ_le hleft, ?_⟩
  · simpa [scanned] using UInt64.ne_of_lt (offset_lt hsize hlt)
  · rw [iteration_scanned hlt, hnext]

/-- The loop ends behind the twentieth iteration. -/
theorem run_scanned (hsize : 25 ≤ buffer.size.toNat) {bound : Nat} (h : 20 ≤ bound) :
    run (fun s => s.it != buffer.begin + buffer.size) (iteration isprint buffer) bound
      (scanned isprint buffer 0) = some (scanned isprint buffer 20) := by
  have hinit : Left isprint buffer 20 (scanned isprint buffer 0) := ⟨Nat.le_refl 20, rfl⟩
  obtain ⟨s', ⟨-, rfl⟩, hrun⟩ := run_countdown (fun _ => not_cond_of_left hsize)
    (fun _ _ => left_iteration hsize) hinit
  exact hrun bound h

/-! ## What is shown -/

/-- The first ten bytes are those of the first ten offsets. -/
theorem take_bytes (hsize : 25 ≤ buffer.size.toNat) :
    buffer.bytes.take 10 = (List.range 10).map fun k => buffer.byte (offset buffer.size k) := by
  rw [Buffer.bytes, ← List.map_take, List.take_range, Nat.min_eq_left (by omega)]
  refine List.map_congr_left fun k hk => ?_
  rw [offset, if_pos (List.mem_range.mp hk)]

/-- The last ten bytes are those of the last ten offsets. -/
theorem drop_bytes (hsize : 25 ≤ buffer.size.toNat) :
    buffer.bytes.drop (buffer.size.toNat - 10) =
      (List.range 10).map fun k => buffer.byte (offset buffer.size (10 + k)) := by
  have hsplit : buffer.size.toNat = buffer.size.toNat - 10 + 10 := by omega
  rw [Buffer.bytes, hsplit, List.range_add, List.map_append, Nat.add_sub_cancel,
    List.drop_left' (by simp), List.map_map]
  refine List.map_congr_left fun k hk => ?_
  have hk10 := List.mem_range.mp hk
  have hlt := buffer.size.toNat_lt
  have hoffset : UInt64.ofNat (buffer.size.toNat - 10 + k) = offset buffer.size (10 + k) := by
    rw [← UInt64.toNat_inj, toNat_offset hsize (by omega), if_neg (by omega),
      UInt64.toNat_ofNat_of_lt' (by rw [UInt64.size]; omega)]
    omega
  exact congrArg buffer.byte hoffset

/-- The twenty iterations show the first ten bytes and the last ten. -/
theorem flatMap_appended (hsize : 25 ≤ buffer.size.toNat) :
    (List.range 20).flatMap (appended isprint buffer) =
      (buffer.bytes.take 10).flatMap (shown isprint) ++ chars " ... " ++
        (buffer.bytes.drop (buffer.size.toNat - 10)).flatMap (shown isprint) := by
  have hother : ∀ k, k ≠ 9 →
      appended isprint buffer k = shown isprint (buffer.byte (offset buffer.size k)) := by
    intro k hk
    rw [appended, if_neg hk, List.append_nil]
  have hfirst : (List.range 9).flatMap (appended isprint buffer) =
      (List.range 9).flatMap fun k => shown isprint (buffer.byte (offset buffer.size k)) :=
    List.flatMap_congr fun k hk => hother k (Nat.ne_of_lt (List.mem_range.mp hk))
  have hlast : (List.range 10).flatMap (fun k => appended isprint buffer (10 + k)) =
      (List.range 10).flatMap fun k => shown isprint (buffer.byte (offset buffer.size (10 + k))) :=
    List.flatMap_congr fun k _ => hother (10 + k) (by omega)
  rw [take_bytes hsize, drop_bytes hsize, List.range_add (n := 10) (m := 10), List.flatMap_append,
    List.flatMap_map, hlast, List.flatMap_map, List.flatMap_map, List.range_succ (n := 9),
    List.flatMap_append, List.flatMap_append, hfirst]
  simp [appended]

end Loop

/-! ## The result -/

/-- The test for a short buffer is one of its length. -/
theorem size_lt_iff (buffer : Buffer) :
    buffer.size < 2 * 10 + 5 ↔ buffer.bytes.length < 25 := by
  rw [UInt64.lt_iff_toNat_lt, Buffer.length_bytes]
  exact Iff.rfl

/-- The bytes from `begin` to the end of a buffer, as they are read. -/
theorem addresses_eq (buffer : Buffer) :
    addresses buffer.begin (buffer.begin + buffer.size) =
      (List.range buffer.size.toNat).map fun k => buffer.begin + UInt64.ofNat k := by
  have hdistance : buffer.begin + buffer.size - buffer.begin = buffer.size := by grind
  rw [addresses, hdistance]

/-- The byte of an offset is read inside the buffer. -/
theorem contains_offset {buffer : Buffer} {offset : UInt64} (h : offset < buffer.size) :
    buffer.Contains (buffer.begin + offset) := by
  have hback : buffer.begin + offset - buffer.begin = offset := by grind
  rwa [Buffer.Contains, hback]

/-- A short buffer is copied. -/
theorem reduce_of_short (isprint : Int → Bool) {buffer : Buffer}
    (h : buffer.bytes.length < 25) (bound : Nat) :
    reduce isprint buffer bound =
      some (chars "\"" ++ abbreviation isprint buffer.bytes ++ chars "\"",
        addresses buffer.begin (buffer.begin + buffer.size)) := by
  have hbytes : (addresses buffer.begin (buffer.begin + buffer.size)).map buffer.memory =
      buffer.bytes := by
    rw [addresses_eq, List.map_map]
    rfl
  simp only [reduce, if_pos ((size_lt_iff buffer).mpr h), hbytes, abbreviation, if_pos h]

/-- A long one is scanned. -/
theorem reduce_of_long (isprint : Int → Bool) {buffer : Buffer}
    (h : ¬ buffer.bytes.length < 25) {bound : Nat} (hbound : 20 ≤ bound) :
    reduce isprint buffer bound =
      some (chars "\"" ++ abbreviation isprint buffer.bytes ++ chars "\"",
        (scanned isprint buffer 20).reads) := by
  have hsize : 25 ≤ buffer.size.toNat := by simpa using h
  have hinit : scanned isprint buffer 0 = ⟨buffer.begin, buffer.begin, 0, chars "\"", []⟩ := by
    simp [scanned, offset]
  have hss : (scanned isprint buffer 20).ss =
      chars "\"" ++ abbreviation isprint buffer.bytes := by
    rw [abbreviation, if_neg h, Buffer.length_bytes, ← flatMap_appended hsize]
    rfl
  simp only [reduce, if_neg (mt (size_lt_iff buffer).mp h), ← hinit, run_scanned hsize hbound,
    Option.map_some, hss]

/-- **`reduce`** ends, in at most twenty iterations, reads nothing outside the buffer, and
returns the abbreviation of its bytes between double quotes. -/
theorem reduce_abbreviates (isprint : Int → Bool) (buffer : Buffer) :
    ∃ reads, (∀ address ∈ reads, buffer.Contains address) ∧
      ∀ bound, 20 ≤ bound →
        reduce isprint buffer bound =
          some (chars "\"" ++ abbreviation isprint buffer.bytes ++ chars "\"", reads) := by
  by_cases h : buffer.bytes.length < 25
  · refine ⟨addresses buffer.begin (buffer.begin + buffer.size), fun address haddress => ?_,
      fun bound _ => reduce_of_short isprint h bound⟩
    rw [addresses_eq] at haddress
    obtain ⟨k, hk, rfl⟩ := List.mem_map.mp haddress
    have hk := List.mem_range.mp hk
    apply contains_offset
    rw [UInt64.lt_iff_toNat_lt, UInt64.toNat_ofNat_of_lt' (Nat.lt_trans hk buffer.size.toNat_lt)]
    exact hk
  · refine ⟨(scanned isprint buffer 20).reads, fun address haddress => ?_,
      fun bound hbound => reduce_of_long isprint h hbound⟩
    have hsize : 25 ≤ buffer.size.toNat := by simpa using h
    obtain ⟨k, hk, rfl⟩ := List.mem_map.mp haddress
    exact contains_offset (offset_lt hsize (List.mem_range.mp hk))

example : (reduce (fun n => 32 ≤ n && n < 127) ⟨UInt64.toUInt8, 112, 25⟩ 20).map Prod.fst =
    some (chars
      "\"pqrstuvwxy ... \\127\\-128\\-127\\-126\\-125\\-124\\-123\\-122\\-121\\-120\"") := by
  decide

end LogInterface

end Splice

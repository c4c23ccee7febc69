import Mathlib.Algebra.Group.Nat.Defs
import Mathlib.Data.List.Basic

/-!
# Splice.Lib.Base64

Base64 text: three bytes at a time, as four characters, with the last group padded.

The same text comes of a scan that knows nothing of groups: take six bits after the
other from the bytes, with zeros behind them, write the character of each, and count the
padding at the end (`map_char_windows_append`).
-/

namespace Base64

/-! ## Characters -/

/-- The character of a six-bit number. -/
def char (n : Nat) : UInt8 :=
  if n < 26 then UInt8.ofNat (n + 65)
  else if n < 52 then UInt8.ofNat (n + 71)
  else if n < 62 then UInt8.ofNat (n - 4)
  else if n = 62 then 43
  else 47

/-- What stands in place of the characters of missing bytes. -/
def pad : UInt8 := 61

/-- The number of a character. -/
def value (c : UInt8) : Option Nat :=
  (List.range 64).find? fun n => char n = c

/-- Different numbers have different characters, none of which is the padding. -/
theorem value_char {n : Nat} (h : n < 64) : value (char n) = some n := by
  revert n
  decide

theorem char_ne_pad {n : Nat} (h : n < 64) : char n ≠ pad := by
  revert n
  decide

/-! ## Text -/

/-- The four six-bit numbers of three bytes. -/
def sextets (a b c : UInt8) : List Nat :=
  [a.toNat / 4, a.toNat % 4 * 16 + b.toNat / 16, b.toNat % 16 * 4 + c.toNat / 64, c.toNat % 64]

/-- The text of some bytes. -/
def encode : List UInt8 → List UInt8
  | [] => []
  | [a] => ((sextets a 0 0).take 2).map char ++ [pad, pad]
  | [a, b] => ((sextets a b 0).take 3).map char ++ [pad]
  | a :: b :: c :: bs => (sextets a b c).map char ++ encode bs

/-- The padding of the text of `n` bytes. -/
def padding (n : Nat) : Nat := (3 - n % 3) % 3

/-- The bytes of six-bit numbers. -/
def octets : List Nat → Option (List UInt8)
  | [] => some []
  | [_] => none
  | [w, x] => some [UInt8.ofNat (w * 4 + x / 16)]
  | [w, x, y] => some [UInt8.ofNat (w * 4 + x / 16), UInt8.ofNat (x % 16 * 16 + y / 4)]
  | w :: x :: y :: z :: rest =>
      (octets rest).map fun bs =>
        UInt8.ofNat (w * 4 + x / 16) :: UInt8.ofNat (x % 16 * 16 + y / 4) ::
          UInt8.ofNat (y % 4 * 64 + z) :: bs

/-- The bytes of a text. -/
def decode (cs : List UInt8) : Option (List UInt8) :=
  ((cs.takeWhile (· ≠ pad)).mapM value).bind octets

/-- An encoding has four characters for each group of three bytes, the last one padded. -/
@[simp] theorem length_encode (bs : List UInt8) :
    (encode bs).length = 4 * ((bs.length + 2) / 3) := by
  induction bs using encode.induct with
  | case1 => simp [encode]
  | case2 a => simp [encode, sextets]
  | case3 a b => simp [encode, sextets]
  | case4 a b c bs ih =>
      simp only [encode, sextets, List.length_append, List.length_map, List.length_cons,
        List.length_nil, ih]
      omega

/-! ## The scan -/

/-- The six bits that begin at bit `6 * i`, with zeros behind the bytes. -/
def window (bs : List UInt8) (i : Nat) : Nat :=
  ((bs.getD (6 * i / 8) 0).toNat * 256 + (bs.getD (6 * i / 8 + 1) 0).toNat) /
    2 ^ (10 - 6 * i % 8) % 64

/-- All six bits that have a bit of the bytes in them. -/
def windows (bs : List UInt8) : List Nat :=
  (List.range ((4 * bs.length + 2) / 3)).map (window bs)

theorem window_lt (bs : List UInt8) (i : Nat) : window bs i < 64 :=
  Nat.mod_lt _ (by decide)

/-- The first four numbers come from the first three bytes. -/
theorem map_window_range (bs : List UInt8) :
    (List.range 4).map (window bs) = sextets (bs.getD 0 0) (bs.getD 1 0) (bs.getD 2 0) := by
  have h₀ := (bs.getD 0 0).toNat_lt
  have h₁ := (bs.getD 1 0).toNat_lt
  have h₂ := (bs.getD 2 0).toNat_lt
  have h₃ := (bs.getD 3 0).toNat_lt
  have hrange : List.range 4 = [0, 1, 2, 3] := rfl
  simp only [hrange, List.map_cons, List.map_nil, window, sextets, List.cons.injEq, and_true,
    Nat.reduceMul, Nat.reduceDiv, Nat.reduceAdd, Nat.reduceMod, Nat.reduceSub, Nat.reducePow]
  omega

/-- Three bytes are four steps of the scan. -/
theorem window_add_four (a b c : UInt8) (bs : List UInt8) (i : Nat) :
    window (a :: b :: c :: bs) (4 + i) = window bs i := by
  have hbyte : 6 * (4 + i) / 8 = 6 * i / 8 + 3 := by omega
  have hbit : 6 * (4 + i) % 8 = 6 * i % 8 := by omega
  simp only [window, hbyte, hbit, List.getD_cons_succ, Nat.add_right_comm _ 3 1]

/-- A whole group has the windows of its three bytes. -/
theorem windows_cons (a b c : UInt8) (bs : List UInt8) :
    windows (a :: b :: c :: bs) = sextets a b c ++ windows bs := by
  have hlength : (4 * (a :: b :: c :: bs).length + 2) / 3 = 4 + (4 * bs.length + 2) / 3 := by
    simp only [List.length_cons]
    omega
  have hfirst : (List.range 4).map (window (a :: b :: c :: bs)) = sextets a b c :=
    map_window_range _
  rw [windows, hlength, List.range_add, List.map_append, hfirst, List.map_map]
  simp [windows, Function.comp_def, window_add_four]

/-- Windows that end within the first group. -/
theorem windows_eq_take {bs : List UInt8} {k : Nat} (hlength : (4 * bs.length + 2) / 3 = k)
    (hk : k ≤ 4) :
    windows bs = (sextets (bs.getD 0 0) (bs.getD 1 0) (bs.getD 2 0)).take k := by
  rw [windows, hlength, ← map_window_range, ← List.map_take, List.take_range, Nat.min_eq_left hk]

theorem windows_one (a : UInt8) : windows [a] = (sextets a 0 0).take 2 :=
  windows_eq_take (by simp) (by decide)

theorem windows_two (a b : UInt8) : windows [a, b] = (sextets a b 0).take 3 :=
  windows_eq_take (by simp) (by decide)

/-- **The scan writes the same text**, up to the padding. -/
theorem map_char_windows_append (bs : List UInt8) :
    (windows bs).map char ++ List.replicate (padding bs.length) pad = encode bs := by
  induction bs using encode.induct with
  | case1 => rfl
  | case2 a =>
      rw [windows_one, encode]
      rfl
  | case3 a b =>
      rw [windows_two, encode]
      rfl
  | case4 a b c bs ih =>
      have hpadding : padding (a :: b :: c :: bs).length = padding bs.length := by
        simp only [padding, List.length_cons]
        omega
      rw [windows_cons, hpadding, List.map_append, List.append_assoc, ih, encode]

/-! ## Round trip -/

/-- What a text has before its padding are the characters of its numbers. -/
theorem decode_of_numbers {ns : List Nat} {tail : List UInt8} (hns : ∀ n ∈ ns, n < 64)
    (htail : ∀ c ∈ tail.head?, c = pad) : decode (ns.map char ++ tail) = octets ns := by
  have hbefore : (ns.map char ++ tail).takeWhile (· ≠ pad) = ns.map char := by
    rw [List.takeWhile_append_of_pos]
    · cases tail with
      | nil => simp
      | cons c tail => simp [htail c rfl]
    · intro c hc
      obtain ⟨n, hn, rfl⟩ := List.mem_map.mp hc
      simpa using char_ne_pad (hns n hn)
  have hvalues : (ns.map char).mapM value = some ns := by
    clear hbefore
    induction ns with
    | nil => rfl
    | cons n ns ih =>
        obtain ⟨hn, hns⟩ := List.forall_mem_cons.mp hns
        simp [List.mapM_cons, value_char hn, ih hns]
  rw [decode, hbefore, hvalues, Option.bind_some]

section Octets

variable (a b c : UInt8)

/-- The first byte of a group is in its first two windows. -/
theorem octet_first :
    UInt8.ofNat (a.toNat / 4 * 4 + (a.toNat % 4 * 16 + b.toNat / 16) / 16) = a := by
  have hb := b.toNat_lt
  have hvalue : a.toNat / 4 * 4 + (a.toNat % 4 * 16 + b.toNat / 16) / 16 = a.toNat := by omega
  rw [hvalue, UInt8.ofNat_toNat]

/-- The second byte is in the two in the middle. -/
theorem octet_second :
    UInt8.ofNat
      ((a.toNat % 4 * 16 + b.toNat / 16) % 16 * 16 + (b.toNat % 16 * 4 + c.toNat / 64) / 4) =
        b := by
  have hb := b.toNat_lt
  have hc := c.toNat_lt
  have hvalue : (a.toNat % 4 * 16 + b.toNat / 16) % 16 * 16 +
      (b.toNat % 16 * 4 + c.toNat / 64) / 4 = b.toNat := by omega
  rw [hvalue, UInt8.ofNat_toNat]

/-- The third byte is in the last two. -/
theorem octet_third :
    UInt8.ofNat ((b.toNat % 16 * 4 + c.toNat / 64) % 4 * 64 + c.toNat % 64) = c := by
  have hc := c.toNat_lt
  have hvalue : (b.toNat % 16 * 4 + c.toNat / 64) % 4 * 64 + c.toNat % 64 = c.toNat := by omega
  rw [hvalue, UInt8.ofNat_toNat]

end Octets

/-- The bytes come back from their six bits. -/
theorem octets_windows (bs : List UInt8) : octets (windows bs) = some bs := by
  induction bs using encode.induct with
  | case1 => rfl
  | case2 a =>
      rw [windows_one, sextets]
      simp only [List.take, octets, octet_first]
  | case3 a b =>
      rw [windows_two, sextets]
      simp only [List.take, octets, octet_first, octet_second]
  | case4 a b c bs ih =>
      rw [windows_cons, sextets]
      simp only [List.cons_append, List.nil_append, octets, ih, Option.map_some, octet_first,
        octet_second, octet_third]

/-- **Reading a text back.** -/
theorem decode_encode (bs : List UInt8) : decode (encode bs) = some bs := by
  rw [← map_char_windows_append, decode_of_numbers, octets_windows]
  · intro n hn
    obtain ⟨i, -, rfl⟩ := List.mem_map.mp hn
    exact window_lt bs i
  · intro c hc
    exact List.eq_of_mem_replicate (List.mem_of_mem_head? hc)

end Base64

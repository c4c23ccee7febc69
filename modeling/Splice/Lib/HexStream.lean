import Mathlib.Data.List.TakeWhile
import Mathlib.Data.Nat.Digits.Lemmas

/-!
# Splice.Lib.HexStream

Unsigned integers through C++ streams in hexadecimal mode: `format` and `setw` are
what `os << std::setw(w) << std::hex << n` writes, `extract` is what
`is >> std::hex >> n` reads.

Reading is far more liberal than writing: white space, a sign and a `0x` in front of
the digits are accepted, and everything from the first byte that is not a digit is
left in the stream.  `extract_setw_format` is the round trip, `length_setw_format`
says when the field width is kept.
-/

namespace HexStream

/-- The digit for a value below 16, in lower case. -/
def digit (d : Nat) : UInt8 := if d < 10 then UInt8.ofNat (48 + d) else UInt8.ofNat (87 + d)

/-- The value of a digit, in either case. -/
def digitValue (b : UInt8) : Option Nat :=
  if 48 ≤ b ∧ b ≤ 57 then some (b.toNat - 48)
  else if 97 ≤ b ∧ b ≤ 102 then some (b.toNat - 87)
  else if 65 ≤ b ∧ b ≤ 70 then some (b.toNat - 55)
  else none

/-- `std::isspace` in the "C" locale. -/
def isSpace (b : UInt8) : Bool := b == 32 || (9 ≤ b && b ≤ 13)

/-! ## Writing -/

/-- `os << std::hex << n`. -/
def format (n : Nat) : List UInt8 :=
  if n = 0 then [48] else ((Nat.digits 16 n).reverse).map digit

/-- `std::setw`: blanks in front, up to the field width. -/
def setw (width : Nat) (text : List UInt8) : List UInt8 :=
  List.replicate (width - text.length) 32 ++ text

/-! ## Reading -/

/-- The value of a run of digits, most significant first. -/
def digitsValue (bs : List UInt8) : Nat :=
  Nat.ofDigits 16 ((bs.filterMap digitValue).reverse)

/-- An optional sign: whether it is a minus, and what follows it. -/
def sign : List UInt8 → Bool × List UInt8
  | 45 :: bs => (true, bs)
  | 43 :: bs => (false, bs)
  | bs => (false, bs)

/-- An optional `0x` or `0X`, skipped. -/
def dropBase : List UInt8 → List UInt8
  | 48 :: 120 :: bs => bs
  | 48 :: 88 :: bs => bs
  | bs => bs

/-- Sign and magnitude at the front of a stream; `none` if there is no number. -/
def number (bs : List UInt8) : Option (Bool × Nat) :=
  let (negative, bs) := sign (bs.dropWhile isSpace)
  let digits := (dropBase bs).takeWhile fun b => (digitValue b).isSome
  if digits = [] then none else some (negative, digitsValue digits)

/-- `is >> std::hex >> n` with an unsigned `n` of `bits` bits: `none` where the stream
fails, for want of a number or because it is out of range.  A minus sign negates
modulo `2 ^ bits`. -/
def extract (bits : Nat) (bs : List UInt8) : Option Nat :=
  match number bs with
  | none => none
  | some (negative, n) =>
      if n < 2 ^ bits then some (if negative then (2 ^ bits - n) % 2 ^ bits else n) else none

/-- The same with a signed `n`. -/
def extractInt (bits : Nat) (bs : List UInt8) : Option Int :=
  match number bs with
  | none => none
  | some (true, n) => if n ≤ 2 ^ (bits - 1) then some (-(n : Int)) else none
  | some (false, n) => if n < 2 ^ (bits - 1) then some (n : Int) else none

/-! ## The round trip -/

/-- What a reader finds in a digit that was written: its value, and nothing it stops at. -/
theorem digit_eq {d : Nat} (h : d < 16) :
    digitValue (digit d) = some d ∧ isSpace (digit d) = false ∧ digit d ≠ 45 ∧ digit d ≠ 43 ∧
      digit d ≠ 120 ∧ digit d ≠ 88 := by
  have hall : ∀ d : Fin 16, digitValue (digit d) = some d.val ∧ isSpace (digit d) = false ∧
      digit d ≠ 45 ∧ digit d ≠ 43 ∧ digit d ≠ 120 ∧ digit d ≠ 88 := by
    decide
  exact hall ⟨d, h⟩

/-- What is written is a run of digits with the number as its value. -/
theorem exists_digits_format (n : Nat) : ∃ ds : List Nat, ds ≠ [] ∧ (∀ d ∈ ds, d < 16) ∧
    format n = ds.map digit ∧ Nat.ofDigits 16 ds.reverse = n := by
  by_cases h : n = 0
  · exact ⟨[0], by simp, by simp, by rw [format, if_pos h]; rfl, by simp [h]⟩
  · refine ⟨(Nat.digits 16 n).reverse, by simpa [Nat.digits_eq_nil_iff_eq_zero] using h, ?_, ?_, ?_⟩
    · intro d hd
      exact Nat.digits_lt_base (by decide) (List.mem_reverse.mp hd)
    · rw [format, if_neg h]
    · rw [List.reverse_reverse, Nat.ofDigits_digits]

/-- The digits written have the value they were written for. -/
theorem digitsValue_map {ds : List Nat} (h : ∀ d ∈ ds, d < 16) :
    digitsValue (ds.map digit) = Nat.ofDigits 16 ds.reverse := by
  have hds : (ds.map digit).filterMap digitValue = ds := by
    induction ds with
    | nil => rfl
    | cons d ds ih =>
        obtain ⟨hd, hrest⟩ := List.forall_mem_cons.mp h
        rw [List.map_cons, List.filterMap_cons, (digit_eq hd).1, ih hrest]
  rw [digitsValue, hds]

/-- The blanks of `setw` are skipped. -/
theorem dropWhile_isSpace_setw (width : Nat) {text : List UInt8} {b : UInt8} {bs : List UInt8}
    (h : text = b :: bs) (hb : isSpace b = false) :
    (setw width text).dropWhile isSpace = text := by
  have hblank : ∀ b ∈ List.replicate (width - text.length) (32 : UInt8), isSpace b = true := by
    intro b hb
    rw [List.eq_of_mem_replicate hb]
    rfl
  rw [setw, List.dropWhile_append_of_pos hblank, h, List.dropWhile_cons_of_neg (by simp [hb])]

/-- A number written in a field is read back. -/
theorem number_setw_format (width n : Nat) : number (setw width (format n)) = some (false, n) := by
  obtain ⟨ds, hne, hlt, hformat, hvalue⟩ := exists_digits_format n
  obtain ⟨d, ds, rfl⟩ := List.exists_cons_of_ne_nil hne
  obtain ⟨hd, hrest⟩ := List.forall_mem_cons.mp hlt
  obtain ⟨hval, hspace, hminus, hplus, -, -⟩ := digit_eq hd
  have htake : (format n).takeWhile (fun b => (digitValue b).isSome) = format n := by
    apply List.takeWhile_eq_self_iff.mpr
    intro b hb
    rw [hformat] at hb
    obtain ⟨d', hd', rfl⟩ := List.mem_map.mp hb
    rw [(digit_eq (hlt d' hd')).1]
    rfl
  have hsign : sign (format n) = (false, format n) := by
    rw [hformat, List.map_cons]
    unfold sign
    split <;> simp_all
  have hbase : dropBase (format n) = format n := by
    rw [hformat, List.map_cons]
    cases ds with
    | nil =>
        unfold dropBase
        split <;> simp_all
    | cons d' ds =>
        obtain ⟨-, -, -, -, hx, hX⟩ := digit_eq (hrest d' (by simp))
        unfold dropBase
        split <;> simp_all
  rw [number, dropWhile_isSpace_setw width (by rw [hformat]; rfl) hspace, hsign]
  simp only [hbase, htake]
  rw [if_neg (by rw [hformat]; simp), hformat, digitsValue_map hlt, hvalue]

/-- **What is written is read back**, with any field width. -/
theorem extract_setw_format {bits n : Nat} (h : n < 2 ^ bits) (width : Nat) :
    extract bits (setw width (format n)) = some n := by
  rw [extract, number_setw_format]
  simp [h]

/-- A number takes at most `k` digits exactly if it is below the `k`-th power of the base. -/
theorem length_format_le_iff {n k : Nat} (hk : 0 < k) : (format n).length ≤ k ↔ n < 16 ^ k := by
  by_cases h : n = 0
  · rw [format, if_pos h, h]
    simp only [List.length_singleton]
    exact ⟨fun _ => Nat.pow_pos (by decide), fun _ => hk⟩
  · rw [format, if_neg h, List.length_map, List.length_reverse]
    exact Nat.digits_length_le_iff (by decide) n

/-- A field has the width it was given exactly if the number fits it. -/
theorem length_setw_format {n width : Nat} (hwidth : 0 < width) :
    (setw width (format n)).length = width ↔ n < 16 ^ width := by
  rw [← length_format_le_iff hwidth, setw, List.length_append, List.length_replicate]
  omega

/-! ## What is written -/

/-- A digit as it is written. -/
def isLowerDigit (b : UInt8) : Bool := (48 ≤ b && b ≤ 57) || (97 ≤ b && b ≤ 102)

/-- Lower-case digits without a redundant zero in front. -/
structure IsNumeral (text : List UInt8) : Prop where
  ne_nil : text ≠ []
  digits : ∀ b ∈ text, isLowerDigit b
  leading : text.head? = some 48 → text = [48]

theorem isLowerDigit_digit {d : Nat} (h : d < 16) : isLowerDigit (digit d) := by
  have hall : ∀ d : Fin 16, isLowerDigit (digit d) := by decide
  exact hall ⟨d, h⟩

theorem digit_eq_zero_iff {d : Nat} (h : d < 16) : digit d = 48 ↔ d = 0 := by
  have hall : ∀ d : Fin 16, digit d = 48 ↔ d.val = 0 := by decide
  exact hall ⟨d, h⟩

/-- A lower-case digit is one that is written for some value. -/
theorem exists_digit {b : UInt8} (h : isLowerDigit b) : ∃ d < 16, digit d = b := by
  have hall : ∀ n : Fin 256, isLowerDigit (UInt8.ofFin n) →
      ∃ d : Fin 16, digit d = UInt8.ofFin n := by decide +kernel
  obtain ⟨d, hd⟩ := hall b.toFin h
  exact ⟨d, d.isLt, hd⟩

/-- A text of such digits is written for a list of values. -/
theorem exists_digits {text : List UInt8} (h : ∀ b ∈ text, isLowerDigit b) :
    ∃ ds : List Nat, (∀ d ∈ ds, d < 16) ∧ ds.map digit = text := by
  induction text with
  | nil => exact ⟨[], by simp, rfl⟩
  | cons b text ih =>
      obtain ⟨hb, htext⟩ := List.forall_mem_cons.mp h
      obtain ⟨d, hd, hdb⟩ := exists_digit hb
      obtain ⟨ds, hds, hmap⟩ := ih htext
      exact ⟨d :: ds, List.forall_mem_cons.mpr ⟨hd, hds⟩, by rw [List.map_cons, hdb, hmap]⟩

/-- What is written is a numeral. -/
theorem isNumeral_format (n : Nat) : IsNumeral (format n) := by
  by_cases h : n = 0
  · rw [format, if_pos h]
    exact ⟨by simp, List.forall_mem_singleton.mpr (by decide), fun _ => rfl⟩
  · have hne : Nat.digits 16 n ≠ [] := Nat.digits_ne_nil_iff_ne_zero.mpr h
    have hlt : ∀ d ∈ (Nat.digits 16 n).reverse, d < 16 := fun d hd =>
      Nat.digits_lt_base (by decide) (List.mem_reverse.mp hd)
    rw [format, if_neg h]
    refine ⟨by simpa using hne, ?_, fun hhead => ?_⟩
    · intro b hb
      obtain ⟨d, hd, rfl⟩ := List.mem_map.mp hb
      exact isLowerDigit_digit (hlt d hd)
    · -- the first digit is the last one of `Nat.digits`, and that is not zero
      rw [List.head?_map, List.head?_reverse, List.getLast?_eq_getLast_of_ne_nil hne] at hhead
      have hlast := (Nat.digits 16 n).getLast_mem hne
      have hzero := (digit_eq_zero_iff (Nat.digits_lt_base (by decide) hlast)).mp
        (Option.some.inj hhead)
      exact absurd hzero (Nat.getLast_digit_ne_zero 16 h)

/-- **What is written** are the numerals. -/
theorem isNumeral_iff {text : List UInt8} : IsNumeral text ↔ ∃ n, format n = text := by
  constructor
  · intro h
    by_cases hzero : text.head? = some 48
    · exact ⟨0, (h.leading hzero).symm⟩
    · obtain ⟨ds, hlt, rfl⟩ := exists_digits h.digits
      have hne : ds ≠ [] := fun hds => h.ne_nil (by rw [hds]; rfl)
      obtain ⟨d, rest, rfl⟩ := List.exists_cons_of_ne_nil hne
      have hd : d ≠ 0 := by
        rintro rfl
        exact hzero rfl
      have hdigits : Nat.digits 16 (Nat.ofDigits 16 (d :: rest).reverse) = (d :: rest).reverse := by
        refine Nat.digits_ofDigits 16 (by decide) _ ?_ ?_
        · intro d' hd'
          exact hlt d' (List.mem_reverse.mp hd')
        · intro _
          simpa using hd
      refine ⟨Nat.ofDigits 16 (d :: rest).reverse, ?_⟩
      have hn : Nat.ofDigits 16 (d :: rest).reverse ≠ 0 := by
        intro hn
        rw [hn, Nat.digits_zero] at hdigits
        simp at hdigits
      rw [format, if_neg hn, hdigits, List.reverse_reverse]
  · rintro ⟨n, rfl⟩
    exact isNumeral_format n

/-- Fields of a given width: blanks and a numeral. -/
theorem exists_setw_format_iff {width : Nat} {text : List UInt8} (h : text.length = width) :
    (∃ n, setw width (format n) = text) ↔
      ∃ blanks numeral, IsNumeral numeral ∧ text = List.replicate blanks 32 ++ numeral := by
  constructor
  · rintro ⟨n, rfl⟩
    exact ⟨_, format n, isNumeral_format n, rfl⟩
  · rintro ⟨blanks, numeral, hnumeral, rfl⟩
    obtain ⟨n, rfl⟩ := isNumeral_iff.mp hnumeral
    refine ⟨n, ?_⟩
    rw [setw, ← h, List.length_append, List.length_replicate, Nat.add_sub_cancel]

/-! ## What is read -/

/-- What stands behind white space, a sign and a base in front of it. -/
def numeralPart (bs : List UInt8) : List UInt8 := dropBase (sign (bs.dropWhile isSpace)).2

/-- No number is read exactly where no digit comes then. -/
theorem number_eq_none_iff {bs : List UInt8} :
    number bs = none ↔ ∀ b ∈ (numeralPart bs).head?, digitValue b = none := by
  have hdigits : (numeralPart bs).takeWhile (fun b => (digitValue b).isSome) = [] ↔
      ∀ b ∈ (numeralPart bs).head?, digitValue b = none := by
    cases numeralPart bs with
    | nil => simp
    | cons b rest => simp [List.takeWhile_cons]
  rw [← hdigits]
  simp [number, numeralPart]

theorem length_dropBase_le (bs : List UInt8) : (dropBase bs).length ≤ bs.length := by
  unfold dropBase
  split <;> simp <;> omega

theorem length_sign_le (bs : List UInt8) : (sign bs).2.length ≤ bs.length := by
  unfold sign
  split <;> simp

theorem digitValue_lt {b : UInt8} {d : Nat} (h : digitValue b = some d) : d < 16 := by
  have hall : ∀ n : Fin 256, ∀ d ∈ digitValue (UInt8.ofFin n), d < 16 := by decide +kernel
  exact hall b.toFin d h

/-- The value of a text is below the power of the base for its length. -/
theorem digitsValue_lt (bs : List UInt8) : digitsValue bs < 16 ^ bs.length := by
  have hlt : ∀ d ∈ (bs.filterMap digitValue).reverse, d < 16 := by
    intro d hd
    obtain ⟨b, -, hb⟩ := List.mem_filterMap.mp (List.mem_reverse.mp hd)
    exact digitValue_lt hb
  calc digitsValue bs < 16 ^ (bs.filterMap digitValue).reverse.length :=
        Nat.ofDigits_lt_base_pow_length (by decide) hlt
    _ ≤ 16 ^ bs.length := by
        refine Nat.pow_le_pow_right (by decide) ?_
        rw [List.length_reverse]
        exact List.length_filterMap_le _ _

/-- A number is no longer than what it is read from. -/
theorem number_lt {bs : List UInt8} {negative : Bool} {n : Nat}
    (h : number bs = some (negative, n)) : n < 16 ^ bs.length := by
  simp only [number] at h
  split at h
  · cases h
  · obtain ⟨-, rfl⟩ := Prod.mk.inj (Option.some.inj h)
    refine (digitsValue_lt _).trans_le (Nat.pow_le_pow_right (by decide) ?_)
    calc _ ≤ (dropBase (sign (bs.dropWhile isSpace)).2).length :=
          (List.takeWhile_prefix _).length_le
      _ ≤ (sign (bs.dropWhile isSpace)).2.length := length_dropBase_le _
      _ ≤ (bs.dropWhile isSpace).length := length_sign_le _
      _ ≤ bs.length := List.length_dropWhile_le _ _

/-- From few enough bytes every number is read. -/
theorem extract_eq_none_iff {bits : Nat} {bs : List UInt8} (h : 16 ^ bs.length ≤ 2 ^ bits) :
    extract bits bs = none ↔ ∀ b ∈ (numeralPart bs).head?, digitValue b = none := by
  rw [← number_eq_none_iff, extract]
  cases hnumber : number bs with
  | none => simp
  | some p =>
      have hlt : p.2 < 2 ^ bits := (number_lt hnumber).trans_le h
      simp [hlt]

end HexStream

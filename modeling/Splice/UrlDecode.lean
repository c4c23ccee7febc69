import Splice.HttpServer

/-!
# Splice.UrlDecode

`url_decode` against the encoding that it is for.  A valid text is a list of pieces, each
with the byte it stands for; `escapes` is what stands behind the `%`s of any text.

The number reader takes more than two digits there: a blank or a sign in front of one
digit, or one digit and anything behind it (`isLenient`).
-/

namespace Splice

open HexStream

namespace HttpServer

/-! ## The encoding -/

/-- A piece of an encoded text. -/
inductive Piece where
  | escape (x y : UInt8) (high low : Nat) (hx : digitValue x = some high)
      (hy : digitValue y = some low)
  | plus
  | byte (b : UInt8) (hpercent : b ≠ '%'.toUInt8) (hplus : b ≠ '+'.toUInt8)

namespace Piece

/-- How a piece is written. -/
def bytes : Piece → List UInt8
  | escape x y _ _ _ _ => ['%'.toUInt8, x, y]
  | plus => ['+'.toUInt8]
  | byte b _ _ => [b]

/-- The byte that a piece stands for. -/
def value : Piece → UInt8
  | escape _ _ high low _ _ => UInt8.ofNat (16 * high + low)
  | plus => ' '.toUInt8
  | byte b _ _ => b

end Piece

/-! ## Escapes -/

/-- What stands behind each `%` of a text, from the left: two bytes, or fewer at its end. -/
def escapes : List UInt8 → List (List UInt8)
  | [] => []
  | b :: rest =>
      if b = '%'.toUInt8 then
        match rest with
        | x :: y :: rest => [x, y] :: escapes rest
        | rest => [rest]
      else escapes rest

def isHex (b : UInt8) : Bool := (digitValue b).isSome

/-- Two hexadecimal digits. -/
def isEscape : List UInt8 → Bool
  | [x, y] => isHex x && isHex y
  | _ => false

/-- A blank or a sign in front of a digit, or a digit in front of something else that does
not begin another base with it. -/
def isLenient : List UInt8 → Bool
  | [x, y] =>
      ((isSpace x || x == '+'.toUInt8 || x == '-'.toUInt8) && isHex y) ||
        (isHex x && !isHex y && !(x == '0'.toUInt8 && (y == 'x'.toUInt8 || y == 'X'.toUInt8)))
  | _ => false

/-- Where no blank and no sign is in front, the digits are read. -/
theorem number_of_plain {x y : UInt8} (hspace : isSpace x = false) (hplus : x ≠ '+'.toUInt8)
    (hminus : x ≠ '-'.toUInt8) (hbase : dropBase [x, y] = [x, y]) :
    number [x, y] =
      if isHex x then some (false, digitsValue (if isHex y then [x, y] else [x])) else none := by
  have hsign : sign [x, y] = (false, [x, y]) := by
    unfold sign
    split
    · next h => exact absurd (List.cons.inj h).1 hminus
    · next h => exact absurd (List.cons.inj h).1 hplus
    · rfl
  by_cases hx : isHex x
  · by_cases hy : isHex y
    · simp_all [number, isHex]
    · simp_all [number, isHex]
  · simp_all [number, isHex]

/-- The value of two digits. -/
theorem digitsValue_pair {x y : UInt8} {high low : Nat} (hx : digitValue x = some high)
    (hy : digitValue y = some low) : digitsValue [x, y] = 16 * high + low := by
  simp [digitsValue, hx, hy, Nat.ofDigits_cons]
  omega

theorem digitsValue_single {x : UInt8} {high : Nat} (hx : digitValue x = some high) :
    digitsValue [x] = high := by
  simp [digitsValue, hx]

/-- Two characters that are no base are not skipped. -/
theorem dropBase_of_ne {x y : UInt8} (h : x = '0'.toUInt8 → y ≠ 'x'.toUInt8 ∧ y ≠ 'X'.toUInt8) :
    dropBase [x, y] = [x, y] := by
  unfold dropBase
  split
  · next heq =>
      obtain ⟨rfl, hy⟩ := List.cons.inj heq
      exact absurd (List.cons.inj hy).1 (h rfl).1
  · next heq =>
      obtain ⟨rfl, hy⟩ := List.cons.inj heq
      exact absurd (List.cons.inj hy).1 (h rfl).2
  · rfl

/-- Two digits are read as they are meant. -/
theorem extractInt_of_digits {x y : UInt8} {high low : Nat} (hx : digitValue x = some high)
    (hy : digitValue y = some low) :
    extractInt 32 [x, y] = some ((16 * high + low : Nat) : Int) := by
  have hplain : ∀ b, isHex b → isSpace b = false ∧ b ≠ '+'.toUInt8 ∧ b ≠ '-'.toUInt8 ∧
      b ≠ 'x'.toUInt8 ∧ b ≠ 'X'.toUInt8 := forall_uInt8 (by decide +kernel)
  have hhex : isHex x := by simp [isHex, hx]
  have hhexy : isHex y := by simp [isHex, hy]
  obtain ⟨hspace, hplus, hminus, -, -⟩ := hplain x hhex
  obtain ⟨-, -, -, hbase⟩ := hplain y hhexy
  have hhigh := digitValue_lt hx
  have hlow := digitValue_lt hy
  have hnumber := number_of_plain hspace hplus hminus (dropBase_of_ne fun _ => hbase)
  rw [if_pos hhex, if_pos hhexy, digitsValue_pair hx hy] at hnumber
  rw [extractInt, hnumber]
  exact if_pos (by omega)

/-- The number reader refuses two bytes unless they are digits or it is lenient. -/
theorem extractInt_isSome (x y : UInt8) :
    (extractInt 32 [x, y]).isSome = (isEscape [x, y] || isLenient [x, y]) := by
  by_cases hspace : isSpace x
  · have hskip : extractInt 32 [x, y] = extractInt 32 [y] := by
      rw [extractInt, extractInt, number, number, List.dropWhile_cons_of_pos hspace]
    have hsingle : ∀ y, (extractInt 32 [y]).isSome = isHex y := forall_uInt8 (by decide +kernel)
    have hhex : ∀ x, isSpace x → isHex x = false := forall_uInt8 (by decide +kernel)
    simp [hskip, hsingle, isEscape, isLenient, hspace, hhex x hspace]
  · by_cases hplus : x = '+'.toUInt8
    · subst hplus
      revert y
      exact forall_uInt8 (by decide +kernel)
    · by_cases hminus : x = '-'.toUInt8
      · subst hminus
        revert y
        exact forall_uInt8 (by decide +kernel)
      · by_cases hzero : x = '0'.toUInt8
        · subst hzero
          revert y
          exact forall_uInt8 (by decide +kernel)
        · have hbase := dropBase_of_ne (y := y) fun h => absurd h hzero
          rw [extractInt, number_of_plain (by simpa using hspace) hplus hminus hbase]
          by_cases hx : isHex x
          · obtain ⟨high, hhigh⟩ := Option.isSome_iff_exists.mp hx
            have hlt := digitValue_lt hhigh
            by_cases hy : isHex y
            · obtain ⟨low, hlow⟩ := Option.isSome_iff_exists.mp hy
              have hlt' := digitValue_lt hlow
              have hvalue : 16 * high + low < 2147483648 := by omega
              simp [hx, hy, digitsValue_pair hhigh hlow, isEscape, hvalue]
            · have hvalue : high < 2147483648 := by omega
              have hbeq : (x == '0'.toUInt8) = false := by simpa using hzero
              simp [hx, hy, digitsValue_single hhigh, isEscape, isLenient, hbeq, hvalue]
          · simp [hx, hspace, hplus, hminus, isEscape, isLenient]

/-! ## Decoding -/

/-- A text is decoded to the bytes that its pieces stand for, and to nothing if it has
none. -/
def DecodesExactly (text : List UInt8) : Prop :=
  ∀ out, urlDecode text = some out ↔
    ∃ pieces : List Piece, text = pieces.flatMap Piece.bytes ∧ out = pieces.map Piece.value

/-- An escape is the number in the two bytes behind the percent sign. -/
theorem urlDecode_percent (x y : UInt8) (rest : List UInt8) :
    urlDecode ('%'.toUInt8 :: x :: y :: rest) =
      (extractInt 32 [x, y]).bind fun value =>
        (urlDecode rest).map (UInt8.ofNat (value % 256).toNat :: ·) := by
  rw [urlDecode, if_pos rfl]
  cases extractInt 32 [x, y] <;> rfl

/-- A percent sign with fewer than two bytes behind it is not decoded. -/
theorem urlDecode_cut {rest : List UInt8} (h : ∀ x y rest', rest = x :: y :: rest' → False) :
    urlDecode ('%'.toUInt8 :: rest) = none := by
  rw [urlDecode.eq_def]
  simp only [if_true]

/-- A plus sign is a blank, and all other bytes stand for themselves. -/
theorem urlDecode_cons {b : UInt8} (hb : b ≠ '%'.toUInt8) (rest : List UInt8) :
    urlDecode (b :: rest) =
      (urlDecode rest).map ((if b = '+'.toUInt8 then ' '.toUInt8 else b) :: ·) := by
  rw [urlDecode.eq_def]
  simp only [hb, if_false]
  split <;> rfl

theorem escapes_percent (x y : UInt8) (rest : List UInt8) :
    escapes ('%'.toUInt8 :: x :: y :: rest) = [x, y] :: escapes rest := by
  rw [escapes, if_pos rfl]

/-- A text can end in an escape that is cut. -/
theorem escapes_cut {rest : List UInt8} (h : ∀ x y rest', rest = x :: y :: rest' → False) :
    escapes ('%'.toUInt8 :: rest) = [rest] := by
  rw [escapes.eq_def]
  simp only [if_true]

/-- Other bytes are no escapes. -/
theorem escapes_cons {b : UInt8} (hb : b ≠ '%'.toUInt8) (rest : List UInt8) :
    escapes (b :: rest) = escapes rest := by
  rw [escapes.eq_def]
  simp [hb]

/-- Pieces are decoded to the bytes they stand for. -/
theorem urlDecode_bytes (pieces : List Piece) :
    urlDecode (pieces.flatMap Piece.bytes) = some (pieces.map Piece.value) := by
  induction pieces with
  | nil => rfl
  | cons piece pieces ih =>
      rw [List.flatMap_cons, List.map_cons]
      cases piece with
      | escape x y high low hx hy =>
          have hhigh := digitValue_lt hx
          have hlow := digitValue_lt hy
          have hbyte : (((16 * high + low : Nat) : Int) % 256).toNat = 16 * high + low := by omega
          show urlDecode ('%'.toUInt8 :: x :: y :: pieces.flatMap Piece.bytes) = _
          rw [urlDecode_percent, extractInt_of_digits hx hy, ih, Option.bind_some, hbyte]
          rfl
      | plus =>
          rw [Piece.bytes, List.singleton_append, urlDecode_cons (by decide), ih]
          rfl
      | byte b hpercent hplus =>
          rw [Piece.bytes, List.singleton_append, urlDecode_cons hpercent, ih, if_neg hplus]
          rfl

/-- An escape that is cut is none. -/
theorem isEscape_of_short {escape : List UInt8}
    (h : ∀ x y rest, escape = x :: y :: rest → False) : isEscape escape = false := by
  unfold isEscape
  split
  · next x y => exact (h x y [] rfl).elim
  · rfl

/-- Nor is it one that is taken all the same. -/
theorem isLenient_of_short {escape : List UInt8}
    (h : ∀ x y rest, escape = x :: y :: rest → False) : isLenient escape = false := by
  unfold isLenient
  split
  · next x y => exact (h x y [] rfl).elim
  · rfl

/-- The pieces of a text that begins with an escape. -/
theorem exists_pieces_percent_iff (rest : List UInt8) :
    (∃ pieces : List Piece, '%'.toUInt8 :: rest = pieces.flatMap Piece.bytes) ↔
      ∃ x y rest', rest = x :: y :: rest' ∧ isEscape [x, y] ∧
        ∃ pieces : List Piece, rest' = pieces.flatMap Piece.bytes := by
  constructor
  · rintro ⟨pieces, hpieces⟩
    cases pieces with
    | nil => cases hpieces
    | cons piece pieces =>
        cases piece with
        | escape x y high low hx hy =>
            exact ⟨x, y, _, (List.cons.inj hpieces).2, by simp [isEscape, isHex, hx, hy], pieces,
              rfl⟩
        | plus => exact absurd (List.cons.inj hpieces).1 (by decide)
        | byte b hpercent hplus => exact absurd (List.cons.inj hpieces).1.symm hpercent
  · rintro ⟨x, y, rest', rfl, hescape, pieces, rfl⟩
    obtain ⟨hx, hy⟩ : isHex x ∧ isHex y := by simpa [isEscape] using hescape
    obtain ⟨high, hhigh⟩ := Option.isSome_iff_exists.mp hx
    obtain ⟨low, hlow⟩ := Option.isSome_iff_exists.mp hy
    exact ⟨.escape x y high low hhigh hlow :: pieces, rfl⟩

/-- Any other byte is a piece. -/
theorem exists_pieces_cons_iff {b : UInt8} (hb : b ≠ '%'.toUInt8) (rest : List UInt8) :
    (∃ pieces : List Piece, b :: rest = pieces.flatMap Piece.bytes) ↔
      ∃ pieces : List Piece, rest = pieces.flatMap Piece.bytes := by
  constructor
  · rintro ⟨pieces, hpieces⟩
    cases pieces with
    | nil => cases hpieces
    | cons piece pieces =>
        cases piece with
        | escape x y high low hx hy => exact absurd (List.cons.inj hpieces).1 hb
        | plus => exact ⟨pieces, (List.cons.inj hpieces).2⟩
        | byte b' hpercent hplus => exact ⟨pieces, (List.cons.inj hpieces).2⟩
  · rintro ⟨pieces, rfl⟩
    by_cases hplus : b = '+'.toUInt8
    · exact ⟨.plus :: pieces, by rw [hplus]; rfl⟩
    · exact ⟨.byte b hb hplus :: pieces, rfl⟩

/-- A text has pieces exactly if all its escapes are digits. -/
theorem exists_pieces_iff (text : List UInt8) :
    (∃ pieces : List Piece, text = pieces.flatMap Piece.bytes) ↔
      ∀ escape ∈ escapes text, isEscape escape := by
  induction text using escapes.induct with
  | case1 => exact iff_of_true ⟨[], rfl⟩ (by simp [escapes])
  | case2 x y rest ih =>
      rw [exists_pieces_percent_iff, escapes_percent, List.forall_mem_cons, ← ih]
      simp [and_comm]
  | case3 rest hshort =>
      rw [exists_pieces_percent_iff, escapes_cut hshort]
      refine iff_of_false ?_ (by simp [isEscape_of_short hshort])
      rintro ⟨x, y, rest', rfl, -⟩
      exact hshort x y rest' rfl
  | case4 b rest hb ih => rw [exists_pieces_cons_iff hb, escapes_cons hb, ih]

/-- An escape that the number reader refuses, or that is cut off. -/
def isRefused (escape : List UInt8) : Bool := !isEscape escape && !isLenient escape

/-- Decoding fails exactly at an escape that is refused. -/
theorem urlDecode_eq_none_iff (text : List UInt8) :
    urlDecode text = none ↔ ∃ escape ∈ escapes text, isRefused escape := by
  induction text using escapes.induct with
  | case1 => simp [urlDecode, escapes]
  | case2 x y rest ih =>
      have hsome := extractInt_isSome x y
      rw [urlDecode_percent, escapes_percent, List.exists_mem_cons_iff, ← ih]
      cases hread : extractInt 32 [x, y] with
      | none => simp_all [isRefused]
      | some value =>
          have hrefused : isRefused [x, y] = false := by
            rw [hread] at hsome
            cases hescape : isEscape [x, y] <;> simp_all [isRefused]
          simp [hrefused]
  | case3 rest hshort =>
      simp [urlDecode_cut hshort, escapes_cut hshort, isRefused, isEscape_of_short hshort,
        isLenient_of_short hshort]
  | case4 b rest hb ih => simp [urlDecode_cons hb, escapes_cons hb, ih]

/-- An escape as it should be is not a lenient one. -/
theorem isLenient_of_isEscape {escape : List UInt8} (h : isEscape escape) :
    isLenient escape = false := by
  have hplain : ∀ b, isHex b → isSpace b = false ∧ b ≠ '+'.toUInt8 ∧ b ≠ '-'.toUInt8 :=
    forall_uInt8 (by decide +kernel)
  unfold isEscape at h
  split at h
  · next x y =>
      obtain ⟨hx, hy⟩ := Bool.and_eq_true_iff.mp h
      simp [isLenient, hplain x hx, hx, hy]
  · cases h

/-- **Decoding is exact** unless some escape is lenient and none is refused. -/
theorem decodesExactly_iff (text : List UInt8) :
    DecodesExactly text ↔
      (∀ escape ∈ escapes text, isLenient escape = false) ∨
        ∃ escape ∈ escapes text, isRefused escape := by
  constructor
  · intro hexact
    cases hdecode : urlDecode text with
    | none => exact Or.inr ((urlDecode_eq_none_iff text).mp hdecode)
    | some out =>
        obtain ⟨pieces, hpieces, -⟩ := (hexact out).mp hdecode
        have hvalid := (exists_pieces_iff text).mp ⟨pieces, hpieces⟩
        exact Or.inl fun escape hescape => isLenient_of_isEscape (hvalid escape hescape)
  · intro hcases out
    constructor
    · intro hdecode
      have hnone : ∀ escape ∈ escapes text, isRefused escape = false := by
        intro escape hescape
        by_contra hrefused
        have hfail := (urlDecode_eq_none_iff text).mpr ⟨escape, hescape, by simpa using hrefused⟩
        simp [hfail] at hdecode
      have hlenient : ∀ escape ∈ escapes text, isLenient escape = false := by
        rcases hcases with hlenient | ⟨escape, hescape, hrefused⟩
        · exact hlenient
        · simp [hnone escape hescape] at hrefused
      obtain ⟨pieces, rfl⟩ := (exists_pieces_iff text).mpr fun escape hescape => by
        simpa [isRefused, hlenient escape hescape] using hnone escape hescape
      rw [urlDecode_bytes] at hdecode
      exact ⟨pieces, rfl, (Option.some.inj hdecode).symm⟩
    · rintro ⟨pieces, rfl, rfl⟩
      exact urlDecode_bytes pieces

/-- An escape with one digit and a letter behind it is read as that digit. -/
theorem decodesExactly_counterexample : ¬ DecodesExactly (chars "/%1g") := by
  intro hexact
  have hdecode : urlDecode (chars "/%1g") = some ['/'.toUInt8, 1] := by decide +kernel
  obtain ⟨pieces, hpieces, -⟩ := (hexact _).mp hdecode
  have hvalid := (exists_pieces_iff _).mp ⟨pieces, hpieces⟩
  exact absurd hvalid (by decide +kernel)

end HttpServer

end Splice

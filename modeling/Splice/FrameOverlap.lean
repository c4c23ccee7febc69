import Splice.FrameDecode

/-!
# Splice.FrameOverlap

A frame on the wire and a frame that the decoder reads off the same bytes from
another starting point.  If both are masked and carry equally many payload bytes,
the one that starts later also ends later: for it not to, its length byte, which
has the mask bit set, would have to be one of the extended length bytes of the
other, in a place where a size that fits the later frame's own length field leaves
that bit clear.

This is what a decoder that has lost its place is up against: whatever the bytes,
it never catches up (`body_ends_before`, `body_ends_behind`).
-/

namespace Splice

open Radix
open DataFrameParser

/-- If a header starts inside another one and fits in front of its end, length byte
and extended length lie in the extended length of the other. -/
theorem exists_ext_eq {a lenX b lenY : UInt8} {gap extX extY tailX tailY : List UInt8}
    (h : a :: lenX :: extX ++ tailX = gap ++ b :: lenY :: extY ++ tailY) (hgap : gap ≠ [])
    (hfit : gap.length + extY.length ≤ extX.length) :
    ∃ before after, extX = before ++ lenY :: (extY ++ after) := by
  obtain ⟨x, gap, rfl⟩ := List.exists_cons_of_ne_nil hgap
  obtain ⟨y, before, hbefore⟩ : ∃ y before, gap ++ [b] = y :: before :=
    List.exists_cons_of_ne_nil (by simp)
  have hsplit : x :: gap ++ b :: lenY :: extY ++ tailY =
      x :: y :: (before ++ lenY :: extY) ++ tailY := by
    have hcons : gap ++ b :: lenY :: (extY ++ tailY) = (gap ++ [b]) ++ lenY :: (extY ++ tailY) :=
      List.append_cons gap b _
    simp [hcons, hbefore]
  have hsame : extX ++ tailX = (before ++ lenY :: extY) ++ tailY := by
    rw [hsplit] at h
    simp only [List.cons_append, List.cons.injEq] at h
    exact h.2.2
  have hlen : (before ++ lenY :: extY).length ≤ extX.length := by
    have hb := congrArg List.length hbefore
    simp only [List.length_append, List.length_cons, List.length_nil] at hb hfit ⊢
    omega
  obtain ⟨after, hafter⟩ :=
    List.prefix_of_prefix_length_le ⟨tailY, hsame.symm⟩ ⟨tailX, rfl⟩ hlen
  exact ⟨before, after, by rw [← hafter]; simp⟩

/-- Of two ways to cut a stream, the shorter first part leaves the longer rest. -/
theorem exists_gap {xs ys tail rest : List UInt8} (h : xs ++ tail = ys ++ rest)
    (hlt : xs.length < ys.length) : ∃ gap, gap ≠ [] ∧ tail = gap ++ rest := by
  obtain ⟨gap, hgap⟩ :=
    List.prefix_of_prefix_length_le ⟨tail, h⟩ ⟨rest, rfl⟩ (Nat.le_of_lt hlt)
  refine ⟨gap, ?_, ?_⟩
  · intro hnil
    rw [← hgap, hnil, List.append_nil] at hlt
    omega
  · rw [← hgap, List.append_assoc] at h
    exact List.append_cancel_left h

theorem le_toNat_of_topBit {b : UInt8} (h : topBit b = true) : 128 ≤ b.toNat := by
  simpa [topBit] using h

/-- A byte with the mask bit set is too large for its place in front of `v` bytes of
a field that holds less than `128 * 256 ^ v`. -/
theorem le_ofBE_of_topBit (before ext after : List UInt8) {b : UInt8} (h : topBit b = true) :
    128 * 256 ^ ext.length ≤ ofBE (before ++ b :: (ext ++ after)) := by
  have hweight := le_ofBE_append before (ext ++ after) b
  have hb := le_toNat_of_topBit h
  have hpow : 256 ^ ext.length ≤ 256 ^ (ext ++ after).length :=
    Nat.pow_le_pow_right (by decide) (by simp)
  exact le_trans (Nat.mul_le_mul hb hpow) hweight

namespace DataFrameParser.FrameBody

variable {host : Endian}

theorem length_ext_le (body : FrameBody host) : body.ext.length ≤ 8 := by
  rw [body.length_ext, extLength]
  split_ifs <;> omega

theorem length_key_le (body : FrameBody host) : body.key.length ≤ 4 := by
  rw [body.length_key, keyLength]
  split_ifs <;> omega

/-- With an extended length, that is where the size is read from. -/
theorem fieldValue_ext (body : FrameBody host) (h : body.ext ≠ []) :
    host.fieldValue body.ext = body.data.length := by
  rw [body.length_data, wireSize, if_pos]
  rcases ext_cases body.length_ext with ⟨hl, -⟩ | ⟨hl, -⟩ | ⟨-, -, hl⟩
  · exact .inl hl
  · exact .inr hl
  · exact absurd hl h

/-- The length of the data is bounded by the length fields. -/
theorem length_data_lt (body : FrameBody host) :
    body.data.length < 128 * 256 ^ body.ext.length := by
  by_cases h : body.ext = []
  · have hlow : low7 body.len < 128 := Nat.mod_lt _ (by decide)
    rcases ext_cases body.length_ext with ⟨-, _, _, hl⟩ | ⟨-, _, _, _, _, _, _, _, _, hl⟩ |
      ⟨h126, h127, -⟩
    · simp [h] at hl
    · simp [h] at hl
    · rw [body.length_data, wireSize, if_neg (by omega), h]
      simpa using hlow
  · rw [← body.fieldValue_ext h]
    have hlt : host.fieldValue body.ext < 256 ^ body.ext.length := by
      cases host with
      | little => exact ofBE_lt body.ext
      | big => exact ofLE_lt body.ext
    omega

/-- A big-endian host reads a field backwards, and a length byte with two extended
length bytes in front of the end of the field is too much for it all the same. -/
theorem ofLE_ne_of_len16 {before after ext : List UInt8} {len : UInt8} {n : Nat}
    (hlen : len.toNat = 254) (hext : ext = toBE 2 n) (hn : n < 65536) :
    ofLE (before ++ len :: (ext ++ after)) ≠ n := by
  intro h
  have hbytes : ext = [UInt8.ofNat (n / 256), UInt8.ofNat n] := by rw [hext]; rfl
  have hhi : (UInt8.ofNat (n / 256)).toNat = n / 256 := by
    rw [UInt8.toNat_ofNat']
    omega
  rw [hbytes, ofLE_append, ofLE_cons, hlen, List.cons_append, ofLE_cons, List.cons_append,
    ofLE_cons, hhi, UInt8.toNat_ofNat', List.nil_append] at h
  match before with
  | [] => simp only [ofLE_nil, List.length_nil] at h; omega
  | [b] =>
      have hb := b.toNat_lt
      simp only [ofLE_cons, ofLE_nil, List.length_singleton] at h
      omega
  | b :: b' :: before =>
      have hpow : 0 < 256 ^ before.length := Nat.pow_pos (by decide)
      have hbig : 65536 ≤ 256 ^ (b :: b' :: before).length := by
        simp only [List.length_cons, Nat.pow_succ]
        omega
      have hmul : 65536 * 254 ≤ 256 ^ (b :: b' :: before).length *
          (254 + 256 * (n / 256 + 256 * (n % 2 ^ 8 + 256 * ofLE after))) :=
        Nat.mul_le_mul hbig (Nat.le_add_right _ _)
      omega

/-- A frame's length byte and extended length do not fit into the extended length
that a body with the frame's payload size was read with. -/
theorem ext_ne (body : FrameBody host) {frame : ClientFrame}
    (hdata : body.data.length = frame.payload.length) (before after : List UInt8) :
    body.ext ≠ before ++ frame.len :: (frame.ext ++ after) := by
  intro h
  have hvalue := body.fieldValue_ext (by rw [h]; simp)
  have htop := frame.topBit_len
  have hlt := frame.length_payload_lt
  have hext : frame.ext.length = frame.form.width := LengthForm.length_extended _ _
  rw [h, hdata] at hvalue
  cases host with
  | little =>
      have hle := le_ofBE_of_topBit before frame.ext after htop
      have hval : ofBE _ = _ := hvalue
      omega
  | big =>
      have hval : ofLE _ = _ := hvalue
      cases hform : frame.form with
      | len7 =>
          have hle := le_ofLE_append before (frame.ext ++ after) frame.len
          have hb := le_toNat_of_topBit htop
          have hpow : 0 < 256 ^ before.length := Nat.pow_pos (by decide)
          have hmul : 128 * 1 ≤ frame.len.toNat * 256 ^ before.length := Nat.mul_le_mul hb hpow
          rw [hext, hform, LengthForm.width] at hlt
          omega
      | len16 =>
          have hholds := frame.holds
          have hlen := LengthForm.toNat_lengthByte hholds true
          rw [hform] at hholds hlen
          have hn : frame.payload.length ≤ 65535 := hholds
          refine ofLE_ne_of_len16 ?_ ?_ (by omega) hval
          · rw [ClientFrame.len, hform]
            exact hlen
          · rw [ClientFrame.ext, hform]
            rfl
      | len64 =>
          have hle := body.length_ext_le
          have hb := congrArg List.length h
          simp only [List.length_append, List.length_cons, hext, hform, LengthForm.width] at hb
          omega

/-- **A decoder that starts before a frame stays before it**: what it reads, with the
frame's payload size, ends before the frame does. -/
theorem body_ends_before (body : FrameBody host) {frame : ClientFrame} {b : UInt8}
    {gap tail rest : List UInt8} (hgap : gap ≠ [])
    (hdata : body.data.length = frame.payload.length)
    (h : b :: body.bytes ++ tail = gap ++ frame.bytes ++ rest) :
    ∃ gap', gap' ≠ [] ∧ tail = gap' ++ rest := by
  apply exists_gap h
  by_contra hle
  have hkey := body.length_key_le
  have hext : frame.ext.length = frame.form.width := LengthForm.length_extended _ _
  rw [List.length_cons, body.length_bytes, List.length_append, frame.length_bytes,
    ← body.length_ext, ← body.length_key] at hle
  have hheads : b :: body.len :: body.ext ++ (body.key ++ body.data ++ tail) =
      gap ++ frame.head :: frame.len :: frame.ext ++
        (frame.maskingKey.toList ++ frame.masked ++ rest) := by
    simpa [bytes, ClientFrame.bytes, ClientFrame.tail] using h
  obtain ⟨before, after, hin⟩ := exists_ext_eq hheads hgap (by omega)
  exact body.ext_ne hdata before after hin

/-- With the mask bit and some data there is a key. -/
theorem length_key_of_topBit (body : FrameBody host) (hmask : topBit body.len = true)
    (hne : body.data ≠ []) : body.key.length = 4 := by
  have hz : low7 body.len ≠ 0 := by
    intro hz
    have hlen := body.length_data
    simp [wireSize, hz] at hlen
    exact hne hlen
  rw [body.length_key, keyLength, if_pos ⟨hmask, hz⟩]

/-- **A decoder that starts inside a frame ends behind it**, if it reads a masked frame
of the same payload size. -/
theorem body_ends_behind (body : FrameBody host) {frame : ClientFrame} {b : UInt8}
    {gap tail rest : List UInt8} (hgap : gap ≠ []) (hmask : topBit body.len = true)
    (hne : body.data ≠ []) (hdata : body.data.length = frame.payload.length)
    (h : gap ++ b :: body.bytes ++ tail = frame.bytes ++ rest) :
    ∃ gap', gap' ≠ [] ∧ rest = gap' ++ tail := by
  apply exists_gap h.symm
  by_contra hle
  have hkey := body.length_key_of_topBit hmask hne
  have hext : frame.ext.length = frame.form.width := LengthForm.length_extended _ _
  rw [List.length_append, List.length_cons, body.length_bytes, frame.length_bytes,
    ← body.length_ext, ← body.length_key] at hle
  have hheads : frame.head :: frame.len :: frame.ext ++
        (frame.maskingKey.toList ++ frame.masked ++ rest) =
      gap ++ b :: body.len :: body.ext ++ (body.key ++ body.data ++ tail) := by
    simpa [bytes, ClientFrame.bytes, ClientFrame.tail] using h.symm
  obtain ⟨before, after, hin⟩ := exists_ext_eq hheads hgap (by omega)
  have hform : frame.form ≠ .len7 := by
    intro hform
    rw [hin, List.length_append, List.length_cons, hform, LengthForm.width] at hext
    omega
  have hsize : Radix.ofBE frame.ext = frame.payload.length :=
    LengthForm.ofBE_extended hform frame.holds
  have hlt := body.length_data_lt
  have hbyte := le_ofBE_of_topBit before body.ext after hmask
  rw [hin] at hsize
  omega

end DataFrameParser.FrameBody

end Splice

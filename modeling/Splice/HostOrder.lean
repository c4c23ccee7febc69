import Splice.FrameBody

/-!
# Splice.HostOrder

What the byte order of the host makes of an extended length.  The parser assembles the
field least significant byte first, and `ntoh16` and `ntoh64` swap it on a little-endian
host only; so the two hosts agree on the fields that read the same both ways, and on no
others (`readsBigEndian_iff`).
-/

namespace Splice

open Radix
open Incremental (Tribool)

/-- A length byte that announces an extended length, and that field. -/
structure LengthField where
  len : UInt8
  ext : List UInt8
  announced : DataFrameParser.low7 len = 126 ∨ DataFrameParser.low7 len = 127
  length_ext : ext.length = DataFrameParser.extLength len

namespace LengthField

open DataFrameParser

/-- The value in the member that the field belongs to. -/
def valueIn (field : LengthField) (frame : DataFrame) : Nat :=
  if low7 field.len = 126 then frame.extendedPayloadLen16.toNat
  else frame.extendedPayloadLen64.toNat

/-- On this host, whatever frame the field is read into, it is left as a big-endian number,
and so is the size that the payload is compared with. -/
def ReadsBigEndian (field : LengthField) (host : Endian) : Prop :=
  ∀ (frame : DataFrame) (head : UInt8), ∃ state out,
    parse host .finOpcode frame (head :: field.len :: field.ext) =
        (.indeterminate, (state, out), []) ∧
      field.valueIn out = ofBE field.ext ∧ declaredSize out = ofBE field.ext

/-- A fresh parser on this host finds a frame at the front of the text. -/
def Accepts (host : Endian) (junk : MaskingKey) (text : List UInt8) : Prop :=
  (parse host .finOpcode (.new junk) text).1 = .true

/-- Both hosts accept the same frames with this field. -/
def AcceptsAlike (field : LengthField) : Prop :=
  ∀ junk head tail, Accepts .little junk (head :: field.len :: field.ext ++ tail) ↔
    Accepts .big junk (head :: field.len :: field.ext ++ tail)

variable {host : Endian} (field : LengthField)

theorem low7_ne_zero : low7 field.len ≠ 0 := by
  rcases field.announced with h | h <;> omega

theorem wireSize_eq (host : Endian) :
    wireSize host field.len field.ext = host.fieldValue field.ext := by
  rw [wireSize, if_pos field.announced]

/-- The field is assembled as the host reads it. -/
theorem valueIn_withLength (host : Endian) (frame : DataFrame) :
    field.valueIn (withLength host frame field.len field.ext) = host.fieldValue field.ext := by
  obtain ⟨len, ext, announced, length_ext⟩ := field
  rcases ext_cases length_ext with ⟨hl, e0, e1, rfl⟩ |
    ⟨hl, e0, e1, e2, e3, e4, e5, e6, e7, rfl⟩ | ⟨hl, hl', rfl⟩
  · simp [valueIn, hl, withLength, toNat_ntoh16_word16]
  · simp [valueIn, hl, withLength, toNat_ntoh64_word64]
  · rcases announced with h | h
    · exact absurd h hl
    · exact absurd h hl'

/-- What the parser has made of a field at its end. -/
theorem parse_field (host : Endian) (frame : DataFrame) (head : UInt8) :
    parse host .finOpcode frame (head :: field.len :: field.ext) =
      (.indeterminate, (afterLength (withLength host (withHead frame head) field.len field.ext),
        withLength host (withHead frame head) field.len field.ext), []) := by
  have hlength := parse_length host (withHead frame head) field.low7_ne_zero field.length_ext []
  rw [List.append_nil] at hlength
  rw [parse_finOpcode, hlength, parse_nil]

/-- The value left is the one that the host reads. -/
theorem readsBigEndian_iff_fieldValue :
    field.ReadsBigEndian host ↔ host.fieldValue field.ext = ofBE field.ext := by
  constructor
  · intro h
    obtain ⟨state, out, hparse, hvalue, -⟩ := h (.new #v[0, 0, 0, 0]) 0
    rw [parse_field] at hparse
    obtain ⟨-, rfl⟩ := Prod.mk.inj (Prod.mk.inj (Prod.mk.inj hparse).2).1
    rwa [valueIn_withLength] at hvalue
  · intro h frame head
    refine ⟨_, _, field.parse_field host frame head, ?_, ?_⟩
    · rw [valueIn_withLength, h]
    · rw [declaredSize_withLength host _ field.length_ext, wireSize_eq, h]

/-- A field is read as it was meant on a little-endian host, or if it is its own reverse. -/
theorem fieldValue_eq_ofBE_iff :
    host.fieldValue field.ext = ofBE field.ext ↔
      host = .little ∨ field.ext.reverse = field.ext := by
  cases host with
  | little => simp [Endian.fieldValue]
  | big => simp [Endian.fieldValue, ofLE_eq_ofBE_iff]

/-! ## Whole frames -/

/-- The texts with this field that a host accepts. -/
theorem accepts_iff {junk : MaskingKey} {head : UInt8} {tail : List UInt8} :
    Accepts host junk (head :: field.len :: field.ext ++ tail) ↔
      ∃ key data rest, tail = key ++ data ++ rest ∧ key.length = keyLength field.len ∧
        data.length = host.fieldValue field.ext ∧ data ≠ [] := by
  rw [Accepts, List.cons_append, parse_finOpcode]
  constructor
  · intro h
    obtain ⟨s, rest, hparse⟩ : ∃ s rest,
        parse host .maskPayloadLen (withHead (.new junk) head)
          (field.len :: field.ext ++ tail) = (.true, s, rest) := ⟨_, _, Prod.ext h rfl⟩
    obtain ⟨body, hbody⟩ := exists_body_of_parse host rfl hparse
    obtain ⟨hlen, hext, htail⟩ := body.eq_of_bytes_append field.length_ext hbody.symm
    refine ⟨body.key, body.data, rest, htail.symm, ?_, ?_, ?_⟩
    · rw [body.length_key, hlen]
    · rw [body.length_data, hlen, hext, wireSize_eq]
    · exact body.data_ne_nil (by rw [hlen]; exact field.low7_ne_zero)
  · rintro ⟨key, data, rest, rfl, hkey, hdata, hne⟩
    let body : FrameBody host :=
      { len := field.len, ext := field.ext, key := key, data := data
        length_ext := field.length_ext, length_key := hkey
        length_data := by rw [hdata, wireSize_eq]
        data_ne_nil := fun _ => hne }
    have hempty : (withHead (.new junk) head).payload = [] := rfl
    obtain ⟨state, out, hparse, -⟩ := parse_body body hempty rest
    have hbytes : field.len :: field.ext ++ (key ++ data ++ rest) = body.bytes ++ rest := by
      simp [body, FrameBody.bytes]
    rw [hbytes, hparse]

/-- A host that reads a greater size waits for more where the other one accepts. -/
theorem not_accepts_of_lt (host host' : Endian)
    (h : host.fieldValue field.ext < host'.fieldValue field.ext)
    (hpos : 0 < host.fieldValue field.ext) (junk : MaskingKey) (head : UInt8) :
    ∃ tail, Accepts host junk (head :: field.len :: field.ext ++ tail) ∧
      ¬ Accepts host' junk (head :: field.len :: field.ext ++ tail) := by
  refine ⟨List.replicate (keyLength field.len) 0 ++
    List.replicate (host.fieldValue field.ext) 0, ?_, ?_⟩
  · rw [accepts_iff]
    refine ⟨_, _, [], by rw [List.append_nil], by simp, by simp, ?_⟩
    simpa using Nat.ne_of_gt hpos
  · rw [accepts_iff]
    rintro ⟨key, data, rest, htail, hkey, hdata, -⟩
    have hlen := congrArg List.length htail
    simp only [List.length_append, List.length_replicate, hkey, hdata] at hlen
    omega

/-- Both hosts take a field alike exactly if it is its own reverse. -/
theorem acceptsAlike_iff : field.AcceptsAlike ↔ field.ext.reverse = field.ext := by
  rw [← ofLE_eq_ofBE_iff]
  constructor
  · intro h
    by_contra hne
    have hpos : ∀ host : Endian, 0 < host.fieldValue field.ext := by
      intro host
      refine Nat.pos_of_ne_zero fun hzero => hne ?_
      have hbytes := (host.fieldValue_eq_zero_iff field.ext).mp hzero
      rw [(ofLE_eq_zero_iff field.ext).mpr hbytes, (ofBE_eq_zero_iff field.ext).mpr hbytes]
    rcases Nat.lt_or_gt_of_ne hne with hlt | hlt
    · obtain ⟨tail, hbig, hlittle⟩ := field.not_accepts_of_lt .big .little hlt (hpos .big)
        #v[0, 0, 0, 0] 0
      exact hlittle ((h _ _ _).mpr hbig)
    · obtain ⟨tail, hlittle, hbig⟩ := field.not_accepts_of_lt .little .big hlt (hpos .little)
        #v[0, 0, 0, 0] 0
      exact hbig ((h _ _ _).mp hlittle)
  · intro h junk head tail
    have hsame : Endian.fieldValue .little field.ext = Endian.fieldValue .big field.ext := h.symm
    rw [accepts_iff, accepts_iff, hsame]

/-- **Where the byte order of the host shows**: a host reads a field as a big-endian number
if it is little-endian or the field reads the same both ways, and the hosts accept the same
frames with the fields that do. -/
theorem readsBigEndian_iff (field : LengthField) :
    (∀ host, field.ReadsBigEndian host ↔ host = .little ∨ field.ext.reverse = field.ext) ∧
      (field.AcceptsAlike ↔ field.ext.reverse = field.ext) :=
  ⟨fun _ => field.readsBigEndian_iff_fieldValue.trans field.fieldValue_eq_ofBE_iff,
    field.acceptsAlike_iff⟩

/-- The length of a payload of 256 bytes, on a big-endian host. -/
theorem readsBigEndian_counterexample :
    ¬ ReadsBigEndian ⟨126, [1, 0], by decide, by decide⟩ .big := by
  intro h
  obtain ⟨state, out, hparse, hvalue, -⟩ := h (.new #v[0, 0, 0, 0]) 0x82
  have hout : parse .big .finOpcode (.new #v[0, 0, 0, 0]) [0x82, 126, 1, 0] =
      (.indeterminate, (.payload, { DataFrame.new #v[0, 0, 0, 0] with
        opcode := .binaryFrame, payloadLen := 126, extendedPayloadLen16 := 1 }), []) := by
    decide
  have hsame := congrArg (fun p => p.2.1.2.extendedPayloadLen16) (hparse.symm.trans hout)
  replace hsame : out.extendedPayloadLen16 = 1 := hsame
  have hbe : ofBE [1, 0] = 256 := by decide
  simp [valueIn, hsame, hbe, low7] at hvalue

end LengthField

end Splice

import Splice.DataFrameParser

/-!
# Splice.FrameBody

Exactly which bytes `data_frame_parser` accepts.  A `FrameBody` is what may follow
the first byte of a frame on the wire: the length byte, the extended length, the
masking key and the payload bytes, with the sizes tied together as the parser
ties them.  `parse_body` and `exists_body_of_parse` say that the parser answers
*true* on these and on nothing else, and `FrameBody.Read` what it has then put
into the frame.

Two things are visible in the structure that no wire format asks for: a zero
length ends the frame before its masking key (`keyLength`), and a big-endian host
reads an extended length backwards (`Endian.fieldValue`).
-/

namespace Splice

open Incremental

namespace DataFrameParser

/-- The number of extended length bytes that `len` announces. -/
def extLength (len : UInt8) : Nat :=
  if low7 len = 126 then 2 else if low7 len = 127 then 8 else 0

/-- The number of masking key bytes that the parser reads after `len`. -/
def keyLength (len : UInt8) : Nat := if topBit len = true ∧ low7 len ≠ 0 then 4 else 0

/-- The payload size that the parser reads off the length fields. -/
def wireSize (host : Endian) (len : UInt8) (ext : List UInt8) : Nat :=
  if low7 len = 126 ∨ low7 len = 127 then host.fieldValue ext else low7 len

/-- The key that the payload is unmasked with: the one on the wire, or what the
frame's `masking_key_` held before. -/
def usedKey (junk : MaskingKey) : List UInt8 → MaskingKey
  | [k0, k1, k2, k3] => #v[k0, k1, k2, k3]
  | _ => junk

/-- What the parser accepts after the first byte of a frame. -/
structure FrameBody (host : Endian) where
  len : UInt8
  ext : List UInt8
  key : List UInt8
  data : List UInt8
  length_ext : ext.length = extLength len
  length_key : key.length = keyLength len
  length_data : data.length = wireSize host len ext
  data_ne_nil : low7 len ≠ 0 → data ≠ []

namespace FrameBody

variable {host : Endian}

/-- The bytes of a frame body. -/
def bytes (body : FrameBody host) : List UInt8 :=
  body.len :: body.ext ++ body.key ++ body.data

/-- The length of what is behind the first byte. -/
theorem length_bytes (body : FrameBody host) :
    body.bytes.length = 1 + extLength body.len + keyLength body.len + body.data.length := by
  simp only [bytes, List.length_append, List.length_cons, body.length_ext, body.length_key]
  omega

/-- The length fields of a body can be told from its bytes. -/
theorem eq_of_bytes_append (body : FrameBody host) {len : UInt8} {ext tail rest : List UInt8}
    (hext : ext.length = extLength len) (h : body.bytes ++ rest = len :: ext ++ tail) :
    body.len = len ∧ body.ext = ext ∧ body.key ++ body.data ++ rest = tail := by
  simp only [bytes, List.cons_append, List.append_assoc, List.cons.injEq] at h
  obtain ⟨hlen, happ⟩ := h
  have hsame : body.ext.length = ext.length := by rw [body.length_ext, hext, hlen]
  obtain ⟨hexteq, htail⟩ := List.append_inj happ hsame
  exact ⟨hlen, hexteq, by rw [List.append_assoc]; exact htail⟩

/-- `out` is `frame` with the body read into it. -/
structure Read (body : FrameBody host) (frame out : DataFrame) : Prop where
  fin : out.fin = frame.fin
  opcode : out.opcode = frame.opcode
  mask : out.mask = topBit body.len
  payload : out.payload = unmask (usedKey frame.maskingKey body.key) 0 body.data

theorem Read.length_payload {body : FrameBody host} {frame out : DataFrame}
    (h : body.Read frame out) : out.payload.length = body.data.length := by
  rw [h.payload, length_unmask]

end FrameBody

/-! ## Key and payload -/

/-- Four bytes in front of a text that is long enough. -/
theorem exists_four_cons {bs : List UInt8} (h : 4 ≤ bs.length) :
    ∃ k0 k1 k2 k3 tail, bs = k0 :: k1 :: k2 :: k3 :: tail := by
  match bs, h with
  | k0 :: k1 :: k2 :: k3 :: tail, _ => exact ⟨k0, k1, k2, k3, tail, rfl⟩

/-- From the end of the length fields: key, then payload. -/
theorem parse_afterLength (host : Endian) {frame : DataFrame} (hp : frame.payload = [])
    {key data : List UInt8} (hkey : key.length = if frame.mask then 4 else 0)
    (hdata : data.length = declaredSize frame) (hne : data ≠ []) (rest : List UInt8) :
    ∃ out, parse host (afterLength frame) frame (key ++ data ++ rest) =
        (.true, (.payload, out), rest) ∧
      out.fin = frame.fin ∧ out.opcode = frame.opcode ∧ out.mask = frame.mask ∧
      out.payload = unmask (usedKey frame.maskingKey key) 0 data := by
  cases hm : frame.mask with
  | false =>
      have hnil : key = [] := List.length_eq_zero_iff.mp (by simpa [hm] using hkey)
      subst hnil
      have hsize : frame.payload.length + data.length = declaredSize frame := by simp [hp, hdata]
      have h := parse_payload host hsize hne rest
      refine ⟨withPayload frame data, ?_, rfl, rfl, hm, ?_⟩
      · simpa [afterLength, hm] using h
      · simp [withPayload, hp, usedKey]
  | true =>
      rw [hm, if_pos rfl] at hkey
      obtain ⟨k0, k1, k2, k3, tail, rfl⟩ := exists_four_cons (Nat.le_of_eq hkey.symm)
      obtain rfl : tail = [] := by simpa using hkey
      let keyed := { frame with maskingKey := #v[k0, k1, k2, k3] }
      have hsize : keyed.payload.length + data.length = declaredSize keyed := by
        rw [show keyed.payload = [] from hp, List.length_nil, Nat.zero_add, hdata]
        rfl
      have hk := parse_maskingKey host frame k0 k1 k2 k3 (data ++ rest)
      have h := hk.trans (parse_payload host hsize hne rest)
      refine ⟨withPayload keyed data, ?_, rfl, rfl, hm, ?_⟩
      · simpa [afterLength, hm] using h
      · simp [withPayload, keyed, hp, usedKey]

/-- A masking key cut short is no frame yet. -/
theorem parse_maskingKey_short (host : Endian) (frame : DataFrame) {bs : List UInt8}
    (h : bs.length < 4) : (parse host .maskingKey1 frame bs).1 = .indeterminate := by
  match bs, h with
  | [], _ | [_], _ | [_, _], _ | [_, _, _], _ => rfl

/-- State `payload` accepts exactly the declared number of bytes. -/
theorem exists_payload_of_parse (host : Endian) {frame : DataFrame} (hp : frame.payload = [])
    {bs rest : List UInt8} {s : State × DataFrame}
    (h : parse host .payload frame bs = (.true, s, rest)) :
    ∃ data, bs = data ++ rest ∧ data.length = declaredSize frame ∧ data ≠ [] := by
  by_cases hsize : 0 < declaredSize frame ∧ declaredSize frame ≤ bs.length
  · have hlen : (bs.take (declaredSize frame)).length = declaredSize frame := by
      rw [List.length_take]; omega
    have hne : bs.take (declaredSize frame) ≠ [] := by
      intro hnil
      rw [hnil, List.length_nil] at hlen
      omega
    have hdeclared : frame.payload.length + (bs.take (declaredSize frame)).length =
        declaredSize frame := by simp [hp, hlen]
    have hfull := parse_payload host hdeclared hne (bs.drop (declaredSize frame))
    rw [List.take_append_drop, h] at hfull
    have hrest : rest = bs.drop (declaredSize frame) := congrArg (fun p => p.2.2) hfull
    exact ⟨_, by rw [hrest, List.take_append_drop], hlen, hne⟩
  · have hshort : frame.payload.length + bs.length < declaredSize frame ∨
        declaredSize frame ≤ frame.payload.length := by
      simp only [hp, List.length_nil]
      omega
    have hind := parse_payload_indeterminate host hshort
    rw [h] at hind
    exact absurd (congrArg Prod.fst hind) (by simp)

/-- Behind the length come the key, if there is one, and as many bytes of data as it says. -/
theorem exists_key_payload_of_parse (host : Endian) {frame : DataFrame} (hp : frame.payload = [])
    {bs rest : List UInt8} {s : State × DataFrame}
    (h : parse host (afterLength frame) frame bs = (.true, s, rest)) :
    ∃ key data, bs = key ++ data ++ rest ∧ key.length = (if frame.mask then 4 else 0) ∧
      data.length = declaredSize frame ∧ data ≠ [] := by
  cases hm : frame.mask with
  | false =>
      rw [afterLength, hm] at h
      obtain ⟨data, hbs, hlen, hne⟩ := exists_payload_of_parse host hp h
      exact ⟨[], data, by simpa using hbs, by simp, hlen, hne⟩
  | true =>
      rw [afterLength, hm, if_pos rfl] at h
      by_cases hshort : bs.length < 4
      · have hind := parse_maskingKey_short host frame hshort
        rw [h] at hind
        exact absurd hind (by simp)
      · obtain ⟨k0, k1, k2, k3, tail, rfl⟩ := exists_four_cons (Nat.le_of_not_lt hshort)
        rw [parse_maskingKey] at h
        obtain ⟨data, hbs, hlen, hne⟩ := exists_payload_of_parse host (by exact hp) h
        exact ⟨[k0, k1, k2, k3], data, by rw [hbs]; simp, by simp, hlen, hne⟩

/-! ## Length fields -/

/-- The frame once the length byte and the extended length have been read. -/
def withLength (host : Endian) (frame : DataFrame) (len : UInt8) (ext : List UInt8) : DataFrame :=
  match ext with
  | [e0, e1] =>
      { withLen frame len with extendedPayloadLen16 := ntoh16 host (word16 e0 e1) }
  | [e0, e1, e2, e3, e4, e5, e6, e7] =>
      { withLen frame len with
        extendedPayloadLen64 := ntoh64 host (word64 e0 e1 e2 e3 e4 e5 e6 e7) }
  | _ => withLen frame len

/-- Extended length bytes come in three sizes. -/
theorem ext_cases {len : UInt8} {ext : List UInt8} (h : ext.length = extLength len) :
    (low7 len = 126 ∧ ∃ e0 e1, ext = [e0, e1]) ∨
    (low7 len = 127 ∧ ∃ e0 e1 e2 e3 e4 e5 e6 e7, ext = [e0, e1, e2, e3, e4, e5, e6, e7]) ∨
    (low7 len ≠ 126 ∧ low7 len ≠ 127 ∧ ext = []) := by
  unfold extLength at h
  split_ifs at h with h126 h127
  · match ext, h with
    | [e0, e1], _ => exact .inl ⟨h126, e0, e1, rfl⟩
  · match ext, h with
    | [e0, e1, e2, e3, e4, e5, e6, e7], _ =>
        exact .inr (.inl ⟨h127, e0, e1, e2, e3, e4, e5, e6, e7, rfl⟩)
  · exact .inr (.inr ⟨h126, h127, List.length_eq_zero_iff.mp h⟩)

/-- The length fields decide what `payload` waits for. -/
theorem declaredSize_withLength (host : Endian) (frame : DataFrame) {len : UInt8}
    {ext : List UInt8} (h : ext.length = extLength len) :
    declaredSize (withLength host frame len ext) = wireSize host len ext := by
  obtain ⟨-, h126, h127, hsmall⟩ := payloadLenOf_eq len
  rcases ext_cases h with ⟨hl, e0, e1, rfl⟩ | ⟨hl, e0, e1, e2, e3, e4, e5, e6, e7, rfl⟩ |
    ⟨hl, hl', rfl⟩
  · rw [hl] at h126 h127
    simp [withLength, declaredSize, withLen, h126, h127, hl, wireSize, toNat_ntoh16_word16]
  · simp [withLength, declaredSize, withLen, h127, hl, wireSize, toNat_ntoh64_word64]
  · simp [withLength, declaredSize, withLen, h126, h127, hl, hl', wireSize, hsmall]

/-- The length fields leave the other members as they are. -/
theorem withLength_eq (host : Endian) (frame : DataFrame) (len : UInt8) (ext : List UInt8) :
    (withLength host frame len ext).mask = topBit len ∧
    (withLength host frame len ext).fin = frame.fin ∧
    (withLength host frame len ext).opcode = frame.opcode ∧
    (withLength host frame len ext).payload = frame.payload ∧
    (withLength host frame len ext).maskingKey = frame.maskingKey := by
  unfold withLength
  split <;> exact ⟨rfl, rfl, rfl, rfl, rfl⟩

/-- The parser runs over a non-zero length byte and its extended length. -/
theorem parse_length (host : Endian) (frame : DataFrame) {len : UInt8} {ext : List UInt8}
    (hz : low7 len ≠ 0) (h : ext.length = extLength len) (bs : List UInt8) :
    parse host .maskPayloadLen frame (len :: ext ++ bs) =
      parse host (afterLength (withLength host frame len ext)) (withLength host frame len ext)
        bs := by
  rw [List.cons_append, parse_maskPayloadLen, if_neg hz]
  rcases ext_cases h with ⟨hl, e0, e1, rfl⟩ | ⟨hl, e0, e1, e2, e3, e4, e5, e6, e7, rfl⟩ |
    ⟨hl, hl', rfl⟩
  · have hlen := payloadLen_withLen_126 frame hl
    rw [if_pos (.inl hl)]
    exact parse_extended16 host hlen e0 e1 bs
  · have hlen := payloadLen_withLen_127 frame hl
    rw [if_pos (.inr hl)]
    exact parse_extended64 host hlen e0 e1 e2 e3 e4 e5 e6 e7 bs
  · rw [if_neg (by omega)]
    rfl

/-- With one byte of extended length missing the parser asks for more. -/
theorem parse_extended16_short (host : Endian) {frame : DataFrame} {bs : List UInt8}
    (hlen : frame.payloadLen = 126) (h : bs.length < 2) :
    (parse host .extendedPayloadLen1 frame bs).1 = .indeterminate := by
  match bs, h with
  | [], _ => rfl
  | [_], _ => simp [parse, Incremental.parse, consume, hlen]

/-- So it does with fewer than eight. -/
theorem parse_extended64_short (host : Endian) {frame : DataFrame} {bs : List UInt8}
    (hlen : frame.payloadLen = 127) (h : bs.length < 8) :
    (parse host .extendedPayloadLen1 frame bs).1 = .indeterminate := by
  match bs, h with
  | [], _ => rfl
  | [_], _ | [_, _], _ | [_, _, _], _ | [_, _, _, _], _ | [_, _, _, _, _], _
  | [_, _, _, _, _, _], _ | [_, _, _, _, _, _, _], _ =>
      simp [parse, Incremental.parse, consume, hlen, orExtended]

/-- An extended length cut short is no frame yet. -/
theorem parse_extended_short (host : Endian) (frame : DataFrame) {len : UInt8} {bs : List UInt8}
    (hl : low7 len = 126 ∨ low7 len = 127) (h : bs.length < extLength len) :
    (parse host .extendedPayloadLen1 (withLen frame len) bs).1 = .indeterminate := by
  rcases hl with hl | hl
  · exact parse_extended16_short host (payloadLen_withLen_126 frame hl)
      (by simpa [extLength, hl] using h)
  · exact parse_extended64_short host (payloadLen_withLen_127 frame hl)
      (by simpa [extLength, hl] using h)

/-! ## The whole body -/

/-- The parser reads a frame body to its last byte and answers *true*. -/
theorem parse_body {host : Endian} (body : FrameBody host) {frame : DataFrame}
    (hp : frame.payload = []) (rest : List UInt8) :
    ∃ state out, parse host .maskPayloadLen frame (body.bytes ++ rest) =
      (.true, (state, out), rest) ∧ body.Read frame out := by
  by_cases hz : low7 body.len = 0
  · have hext : body.ext = [] :=
      List.length_eq_zero_iff.mp (by rw [body.length_ext]; simp [extLength, hz])
    have hkey : body.key = [] :=
      List.length_eq_zero_iff.mp (by rw [body.length_key]; simp [keyLength, hz])
    have hdata : body.data = [] :=
      List.length_eq_zero_iff.mp (by rw [body.length_data]; simp [wireSize, hz])
    refine ⟨.maskPayloadLen, withLen frame body.len, ?_, ⟨rfl, rfl, rfl, ?_⟩⟩
    · simp only [FrameBody.bytes, hext, hkey, hdata, List.append_nil, List.cons_append,
        List.nil_append, parse_maskPayloadLen, if_pos hz]
    · rw [hdata]
      exact hp
  · obtain ⟨hmask, hfin, hopcode, hpayload, hmk⟩ :=
      withLength_eq host frame body.len body.ext
    have hkey : body.key.length =
        if (withLength host frame body.len body.ext).mask then 4 else 0 := by
      rw [hmask, body.length_key]
      simp [keyLength, hz]
    have hsize : body.data.length = declaredSize (withLength host frame body.len body.ext) := by
      rw [declaredSize_withLength host frame body.length_ext, body.length_data]
    obtain ⟨out, hparse, ofin, oopcode, omask, opayload⟩ := parse_afterLength host
      (hpayload.trans hp) hkey hsize (body.data_ne_nil hz) rest
    refine ⟨.payload, out, ?_, ⟨ofin.trans hfin, oopcode.trans hopcode, omask.trans hmask, ?_⟩⟩
    · have hlen := parse_length host frame hz body.length_ext (body.key ++ body.data ++ rest)
      rw [FrameBody.bytes, show body.len :: body.ext ++ body.key ++ body.data ++ rest =
        body.len :: body.ext ++ (body.key ++ body.data ++ rest) by simp, hlen]
      exact hparse
    · rw [opayload, hmk]

/-- **The parser accepts nothing else**: where it answers *true*, what it has read
is a frame body. -/
theorem exists_body_of_parse (host : Endian) {frame : DataFrame} (hp : frame.payload = [])
    {bs rest : List UInt8} {s : State × DataFrame}
    (h : parse host .maskPayloadLen frame bs = (.true, s, rest)) :
    ∃ body : FrameBody host, bs = body.bytes ++ rest := by
  match bs, h with
  | [], h => exact absurd (congrArg Prod.fst h) (by simp)
  | len :: tail, h =>
      by_cases hz : low7 len = 0
      · rw [parse_maskPayloadLen, if_pos hz] at h
        have hrest : tail = rest := congrArg (fun p => p.2.2) h
        refine ⟨⟨len, [], [], [], ?_, ?_, ?_, fun hne => absurd hz hne⟩, ?_⟩
        · simp [extLength, hz]
        · simp [keyLength, hz]
        · simp [wireSize, hz]
        · simp [FrameBody.bytes, hrest]
      · by_cases hshort : tail.length < extLength len
        · have hl : low7 len = 126 ∨ low7 len = 127 := by
            unfold extLength at hshort
            split_ifs at hshort <;> omega
          rw [parse_maskPayloadLen, if_neg hz, if_pos hl] at h
          have hind := parse_extended_short host frame hl hshort
          rw [h] at hind
          exact absurd hind (by simp)
        · have hext : (tail.take (extLength len)).length = extLength len := by
            rw [List.length_take]; omega
          have hsplit : len :: tail =
              len :: tail.take (extLength len) ++ tail.drop (extLength len) := by
            rw [List.cons_append, List.take_append_drop]
          rw [hsplit, parse_length host frame hz hext] at h
          obtain ⟨hmask, -, -, hpayload, -⟩ :=
            withLength_eq host frame len (tail.take (extLength len))
          obtain ⟨key, data, hbs, hkey, hdata, hne⟩ :=
            exists_key_payload_of_parse host (hpayload.trans hp) h
          refine ⟨⟨len, tail.take (extLength len), key, data, hext, ?_, ?_, fun _ => hne⟩, ?_⟩
          · rw [hkey, hmask]
            simp [keyLength, hz]
          · rw [hdata, declaredSize_withLength host frame hext]
          · rw [hsplit, hbs]
            simp [FrameBody.bytes]

/-- What a call that answers *true* has read, and what it made of it. -/
theorem exists_read_of_parse {host : Endian} {frame out : DataFrame} {state : State}
    {bs rest : List UInt8} (hp : frame.payload = [])
    (h : parse host .maskPayloadLen frame bs = (.true, (state, out), rest)) :
    ∃ body : FrameBody host, bs = body.bytes ++ rest ∧ body.Read frame out := by
  obtain ⟨body, hbs⟩ := exists_body_of_parse host hp h
  obtain ⟨state', out', hparse, hread⟩ := parse_body body hp rest
  rw [hbs, hparse] at h
  have hout : out' = out := congrArg (fun p => p.2.1.2) h
  exact ⟨body, hbs, hout ▸ hread⟩

/-- The same for a call on a fresh parser: a first byte, then a body. -/
theorem exists_read_of_parse_finOpcode {host : Endian} {frame out : DataFrame} {state : State}
    {bs rest : List UInt8} (hp : frame.payload = [])
    (h : parse host .finOpcode frame bs = (.true, (state, out), rest)) :
    ∃ (b : UInt8) (body : FrameBody host), bs = b :: body.bytes ++ rest ∧
      body.Read (withHead frame b) out := by
  match bs, h with
  | [], h => exact absurd (congrArg Prod.fst h) (by simp)
  | b :: bs, h =>
      rw [parse_finOpcode] at h
      obtain ⟨body, hbs, hread⟩ := exists_read_of_parse (by exact hp) h
      exact ⟨b, body, by rw [hbs]; rfl, hread⟩

end DataFrameParser

end Splice

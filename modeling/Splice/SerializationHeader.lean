import Splice.Serialization

/-!
# Splice.SerializationHeader

The 8-byte header in front of an archive.  What `async_write` puts into it,
`on_read_header` reads back for every size below 2 ^ 32, and from there on nothing is
written (`headerRoundTrips`).  The other way round `on_read_header` takes more than
`async_write` writes: signs, `0x`, upper case, zeros in front, and whatever stands behind
the digits (`judgesHeader_iff`).  A number with a minus in front is neither read nor refused
(`onReadHeader_of_minus`), so that no header starts a read of 2 ^ 32 bytes or more
(`lt_of_onReadHeader`).
-/

namespace Splice

open HexStream

namespace Serialization

variable {μ : Type}

/-- `async_write` of one class and `on_read_header` agree on the size of a message, and a
message whose size does not fit the header is not written. -/
structure HeaderRoundTrips
    (asyncWrite : (μ → List UInt8) → μ → Except ErrorCode (List (List UInt8)))
    (onReadHeader : List UInt8 → ErrorCode → Nat → List (Call μ))
    (archive : μ → List UInt8) (msg : μ) : Prop where
  reads : (archive msg).length < 2 ^ 32 → ∃ header, header.length = headerLength ∧
    asyncWrite archive msg = .ok [header, archive msg] ∧
    onReadHeader header 0 headerLength = [.asyncReadSome (archive msg).length .onReadData]
  refuses : 2 ^ 32 ≤ (archive msg).length → asyncWrite archive msg = .error invalidArgument

/-- The class's `async_write`. -/
def Receiver.asyncWrite : Receiver → (μ → List UInt8) → μ → Except ErrorCode (List (List UInt8))
  | .session => SerializationSession.asyncWrite
  | .engine => SerializationEngine.asyncWriteStruct

/-- The class's `on_read_header`. -/
def Receiver.onReadHeader : Receiver → List UInt8 → ErrorCode → Nat → List (Call μ)
  | .session => SerializationSession.onReadHeader
  | .engine => SerializationEngine.onReadHeader

/-- The header is one that `async_write` puts in front of an archive, and the read of that
archive is started; or it is refused. -/
def JudgesHeader (μ : Type) (receiver : Receiver) (header : List UInt8) : Prop :=
  (∃ data : List UInt8, data.length < 2 ^ 32 ∧ receiver.asyncWrite id data = .ok [header, data] ∧
    (receiver.onReadHeader header 0 headerLength : List (Call μ)) =
      [.asyncReadSome data.length .onReadData]) ∨
  (receiver.onReadHeader header 0 headerLength : List (Call μ)) = [.onErrorCode invalidArgument]

/-- Blanks, and lower-case hexadecimal digits without a redundant zero in front. -/
def IsHeader (header : List UInt8) : Prop :=
  ∃ blanks numeral, IsNumeral numeral ∧ header = List.replicate blanks 32 ++ numeral

/-- After white space, an optional sign and an optional `0x` comes no hexadecimal digit. -/
def HasNoNumber (header : List UInt8) : Prop :=
  ∀ b ∈ (numeralPart header).head?, digitValue b = none

/-! ## The writer -/

variable {receiver : Receiver} {archive : μ → List UInt8} {msg : μ} {header : List UInt8}

theorem asyncWrite_eq : receiver.asyncWrite archive msg = writeBuffers archive msg := by
  cases receiver <;> rfl

/-- The field that a size is written to. -/
def sizeField (size : Nat) : List UInt8 := setw headerLength (format size)

/-- A size fits its field exactly if it is below 2^32. -/
theorem length_sizeField_iff (size : Nat) :
    (sizeField size).length = headerLength ↔ size < 2 ^ 32 := by
  have hpow : (16 : Nat) ^ headerLength = 2 ^ 32 := by decide
  rw [sizeField, length_setw_format (by decide), hpow]

/-- An archive below 2^32 bytes is written behind its header. -/
theorem writeBuffers_of_lt (h : (archive msg).length < 2 ^ 32) :
    writeBuffers archive msg = .ok [sizeField (archive msg).length, archive msg] := by
  have hlen := (length_sizeField_iff _).mpr h
  rw [sizeField] at hlen
  simp [writeBuffers, sizeField, hlen]

/-- A longer one is refused. -/
theorem writeBuffers_of_ge (h : 2 ^ 32 ≤ (archive msg).length) :
    writeBuffers archive msg = .error invalidArgument := by
  have hlen : (sizeField (archive msg).length).length ≠ headerLength := by
    rw [ne_eq, length_sizeField_iff]
    omega
  rw [sizeField] at hlen
  simp [writeBuffers, hlen]

/-- The headers of 8 bytes that are written. -/
theorem isHeader_iff (hlen : header.length = headerLength) :
    IsHeader header ↔ ∃ size < 2 ^ 32, sizeField size = header := by
  rw [IsHeader, ← exists_setw_format_iff hlen]
  constructor
  · rintro ⟨size, rfl⟩
    exact ⟨size, (length_sizeField_iff size).mp hlen, rfl⟩
  · rintro ⟨size, -, hsize⟩
    exact ⟨size, hsize⟩

/-! ## The reader -/

/-- Both classes read a header in the same way. -/
theorem onReadHeader_eq :
    (receiver.onReadHeader header 0 headerLength : List (Call μ)) =
      match extract 64 header with
      | none => [.onErrorCode invalidArgument]
      | some size =>
          if maxSize < size then [.lengthError] else [.asyncReadSome size .onReadData] := by
  cases receiver <;> rfl

/-- A header that was written starts the read of its archive. -/
theorem onReadHeader_sizeField {size : Nat} (h : size < 2 ^ 32) :
    (receiver.onReadHeader (sizeField size) 0 headerLength : List (Call μ)) =
      [.asyncReadSome size .onReadData] := by
  rw [onReadHeader_eq, sizeField, extract_setw_format (by omega)]
  exact if_neg (not_maxSize_lt h)

/-- A header is refused exactly if it has no number in front. -/
theorem onReadHeader_error_iff (hlen : header.length = headerLength) :
    (receiver.onReadHeader header 0 headerLength : List (Call μ)) =
      [.onErrorCode invalidArgument] ↔ HasNoNumber header := by
  have hfits : 16 ^ header.length ≤ 2 ^ 64 := by
    rw [hlen]
    decide
  rw [HasNoNumber, ← extract_eq_none_iff hfits, onReadHeader_eq]
  cases extract 64 header with
  | none => simp
  | some size => by_cases hsize : maxSize < size <;> simp [hsize]

/-- Eight digits denote a size below 2 ^ 32. -/
theorem lt_of_number (hlen : header.length = headerLength) {negative : Bool} {size : Nat}
    (hnumber : number header = some (negative, size)) : size < 2 ^ 32 := by
  have hlt := number_lt hnumber
  rwa [hlen, show (16 : Nat) ^ headerLength = 2 ^ 32 by decide] at hlt

/-- A negative number is taken modulo 2^64. -/
theorem extract_of_number (hlen : header.length = headerLength) {negative : Bool} {size : Nat}
    (hnumber : number header = some (negative, size)) :
    extract 64 header = some (if negative then (2 ^ 64 - size) % 2 ^ 64 else size) := by
  have hsize : size < 2 ^ 64 := (lt_of_number hlen hnumber).trans (by decide)
  simp only [extract, hnumber, hsize, if_true]

/-- A minus in front of a number: it wraps around 2 ^ 64, and what should hold the archive
cannot be constructed. -/
theorem onReadHeader_of_minus (hlen : header.length = headerLength) {size : Nat}
    (hnumber : number header = some (true, size)) (hsize : 0 < size) :
    (receiver.onReadHeader header 0 headerLength : List (Call μ)) = [.lengthError] := by
  have hlt := lt_of_number hlen hnumber
  have hmod : (2 ^ 64 - size) % 2 ^ 64 = 2 ^ 64 - size := Nat.mod_eq_of_lt (by omega)
  have hmax : maxSize < 2 ^ 64 - size := by
    rw [maxSize]
    omega
  rw [onReadHeader_eq, extract_of_number hlen hnumber, if_pos rfl, hmod]
  exact if_pos hmax

/-- **No header starts a read of 2 ^ 32 bytes or more.** -/
theorem lt_of_onReadHeader (hlen : header.length = headerLength) {size : Nat} {handler : Handler}
    (hread : .asyncReadSome size handler ∈
      (receiver.onReadHeader header 0 headerLength : List (Call μ))) : size < 2 ^ 32 := by
  cases hnumber : number header with
  | none =>
      rw [onReadHeader_eq, extract, hnumber] at hread
      simp at hread
  | some signed =>
      obtain ⟨negative, n⟩ := signed
      have hlt := lt_of_number hlen hnumber
      cases negative with
      | false =>
          rw [onReadHeader_eq, extract_of_number hlen hnumber] at hread
          simp only [Bool.false_eq_true, if_false, not_maxSize_lt hlt, List.mem_singleton] at hread
          obtain ⟨rfl, -⟩ := Call.asyncReadSome.inj hread
          exact hlt
      | true =>
          rcases Nat.eq_zero_or_pos n with rfl | hpos
          · -- minus zero is zero
            rw [onReadHeader_eq, extract_of_number hlen hnumber] at hread
            simp only [Nat.sub_zero, Nat.mod_self, if_true, not_maxSize_lt hlt, if_false,
              List.mem_singleton] at hread
            obtain ⟨rfl, -⟩ := Call.asyncReadSome.inj hread
            exact hlt
          · rw [onReadHeader_of_minus hlen hnumber hpos] at hread
            simp at hread

/-! ## Both -/

/-- **Headers are read back** by each of the two classes. -/
theorem headerRoundTrips_receiver (receiver : Receiver) (archive : μ → List UInt8) (msg : μ) :
    HeaderRoundTrips receiver.asyncWrite receiver.onReadHeader archive msg where
  reads h := by
    refine ⟨sizeField (archive msg).length, (length_sizeField_iff _).mpr h, ?_,
      onReadHeader_sizeField h⟩
    rw [asyncWrite_eq, writeBuffers_of_lt h]
  refuses h := by rw [asyncWrite_eq, writeBuffers_of_ge h]

/-- **The header round-trips** over its whole range, in both classes. -/
theorem headerRoundTrips (archive : μ → List UInt8) (msg : μ) :
    HeaderRoundTrips SerializationSession.asyncWrite SerializationSession.onReadHeader
        archive msg ∧
      HeaderRoundTrips SerializationEngine.asyncWriteStruct SerializationEngine.onReadHeader
        archive msg :=
  ⟨headerRoundTrips_receiver .session archive msg, headerRoundTrips_receiver .engine archive msg⟩

/-- **Which headers are judged right**: those that are written, and those without a number
to read. -/
theorem judgesHeader_iff (μ : Type) (receiver : Receiver) (header : List UInt8)
    (hlen : header.length = headerLength) :
    JudgesHeader μ receiver header ↔ IsHeader header ∨ HasNoNumber header := by
  rw [JudgesHeader, onReadHeader_error_iff hlen, isHeader_iff hlen]
  refine or_congr_left ⟨?_, ?_⟩
  · rintro ⟨data, hdata, hwrite, -⟩
    rw [asyncWrite_eq, writeBuffers_of_lt hdata] at hwrite
    exact ⟨data.length, hdata, (List.cons.inj (Except.ok.inj hwrite)).1⟩
  · rintro ⟨size, hsize, rfl⟩
    have hdata : (List.replicate size (0 : UInt8)).length = size := List.length_replicate
    refine ⟨List.replicate size 0, by rwa [hdata], ?_, ?_⟩
    · rw [asyncWrite_eq, writeBuffers_of_lt (by rwa [id, hdata]), id, hdata]
    · rw [hdata, onReadHeader_sizeField hsize]

/-- The header of an archive of 34 bytes. -/
theorem judgesHeader_iff_hello :
    JudgesHeader Unit .session (chars "      22") ↔
      IsHeader (chars "      22") ∨ HasNoNumber (chars "      22") :=
  judgesHeader_iff Unit .session (chars "      22") (by decide)

/-- Digits with something behind them: a read of 16 bytes is started. -/
theorem judgesHeader_counterexample :
    (chars "10 junk!").length = headerLength ∧
      (Receiver.session.onReadHeader (chars "10 junk!") 0 headerLength : List (Call Unit)) =
        [.asyncReadSome 16 .onReadData] ∧
      ¬ JudgesHeader Unit .session (chars "10 junk!") := by
  have hread : (Receiver.session.onReadHeader (chars "10 junk!") 0 headerLength :
      List (Call Unit)) = [.asyncReadSome 16 .onReadData] := by decide
  refine ⟨by decide, hread, ?_⟩
  rintro (⟨data, hdata, hwrite, hcalls⟩ | hcalls)
  · rw [hread] at hcalls
    have hsize : 16 = data.length := by simpa using hcalls
    rw [asyncWrite_eq, writeBuffers_of_lt hdata, id, ← hsize] at hwrite
    have hheader : sizeField 16 = chars "10 junk!" := (List.cons.inj (Except.ok.inj hwrite)).1
    exact absurd hheader (by decide +kernel)
  · rw [hread] at hcalls
    simp at hcalls

end Serialization

end Splice

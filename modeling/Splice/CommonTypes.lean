/-!
# Splice.CommonTypes

`common_types.hpp`, and the texts of the source as bytes.
-/

namespace Splice

/-- The characters of a string literal. -/
def chars (text : String) : List UInt8 := text.toUTF8.data.toList

/-- What holds of all 256 bytes. -/
theorem forall_uInt8 {P : UInt8 → Prop} (h : ∀ n : Fin 256, P (UInt8.ofFin n)) (b : UInt8) : P b :=
  h b.toFin

/-- `std::string::find` of a non-empty pattern: whether it occurs. -/
def contains (pattern : List UInt8) : List UInt8 → Bool
  | [] => false
  | b :: text => pattern.isPrefixOf (b :: text) || contains pattern text

/-- A search finds the pattern exactly if it is a part of the text. -/
theorem contains_iff {pattern text : List UInt8} (h : pattern ≠ []) :
    contains pattern text ↔ pattern <:+: text := by
  induction text with
  | nil => simp [contains, h]
  | cons b text ih => simp [contains, List.infix_cons_iff, ih]

/-- The value of a `boost::system::error_code`; zero is success. -/
abbrev ErrorCode := Nat

/-- `hand_shake_t`. -/
inductive HandShake where
  | http
  | webSocket
  | wsGuid
  | none
  deriving DecidableEq, Repr

/-! ## Shared buffers -/

/-- `incoming_data_t`. -/
structure IncomingData where
  data : List UInt8
  length_data : data.length = 8192
  deriving DecidableEq, Repr

namespace IncomingData

/-- A newly made buffer. -/
def zero : IncomingData := ⟨List.replicate 8192 0, List.length_replicate⟩

/-- Copy bytes to the front of a buffer. -/
def fill (buffer : IncomingData) (bytes : List UInt8) : IncomingData where
  data := (bytes ++ buffer.data.drop bytes.length).take 8192
  length_data := by
    have hlen := buffer.length_data
    rw [List.length_take, List.length_append, List.length_drop]
    omega

/-- The first bytes of a buffer. -/
def front (buffer : IncomingData) (size : Nat) : List UInt8 := buffer.data.take size

/-- What is copied to a buffer it fits in can be read from its front. -/
theorem front_fill (buffer : IncomingData) {bytes : List UInt8} (h : bytes.length ≤ 8192) :
    (buffer.fill bytes).front bytes.length = bytes := by
  rw [front, fill, List.take_take, Nat.min_eq_left h, List.take_left]

end IncomingData

/-- The buffers made so far; an `incoming_data_ptr` is the position of one. -/
abbrev Store := List IncomingData

namespace Store

def mkIncomingData (store : Store) : Nat × Store := (store.length, store ++ [.zero])

/-- The first bytes of the buffer that a pointer points to. -/
def front (store : Store) (ptr size : Nat) : List UInt8 := (store.getD ptr .zero).front size

/-- Copy bytes to the buffer that a pointer points to. -/
def fill (store : Store) (ptr : Nat) (bytes : List UInt8) : Store :=
  store.set ptr ((store.getD ptr .zero).fill bytes)

theorem front_fill (store : Store) {ptr : Nat} {bytes : List UInt8} (hptr : ptr < store.length)
    (h : bytes.length ≤ 8192) : (store.fill ptr bytes).front ptr bytes.length = bytes := by
  rw [front, fill, List.getD_eq_getElem?_getD, List.getElem?_set_self hptr, Option.getD_some,
    IncomingData.front_fill _ h]

end Store

/-- `hand_shake_data_t`. -/
structure HandShakeData where
  tag : HandShake
  data : Nat
  size : Nat
  deriving DecidableEq, Repr

/-- `hand_shake_data_t::string`. -/
def HandShakeData.string (store : Store) (incoming : HandShakeData) : List UInt8 :=
  store.front incoming.data incoming.size

end Splice

import Mathlib.Tactic

/-!
# String pieces

A `StringPiece` is a pointer and a length, and the length is an `int`. Where it becomes a `size_t`
its sign is extended: a length below `2 ^ 31` comes through unchanged, and any other is a number
above `2 ^ 63`.
-/

namespace Fishnet

/-- `StringPiece`. A pointer is the list of the bytes from it to the end of its block. -/
structure StringPiece where
  /-- `ptr_`. -/
  ptr : List UInt8
  /-- `length_`. -/
  length : BitVec 32

namespace StringPiece

variable (str : StringPiece)

/-- `size()` as it arrives at a parameter of type `size_t`. -/
def size : ℕ := (str.length.signExtend 64).toNat

/-- The bytes the piece is made of. -/
def text : List UInt8 := str.ptr.take str.size

/-- The block is as long as the piece; nothing is asked of a negative length. -/
def Readable : Prop := str.length.toInt ≤ str.ptr.length

theorem size_eq :
    str.size = str.length.toNat + if 2 ^ 31 ≤ str.length.toNat then 2 ^ 64 - 2 ^ 32 else 0 := by
  have hmsb : str.length.msb = decide (2 ^ 31 ≤ str.length.toNat) := BitVec.msb_eq_decide _
  have hwide : (BitVec.setWidth 64 str.length).toNat = str.length.toNat := by
    have hlt := str.length.isLt
    rw [BitVec.toNat_setWidth]
    omega
  rw [size, BitVec.toNat_signExtend, hmsb, hwide]
  simp only [decide_eq_true_eq]

variable {str}

/-- A length that is small as a `size_t` can be read. -/
theorem Readable.size_le (h : str.Readable) (hsmall : str.size < 2 ^ 63) :
    str.size ≤ str.ptr.length := by
  have hlt := str.length.isLt
  have hsize := str.size_eq
  have hint := str.length.toInt_eq_toNat_cond
  unfold Readable at h
  split_ifs at hsize hint <;> omega

end StringPiece

end Fishnet

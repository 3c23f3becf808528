import Fishnet.Net.IntCodec

/-!
# Length headers

A length header is an integer put in front of a message that is in the buffer already. The four
`prependIntN` call the helper of their own width, unlike `appendInt64`, so that what stands in front
of the content is the big-endian encoding for every value of every width.

Headers form a stack: the one prepended last is read first. The stack is limited by the bytes in
front of the reader, of which there are `kCheapPrepend` in a fresh buffer and more after a read.
-/

namespace Fishnet

open TaggedInt

namespace Buffer

variable (b : Buffer)

def prependInt64 (x : BitVec 64) : Checked Buffer :=
  let be64 : BitVec 64 := Sockets.hostToNetwork64 x
  b.prepend (leBytes 8 be64.toNat)

def prependInt32 (x : BitVec 32) : Checked Buffer :=
  let be32 : BitVec 32 := Sockets.hostToNetwork32 x
  b.prepend (leBytes 4 be32.toNat)

def prependInt16 (x : BitVec 16) : Checked Buffer :=
  let be16 : BitVec 16 := Sockets.hostToNetwork16 (x.signExtend 32)
  b.prepend (leBytes 2 be16.toNat)

def prependInt8 (x : BitVec 8) : Checked Buffer := b.prepend (leBytes 1 x.toNat)

/-- Prepend by the function for the width. -/
def prependInt : TaggedInt → Checked Buffer
  | .int8 x => b.prependInt8 x
  | .int16 x => b.prependInt16 x
  | .int32 x => b.prependInt32 x
  | .int64 x => b.prependInt64 x

/-- Prepend the integers in order: the last one ends up in front. -/
def prependInts (xs : List TaggedInt) : Checked Buffer := runAll prependInt b xs

/-- Peek by the function for the width; the result is the signed value of what it returns. -/
def peekInt : IntWidth → Checked ℤ
  | .w8 => return (← b.peekInt8).toInt
  | .w16 => return (← b.peekInt16).toInt
  | .w32 => return (← b.peekInt32).toInt
  | .w64 => return (← b.peekInt64).toInt

theorem prependInt_eq_prepend (x : TaggedInt) : b.prependInt x = b.prepend x.encode := by
  cases x with
  | int8 x =>
    rw [encode_int8]
    rfl
  | int16 x =>
    rw [prependInt, prependInt16, Sockets.hostToNetwork16, setWidth_signExtend,
      Sockets.htobe16, Sockets.leBytes_swapWord (by norm_num), encode_int16]
  | int32 x =>
    rw [prependInt, prependInt32, Sockets.hostToNetwork32, Sockets.htobe32,
      Sockets.leBytes_swapWord (by norm_num), encode_int32]
  | int64 x =>
    rw [prependInt, prependInt64, Sockets.hostToNetwork64, Sockets.htobe64,
      Sockets.leBytes_swapWord (by norm_num), encode_int64]

variable {b}

theorem peekInt_encode (h : b.Inv) {x : TaggedInt} {rest : Bytes}
    (hc : b.content = x.encode ++ rest) : b.peekInt x.width = .ok x.value := by
  cases x with
  | int8 x => exact bind_of_ok (peekInt8_encode h hc) _
  | int16 x => exact bind_of_ok (peekInt16_encode h hc) _
  | int32 x => exact bind_of_ok (peekInt32_encode h hc) _
  | int64 x => exact bind_of_ok (peekInt64_encode h hc) _

/-- One header: it stands in front of the content and takes its bytes from the prependable ones. -/
theorem prependInt_spec (h : b.Inv) {x : TaggedInt} (hfit : x.size ≤ b.prependableBytes) :
    ∃ b', b.prependInt x = .ok b' ∧ b'.Inv ∧ b'.content = x.encode ++ b.content ∧
      b'.prependableBytes = b.prependableBytes - x.size := by
  have hlen : x.encode.length ≤ b.prependableBytes := by rwa [length_encode]
  obtain ⟨b', hb', hinv, hcont⟩ := prepend_spec h hlen
  refine ⟨b', ?_, hinv, hcont, ?_⟩
  · rw [prependInt_eq_prepend, hb']
  · rw [prepend, assert_bind_eq_ok, pure_eq_ok] at hb'
    obtain ⟨-, rfl⟩ := hb'
    change sizeSub b.readerIndex x.encode.length = _
    rw [length_encode]
    exact sizeSub_of_bounded hfit (h.reader_le.trans_lt (h.writer_le.trans_lt h.bounded))

theorem prependInts_spec {xs : List TaggedInt} (h : b.Inv)
    (hfit : (xs.map TaggedInt.size).sum ≤ b.prependableBytes) :
    ∃ b', b.prependInts xs = .ok b' ∧ b'.Inv ∧
      b'.content = xs.reverse.flatMap TaggedInt.encode ++ b.content := by
  induction xs generalizing b with
  | nil => exact ⟨b, rfl, h, by simp⟩
  | cons x xs ih =>
    rw [List.map_cons, List.sum_cons] at hfit
    obtain ⟨b₁, hb₁, hinv₁, hcont₁, hroom⟩ := prependInt_spec h (x := x) (by omega)
    obtain ⟨b₂, hb₂, hinv₂, hcont₂⟩ := ih hinv₁ (by omega)
    refine ⟨b₂, runAll_cons_eq_ok.mpr ⟨b₁, hb₁, hb₂⟩, hinv₂, ?_⟩
    rw [hcont₂, hcont₁, List.reverse_cons, List.flatMap_append, List.flatMap_singleton,
      List.append_assoc]

/-- **Headers are read back.** For every buffer: an integer of any width that fits in front of the
content is prepended as its big-endian encoding, peeked at as its value, and read as its value,
which leaves the content as it was. A stack of integers that fits is read in reverse order. -/
theorem prepended_read_back (b : Buffer) (h : b.Inv) :
    (∀ x : TaggedInt, x.size ≤ b.prependableBytes →
      ∃ b₁ b₂, b.prependInt x = .ok b₁ ∧ b₁.content = x.encode ++ b.content ∧
        b₁.peekInt x.width = .ok x.value ∧
        b₁.readInt x.width = .ok (x.value, b₂) ∧ b₂.content = b.content) ∧
    (∀ xs : List TaggedInt, (xs.map TaggedInt.size).sum ≤ b.prependableBytes →
      ∃ b₁ b₂, b.prependInts xs = .ok b₁ ∧
        b₁.content = xs.reverse.flatMap TaggedInt.encode ++ b.content ∧
        b₁.readInts (xs.reverse.map TaggedInt.width) =
          .ok (xs.reverse.map TaggedInt.value, b₂) ∧
        b₂.content = b.content) := by
  constructor
  · intro x hfit
    obtain ⟨b₁, hb₁, hinv, hcont, -⟩ := prependInt_spec h hfit
    obtain ⟨b₂, hb₂, -, hcont₂⟩ := readInt_encode hinv hcont
    exact ⟨b₁, b₂, hb₁, hcont, peekInt_encode hinv hcont, hb₂, hcont₂⟩
  · intro xs hfit
    obtain ⟨b₁, hb₁, hinv, hcont⟩ := prependInts_spec h hfit
    obtain ⟨b₂, hb₂, -, hcont₂⟩ := readInts_encode hinv hcont
    exact ⟨b₁, b₂, hb₁, hcont, hb₂, hcont₂⟩

/-- Three headers take seven of the eight bytes in front of a one-byte message. -/
theorem prepended_read_back_stack :
    ∃ b₁ b₂, (Buffer.mk (List.replicate 24 7) 8 9).prependInts
        [.int8 (-1), .int16 (-2), .int32 65536] = .ok b₁ ∧
      b₁.readInts [.w32, .w16, .w8] = .ok ([65536, -2, -1], b₂) ∧ b₂.content = [7] := by
  have h : (Buffer.mk (List.replicate 24 7) 8 9).Inv :=
    ⟨by decide, by decide, by decide, by decide⟩
  obtain ⟨b₁, b₂, hb₁, -, hread, hcont⟩ := (prepended_read_back _ h).2
    [.int8 (-1), .int16 (-2), .int32 65536] (by decide)
  exact ⟨b₁, b₂, hb₁, hread, hcont⟩

end Buffer

end Fishnet

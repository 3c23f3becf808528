import Fishnet.Library.Endian
import Fishnet.Library.Run
import Fishnet.Net.Buffer

/-!
# Integers in network byte order

The buffer appends and reads signed integers of four widths in network byte order, through the
helpers of `endian.h`. A C++ integer is a bit vector here: an implicit conversion between integer
types is `setWidth` or `signExtend`, and the host is little-endian, so the bytes of an object are
`leBytes`.

The appending and the reading side call different helpers, and they do not all match:
`appendInt64` calls the 16-bit `hostToNetwork16`. What each width really appends is isolated in
`storedBytes`; `storedBytes_eq_encode_iff` compares it with the big-endian encoding, and the only
64-bit value the two agree on is zero. Everything after that is an induction over the sequence.
-/

namespace Fishnet

open List

namespace Sockets

/-- The byte reversal of a `w`-bit word of `n` bytes. -/
def swapWord {w : ℕ} (n : ℕ) (x : BitVec w) : BitVec w := BitVec.ofNat w (byteSwap n x.toNat)

def htobe64 (x : BitVec 64) : BitVec 64 := swapWord 8 x

def htobe32 (x : BitVec 32) : BitVec 32 := swapWord 4 x

def htobe16 (x : BitVec 16) : BitVec 16 := swapWord 2 x

def be64toh (x : BitVec 64) : BitVec 64 := swapWord 8 x

def be32toh (x : BitVec 32) : BitVec 32 := swapWord 4 x

def be16toh (x : BitVec 16) : BitVec 16 := swapWord 2 x

def hostToNetwork64 (host64 : BitVec 64) : BitVec 64 := htobe64 host64

def hostToNetwork32 (host32 : BitVec 32) : BitVec 32 := htobe32 host32

/-- The parameter is a `uint32_t`, narrowed by the call of `htobe16`. -/
def hostToNetwork16 (host16 : BitVec 32) : BitVec 16 := htobe16 (host16.setWidth 16)

def networkToHost64 (net64 : BitVec 64) : BitVec 64 := be64toh net64

def networkToHost32 (net32 : BitVec 32) : BitVec 32 := be32toh net32

def networkToHost16 (net16 : BitVec 16) : BitVec 16 := be16toh net16

/-- Storing a swapped word writes the big-endian encoding of the word. -/
theorem leBytes_swapWord {w n : ℕ} (hw : 2 ^ w = 256 ^ n) (x : BitVec w) :
    leBytes n (swapWord n x).toNat = beBytes n x.toNat := by
  rw [swapWord, BitVec.toNat_ofNat, hw, Nat.mod_eq_of_lt (byteSwap_lt n _), leBytes_byteSwap]

/-- Swapping a word loaded from its big-endian encoding gives the word. -/
theorem swapWord_ofLeBytes {w n : ℕ} (hw : 2 ^ w = 256 ^ n) (x : BitVec w) :
    swapWord n (BitVec.ofNat w (ofLeBytes (beBytes n x.toNat))) = x := by
  have hlt : ofLeBytes (beBytes n x.toNat) < 256 ^ n := byteSwap_lt n x.toNat
  apply BitVec.eq_of_toNat_eq
  rw [swapWord, BitVec.toNat_ofNat, BitVec.toNat_ofNat, hw, Nat.mod_eq_of_lt hlt,
    byteSwap_ofLeBytes_beBytes, Nat.mod_mod, Nat.mod_eq_of_lt (hw ▸ x.isLt)]

end Sockets

namespace Buffer

variable (b : Buffer)

/-- Note the helper: the value goes through a `uint32_t` parameter and comes back as a `uint16_t`.
-/
def appendInt64 (x : BitVec 64) : Checked Buffer :=
  let be64 : BitVec 64 := (Sockets.hostToNetwork16 (x.setWidth 32)).setWidth 64
  b.append (leBytes 8 be64.toNat)

def appendInt32 (x : BitVec 32) : Checked Buffer :=
  let be32 : BitVec 32 := Sockets.hostToNetwork32 x
  b.append (leBytes 4 be32.toNat)

def appendInt16 (x : BitVec 16) : Checked Buffer :=
  let be16 : BitVec 16 := Sockets.hostToNetwork16 (x.signExtend 32)
  b.append (leBytes 2 be16.toNat)

def appendInt8 (x : BitVec 8) : Checked Buffer := b.append (leBytes 1 x.toNat)

/-- `memcpy` of `n` bytes from `peek()`, after the assertion that they are there. -/
def peekBytes (n : ℕ) : Checked Bytes := do
  assert (n ≤ b.readableBytes)
  pure (window b.buffer b.readerIndex (b.readerIndex + n))

def peekInt64 : Checked (BitVec 64) := do
  let bytes ← b.peekBytes 8
  pure (Sockets.networkToHost64 (BitVec.ofNat 64 (ofLeBytes bytes)))

def peekInt32 : Checked (BitVec 32) := do
  let bytes ← b.peekBytes 4
  pure (Sockets.networkToHost32 (BitVec.ofNat 32 (ofLeBytes bytes)))

def peekInt16 : Checked (BitVec 16) := do
  let bytes ← b.peekBytes 2
  pure (Sockets.networkToHost16 (BitVec.ofNat 16 (ofLeBytes bytes)))

def peekInt8 : Checked (BitVec 8) := do
  let bytes ← b.peekBytes 1
  pure (BitVec.ofNat 8 (ofLeBytes bytes))

def readInt64 : Checked (BitVec 64 × Buffer) := do
  let result ← b.peekInt64
  let b' ← b.retrieve 8
  pure (result, b')

/-- The result passes through an `int64_t` on its way to the `int32_t` returned. -/
def readInt32 : Checked (BitVec 32 × Buffer) := do
  let result ← b.peekInt32
  let b' ← b.retrieve 4
  pure ((result.signExtend 64).setWidth 32, b')

/-- Returns an `int64_t`. -/
def readInt16 : Checked (BitVec 64 × Buffer) := do
  let result ← b.peekInt16
  let b' ← b.retrieve 2
  pure (result.signExtend 64, b')

/-- Returns an `int64_t`. -/
def readInt8 : Checked (BitVec 64 × Buffer) := do
  let result ← b.peekInt8
  let b' ← b.retrieve 1
  pure (result.signExtend 64, b')

end Buffer

/-! ## Tagged integers -/

/-- The width a read asks for. -/
inductive IntWidth where
  | w8 | w16 | w32 | w64
  deriving DecidableEq, Repr

/-- A signed integer with its width. -/
inductive TaggedInt where
  | int8 (x : BitVec 8)
  | int16 (x : BitVec 16)
  | int32 (x : BitVec 32)
  | int64 (x : BitVec 64)
  deriving DecidableEq, Repr

namespace TaggedInt

def width : TaggedInt → IntWidth
  | int8 _ => .w8
  | int16 _ => .w16
  | int32 _ => .w32
  | int64 _ => .w64

/-- The number of bytes the integer occupies. -/
def size : TaggedInt → ℕ
  | int8 _ => 1
  | int16 _ => 2
  | int32 _ => 4
  | int64 _ => 8

/-- The signed value. -/
def value : TaggedInt → ℤ
  | int8 x => x.toInt
  | int16 x => x.toInt
  | int32 x => x.toInt
  | int64 x => x.toInt

/-- The big-endian two's-complement encoding. -/
def encode (x : TaggedInt) : Bytes := beBytes x.size (x.value % 256 ^ x.size).toNat

/-- The bytes the buffer really appends. -/
def storedBytes : TaggedInt → Bytes
  | int8 x => leBytes 1 x.toNat
  | int16 x => leBytes 2 (Sockets.hostToNetwork16 (x.signExtend 32)).toNat
  | int32 x => leBytes 4 (Sockets.hostToNetwork32 x).toNat
  | int64 x => leBytes 8 ((Sockets.hostToNetwork16 (x.setWidth 32)).setWidth 64).toNat

@[simp] theorem length_encode (x : TaggedInt) : x.encode.length = x.size := length_beBytes _ _

@[simp] theorem length_storedBytes (x : TaggedInt) : x.storedBytes.length = x.size := by
  cases x <;> exact length_leBytes _ _

/-- The bit pattern of a word is its value modulo the word size. -/
private theorem toNat_value {w n : ℕ} (hw : 2 ^ w = 256 ^ n) (x : BitVec w) :
    (x.toInt % 256 ^ n).toNat = x.toNat := by
  have hcast : (256 : ℤ) ^ n = ((2 ^ w : ℕ) : ℤ) := by
    rw [hw]
    push_cast
    rfl
  rw [hcast, BitVec.toInt_eq_toNat_bmod, Int.bmod_emod, Int.emod_eq_of_lt (by omega) (by
    have := x.isLt
    omega), Int.toNat_natCast]

theorem encode_int8 (x : BitVec 8) : (int8 x).encode = beBytes 1 x.toNat := by
  rw [encode, size, value, toNat_value (by norm_num)]

theorem encode_int16 (x : BitVec 16) : (int16 x).encode = beBytes 2 x.toNat := by
  rw [encode, size, value, toNat_value (by norm_num)]

theorem encode_int32 (x : BitVec 32) : (int32 x).encode = beBytes 4 x.toNat := by
  rw [encode, size, value, toNat_value (by norm_num)]

theorem encode_int64 (x : BitVec 64) : (int64 x).encode = beBytes 8 x.toNat := by
  rw [encode, size, value, toNat_value (by norm_num)]

theorem setWidth_signExtend (x : BitVec 16) : (x.signExtend 32).setWidth 16 = x := by
  apply BitVec.eq_of_getLsbD_eq
  intro i hi
  rw [BitVec.getLsbD_setWidth, BitVec.getLsbD_signExtend]
  simp [hi, show i < 32 from by omega]

/-- `appendInt64` stores two bytes of the value, swapped, and six zeros. -/
theorem storedBytes_int64 (x : BitVec 64) :
    (int64 x).storedBytes = beBytes 2 (x.toNat % 2 ^ 16) ++ replicate 6 0 := by
  have hlt : ((Sockets.hostToNetwork16 (x.setWidth 32)).setWidth 64).toNat
      = (Sockets.hostToNetwork16 (x.setWidth 32)).toNat := by
    have := (Sockets.hostToNetwork16 (x.setWidth 32)).isLt
    rw [BitVec.toNat_setWidth]
    omega
  have hnarrow : ((x.setWidth 32).setWidth 16 : BitVec 16).toNat = x.toNat % 2 ^ 16 := by
    rw [BitVec.toNat_setWidth, BitVec.toNat_setWidth]
    omega
  rw [storedBytes, hlt, leBytes_add_of_lt (m := 2) (n := 6)
    (Sockets.hostToNetwork16 (x.setWidth 32)).isLt]
  congr 1
  rw [Sockets.hostToNetwork16, Sockets.htobe16, Sockets.leBytes_swapWord (by norm_num), hnarrow]

/-- The only value `appendInt64` encodes correctly is zero. -/
theorem storedBytes_int64_eq_encode_iff (x : BitVec 64) :
    (int64 x).storedBytes = (int64 x).encode ↔ x = 0 := by
  constructor
  · intro h
    rw [storedBytes_int64, encode_int64] at h
    -- Read from the back: the six low bytes of `x` are zero, so the two bytes stored are zero too.
    have hrev := congrArg List.reverse h
    rw [reverse_append, reverse_replicate, beBytes, beBytes, reverse_reverse,
      reverse_reverse] at hrev
    have hlow : x.toNat % 2 ^ 48 = 0 := by
      have htake : List.take 6 (leBytes 8 x.toNat) = replicate 6 0 := by
        rw [← hrev]
        exact take_left' (length_replicate ..)
      have hsix : leBytes 6 x.toNat = replicate 6 0 := by
        rw [← htake, leBytes, leBytes, ← map_take]
        rfl
      have hval := ofLeBytes_leBytes 6 x.toNat
      rw [hsix] at hval
      exact hval.symm
    have hzero : x.toNat % 2 ^ 16 = 0 := by omega
    rw [hzero] at hrev
    apply BitVec.eq_of_toNat_eq
    refine eq_zero_of_leBytes (n := 8) x.isLt fun a ha ↦ ?_
    rw [← hrev] at ha
    rcases mem_append.mp ha with ha | ha
    · exact (mem_replicate.mp ha).2
    · rw [leBytes_zero] at ha
      exact (mem_replicate.mp ha).2
  · rintro rfl
    decide

/-- **What each width stores.** All widths but the widest store the big-endian encoding. -/
theorem storedBytes_eq_encode_iff (x : TaggedInt) :
    x.storedBytes = x.encode ↔ ∀ y, x = int64 y → y = 0 := by
  cases x with
  | int8 x =>
    refine ⟨?_, fun _ ↦ ?_⟩
    · intro _ y hy
      cases hy
    · rw [storedBytes, encode_int8, beBytes]
      rfl
  | int16 x =>
    refine ⟨?_, fun _ ↦ ?_⟩
    · intro _ y hy
      cases hy
    · rw [storedBytes, encode_int16, Sockets.hostToNetwork16, setWidth_signExtend, Sockets.htobe16,
        Sockets.leBytes_swapWord (by norm_num)]
  | int32 x =>
    refine ⟨?_, fun _ ↦ ?_⟩
    · intro _ y hy
      cases hy
    · rw [storedBytes, encode_int32, Sockets.hostToNetwork32, Sockets.htobe32,
        Sockets.leBytes_swapWord (by norm_num)]
  | int64 x =>
    rw [storedBytes_int64_eq_encode_iff]
    constructor
    · rintro rfl y hy
      cases hy
      rfl
    · intro h
      exact h x rfl

end TaggedInt

/-! ## Sequences -/

namespace Buffer

/-- Append by the function for the width. -/
def appendInt (b : Buffer) : TaggedInt → Checked Buffer
  | .int8 x => b.appendInt8 x
  | .int16 x => b.appendInt16 x
  | .int32 x => b.appendInt32 x
  | .int64 x => b.appendInt64 x

/-- Append the integers in order. -/
def appendInts (b : Buffer) (xs : List TaggedInt) : Checked Buffer := runAll appendInt b xs

/-- Read by the function for the width; the result is the signed value of what it returns. -/
def readInt (b : Buffer) : IntWidth → Checked (ℤ × Buffer)
  | .w8 => do
    let (x, b') ← b.readInt8
    pure (x.toInt, b')
  | .w16 => do
    let (x, b') ← b.readInt16
    pure (x.toInt, b')
  | .w32 => do
    let (x, b') ← b.readInt32
    pure (x.toInt, b')
  | .w64 => do
    let (x, b') ← b.readInt64
    pure (x.toInt, b')

/-- Read one integer for each of the widths, in order. -/
def readInts (b : Buffer) : List IntWidth → Checked (List ℤ × Buffer)
  | [] => .ok ([], b)
  | w :: ws => do
    let (v, b') ← b.readInt w
    let (vs, b'') ← b'.readInts ws
    pure (v :: vs, b'')

variable {b : Buffer}

theorem appendInt_eq_append (b : Buffer) (x : TaggedInt) :
    b.appendInt x = b.append x.storedBytes := by
  cases x <;> rfl

theorem appendInts_spec {xs : List TaggedInt} (h : b.Inv)
    (hfit : b.writerIndex + (xs.map TaggedInt.size).sum < sizeBound) :
    ∃ b', b.appendInts xs = .ok b' ∧ b'.Inv ∧
      b'.content = b.content ++ xs.flatMap TaggedInt.storedBytes := by
  induction xs generalizing b with
  | nil => exact ⟨b, rfl, h, by simp⟩
  | cons x xs ih =>
    rw [map_cons, sum_cons] at hfit
    have hlen : x.storedBytes.length < sizeBound := by
      rw [TaggedInt.length_storedBytes]
      omega
    rcases append_spec h hlen with ⟨b₁, hb₁, hinv₁, hcont₁, hwriter⟩ | ⟨-, hbig⟩
    · rw [TaggedInt.length_storedBytes] at hwriter
      obtain ⟨b₂, hb₂, hinv₂, hcont₂⟩ := ih hinv₁ (by omega)
      refine ⟨b₂, runAll_cons_eq_ok.mpr ⟨b₁, ?_, hb₂⟩, hinv₂, ?_⟩
      · rw [appendInt_eq_append, hb₁]
      · rw [hcont₂, hcont₁, flatMap_cons, append_assoc]
    · rw [TaggedInt.length_storedBytes] at hbig
      omega

theorem peekBytes_of_content (h : b.Inv) {l rest : Bytes} {n : ℕ} (hl : l.length = n)
    (hc : b.content = l ++ rest) : b.peekBytes n = .ok l := by
  have hlen := h.length_content
  rw [hc, length_append] at hlen
  have hn : n ≤ b.readableBytes := by omega
  have hwin : window b.buffer b.readerIndex (b.readerIndex + n) = l := by
    have htake : window b.buffer b.readerIndex (b.readerIndex + n) = b.content.take n := by
      rw [h.readableBytes_eq] at hn
      rw [content, window, window, take_take]
      congr 1
      omega
    rw [htake, hc, take_left' hl]
  rw [peekBytes, assert_bind_of hn, hwin]
  rfl

theorem retrieve_of_content (h : b.Inv) {l rest : Bytes} {n : ℕ} (hl : l.length = n)
    (hc : b.content = l ++ rest) : ∃ b', b.retrieve n = .ok b' ∧ b'.Inv ∧ b'.content = rest := by
  have hlen := h.length_content
  rw [hc, length_append] at hlen
  have hn : n ≤ b.readableBytes := by omega
  obtain ⟨b', hb', hinv, hcont⟩ := retrieve_spec h hn
  exact ⟨b', hb', hinv, by rw [hcont, hc, drop_left' hl]⟩

private theorem setWidth_signExtend_int32 (x : BitVec 32) : (x.signExtend 64).setWidth 32 = x := by
  apply BitVec.eq_of_getLsbD_eq
  intro i hi
  rw [BitVec.getLsbD_setWidth, BitVec.getLsbD_signExtend]
  simp [hi, show i < 64 from by omega]

/-! Peeking at an encoding, one width at a time: each decoder undoes the big-endian encoding. -/

section

variable (h : b.Inv)
include h

theorem peekInt8_encode {x : BitVec 8} {rest : Bytes}
    (hc : b.content = (TaggedInt.int8 x).encode ++ rest) : b.peekInt8 = .ok x := by
  rw [TaggedInt.encode_int8] at hc
  have hx : BitVec.ofNat 8 (ofLeBytes (beBytes 1 x.toNat)) = x := by
    have hrev : (leBytes 1 x.toNat).reverse = leBytes 1 x.toNat := rfl
    apply BitVec.eq_of_toNat_eq
    rw [beBytes, hrev, ofLeBytes_leBytes, BitVec.toNat_ofNat]
    have := x.isLt
    omega
  rw [peekInt8, bind_of_ok (peekBytes_of_content h (length_beBytes _ _) hc), hx]
  rfl

theorem peekInt16_encode {x : BitVec 16} {rest : Bytes}
    (hc : b.content = (TaggedInt.int16 x).encode ++ rest) : b.peekInt16 = .ok x := by
  rw [TaggedInt.encode_int16] at hc
  rw [peekInt16, bind_of_ok (peekBytes_of_content h (length_beBytes _ _) hc),
    Sockets.networkToHost16, Sockets.be16toh, Sockets.swapWord_ofLeBytes (by norm_num)]
  rfl

theorem peekInt32_encode {x : BitVec 32} {rest : Bytes}
    (hc : b.content = (TaggedInt.int32 x).encode ++ rest) : b.peekInt32 = .ok x := by
  rw [TaggedInt.encode_int32] at hc
  rw [peekInt32, bind_of_ok (peekBytes_of_content h (length_beBytes _ _) hc),
    Sockets.networkToHost32, Sockets.be32toh, Sockets.swapWord_ofLeBytes (by norm_num)]
  rfl

theorem peekInt64_encode {x : BitVec 64} {rest : Bytes}
    (hc : b.content = (TaggedInt.int64 x).encode ++ rest) : b.peekInt64 = .ok x := by
  rw [TaggedInt.encode_int64] at hc
  rw [peekInt64, bind_of_ok (peekBytes_of_content h (length_beBytes _ _) hc),
    Sockets.networkToHost64, Sockets.be64toh, Sockets.swapWord_ofLeBytes (by norm_num)]
  rfl

/-- **One read.** Reading at the encoding of `x` with the width of `x` returns the value of `x` and
consumes exactly that encoding. -/
theorem readInt_encode {x : TaggedInt} {rest : Bytes}
    (hc : b.content = x.encode ++ rest) :
    ∃ b', b.readInt x.width = .ok (x.value, b') ∧ b'.Inv ∧ b'.content = rest := by
  obtain ⟨b', hb', hinv, hcont⟩ := retrieve_of_content h (TaggedInt.length_encode x) hc
  refine ⟨b', ?_, hinv, hcont⟩
  cases x with
  | int8 x =>
    have hread : b.readInt8 = .ok (x.signExtend 64, b') := by
      rw [readInt8, bind_of_ok (peekInt8_encode h hc)]
      exact bind_of_ok hb' _
    rw [TaggedInt.width, readInt, bind_of_ok hread]
    exact congrArg (fun v ↦ Except.ok (v, b')) (BitVec.toInt_signExtend_of_le (by norm_num))
  | int16 x =>
    have hread : b.readInt16 = .ok (x.signExtend 64, b') := by
      rw [readInt16, bind_of_ok (peekInt16_encode h hc)]
      exact bind_of_ok hb' _
    rw [TaggedInt.width, readInt, bind_of_ok hread]
    exact congrArg (fun v ↦ Except.ok (v, b')) (BitVec.toInt_signExtend_of_le (by norm_num))
  | int32 x =>
    have hread : b.readInt32 = .ok (x, b') := by
      rw [readInt32, bind_of_ok (peekInt32_encode h hc), setWidth_signExtend_int32]
      exact bind_of_ok hb' _
    rw [TaggedInt.width, readInt, bind_of_ok hread]
    rfl
  | int64 x =>
    have hread : b.readInt64 = .ok (x, b') := by
      rw [readInt64, bind_of_ok (peekInt64_encode h hc)]
      exact bind_of_ok hb' _
    rw [TaggedInt.width, readInt, bind_of_ok hread]
    rfl

/-- **A sequence of reads** over the encodings of `xs` returns the values of `xs`. -/
theorem readInts_encode {xs : List TaggedInt} {rest : Bytes}
    (hc : b.content = xs.flatMap TaggedInt.encode ++ rest) :
    ∃ b', b.readInts (xs.map TaggedInt.width) = .ok (xs.map TaggedInt.value, b') ∧ b'.Inv ∧
      b'.content = rest := by
  induction xs generalizing b with
  | nil => exact ⟨b, rfl, h, hc⟩
  | cons x xs ih =>
    rw [flatMap_cons, append_assoc] at hc
    obtain ⟨b₁, hb₁, hinv₁, hcont₁⟩ := readInt_encode h hc
    obtain ⟨b₂, hb₂, hinv₂, hcont₂⟩ := ih hinv₁ hcont₁
    refine ⟨b₂, ?_, hinv₂, hcont₂⟩
    rw [map_cons, readInts, bind_of_ok hb₁]
    change (b₁.readInts _ >>= _) = _
    rw [bind_of_ok hb₂]
    rfl

end

/-! ## The round trip -/

/-- Appending `xs` adds exactly their encodings, and reading the same widths back, once the earlier
content is retrieved, returns the values of `xs` and leaves nothing. -/
def RoundTrips (b : Buffer) (xs : List TaggedInt) : Prop :=
  ∃ b₁ b₂ b₃, b.appendInts xs = .ok b₁ ∧
    b₁.content = b.content ++ xs.flatMap TaggedInt.encode ∧
    b₁.retrieve b.readableBytes = .ok b₂ ∧
    b₂.readInts (xs.map TaggedInt.width) = .ok (xs.map TaggedInt.value, b₃) ∧ b₃.content = []

/-- Concatenations of pieces of equal lengths agree only piece by piece. -/
private theorem eq_of_flatMap_eq {f g : TaggedInt → Bytes}
    (hlen : ∀ x, (f x).length = (g x).length) {xs : List TaggedInt}
    (h : xs.flatMap f = xs.flatMap g) : ∀ x ∈ xs, f x = g x := by
  induction xs with
  | nil => simp
  | cons x xs ih =>
    rw [flatMap_cons, flatMap_cons] at h
    obtain ⟨hx, hrest⟩ := append_inj h (hlen x)
    intro y hy
    rcases mem_cons.mp hy with rfl | hy
    · exact hx
    · exact ih hrest y hy

/-- **When the codec round-trips.** For every buffer and every sequence of integers: it does exactly
when every 64-bit integer of the sequence is zero. -/
theorem roundTrips_iff {xs : List TaggedInt} (h : b.Inv)
    (hfit : b.writerIndex + (xs.map TaggedInt.size).sum < sizeBound) :
    b.RoundTrips xs ↔ ∀ x, TaggedInt.int64 x ∈ xs → x = 0 := by
  obtain ⟨b₁, hb₁, hinv₁, hcont₁⟩ := appendInts_spec h hfit
  constructor
  · rintro ⟨b₁', -, -, hb₁', hcont, -⟩ x hx
    rw [hb₁] at hb₁'
    cases hb₁'
    have hbytes := append_cancel_left (hcont₁.symm.trans hcont)
    have hpiece := eq_of_flatMap_eq (fun x ↦ by simp) hbytes _ hx
    exact (TaggedInt.storedBytes_eq_encode_iff _).mp hpiece x rfl
  · intro hzero
    have hpieces : xs.flatMap TaggedInt.storedBytes = xs.flatMap TaggedInt.encode := by
      apply flatMap_congr
      intro x hx
      rw [TaggedInt.storedBytes_eq_encode_iff]
      rintro y rfl
      exact hzero y hx
    rw [hpieces] at hcont₁
    obtain ⟨b₂, hb₂, hinv₂, hcont₂⟩ := retrieve_of_content hinv₁ h.length_content hcont₁
    rw [← append_nil (xs.flatMap _)] at hcont₂
    obtain ⟨b₃, hb₃, -, hcont₃⟩ := readInts_encode hinv₂ hcont₂
    exact ⟨b₁, b₂, b₃, hb₁, hcont₁, hb₂, hb₃, hcont₃⟩

/-- A mixed sequence, negative values included, appended after one byte of earlier content. -/
theorem roundTrips_mixed :
    (Buffer.mk (replicate 24 7) 8 9).RoundTrips
      [.int16 (-2), .int8 (-1), .int64 0, .int32 65536] :=
  (roundTrips_iff ⟨by decide, by decide, by decide, by decide⟩ (by decide)).mpr (by
    intro x hx
    simp only [mem_cons, not_mem_nil, reduceCtorEq, TaggedInt.int64.injEq, or_false,
      false_or] at hx
    exact hx)

/-- Appending the 64-bit integer `1` to an empty buffer does not append its encoding. -/
theorem not_roundTrips_int64_one :
    ¬(Buffer.mk (replicate 24 0) 8 8).RoundTrips [.int64 1] := by
  rintro ⟨b₁, -, -, hb₁, hcont, -⟩
  have hstored : b₁.content = [0, 1, 0, 0, 0, 0, 0, 0] := by
    rw [← Except.ok.inj hb₁]
    rfl
  rw [hstored] at hcont
  revert hcont
  decide

end Buffer

end Fishnet

import Fishnet.Base.StringPiece
import Fishnet.Net.Buffer

/-!
# Shrinking the buffer

`shrink` moves the content into a fresh buffer that is just large enough. On its way there the
length of the content is a `size_t`, then the `int` of a `StringPiece`, then a `size_t` again.

## What the detour does to a length

The first conversion keeps the length modulo `2 ^ 32`, the second extends the sign. A length below
`2 ^ 31` comes back unchanged. Any other comes back either shorter than it was, and then only the
front of the content is copied, or as a number above `2 ^ 63`, and then the fresh buffer cannot be
made large enough: growing the vector throws, or, when the sum with `kCheapPrepend` wraps, the
assertion of the compacting branch fails.
-/

namespace Fishnet

open List

namespace Buffer

variable (b : Buffer)

def toStringPiece : StringPiece :=
  ⟨b.buffer.drop b.readerIndex, BitVec.ofNat 32 b.readableBytes⟩

/-- `append(const StringPiece&)`. -/
def appendPiece (str : StringPiece) : Checked Buffer := do
  let len := str.size
  let b' ← b.ensureWritableBytes len
  if str.ptr.length < len then .error .badAccess
  else (b'.copyToWritable (str.ptr.take len)).hasWritten len

/-- The buffer `other` of `shrink`, with the room asked for. -/
def freshWith (len : ℕ) : Checked Buffer := do
  let other ← new kInitialSize
  other.ensureWritableBytes len

/-- The buffer after the `swap`. -/
def shrink (reserve : ℕ) : Checked Buffer := do
  let other ← freshWith (sizeAdd b.readableBytes reserve)
  other.appendPiece b.toStringPiece

/-! ## The length on its way -/

theorem size_toStringPiece (b : Buffer) :
    b.toStringPiece.size = b.readableBytes % 2 ^ 32 +
      if 2 ^ 31 ≤ b.readableBytes % 2 ^ 32 then 2 ^ 64 - 2 ^ 32 else 0 := by
  have hlength : b.toStringPiece.length.toNat = b.readableBytes % 2 ^ 32 := BitVec.toNat_ofNat ..
  rw [StringPiece.size_eq, hlength]

/-! ## The fresh buffer -/

variable {b}

/-- No buffer makes room for half the address space. -/
theorem ensureWritableBytes_huge (h : b.Inv) (hr : b.readerIndex = kCheapPrepend)
    (hw : b.writerIndex = kCheapPrepend) {len : ℕ} (hlen : sizeBound ≤ len) (hmod : len < sizeMod)
    (b' : Buffer) : b.ensureWritableBytes len ≠ .ok b' := by
  have hb := h.bounded
  have hwr := h.writableBytes_eq
  intro hok
  rw [ensureWritableBytes, if_pos (by omega), bind_eq_ok] at hok
  obtain ⟨b₁, hb₁, -⟩ := hok
  rw [makeSpace] at hb₁
  split at hb₁
  next htest =>
    -- the sum of the test does not wrap, so the block asked for is too large
    have hsum : len + kCheapPrepend < sizeMod := by
      by_contra hwrap
      have hwrapped : sizeAdd len kCheapPrepend = len + kCheapPrepend - sizeMod := by
        rw [sizeAdd, Nat.mod_eq_sub_mod (by omega), Nat.mod_eq_of_lt]
        simp only [kCheapPrepend, sizeMod] at *
        omega
      rw [hwrapped, prependableBytes, hr, sizeAdd_of_bounded (by omega) (by decide)] at htest
      omega
    rw [sizeAdd_of_lt (by omega), resize_of_sizeBound_le _ (by omega)] at hb₁
    cases hb₁
  next htest =>
    rw [hr, assert_bind_of_not (lt_irrefl _)] at hb₁
    cases hb₁

/-- Without room in front of the reader nothing is compacted, so the indices stay. -/
theorem ensureWritableBytes_indices {b' : Buffer} {len : ℕ} (hr : b.readerIndex = kCheapPrepend)
    (hok : b.ensureWritableBytes len = .ok b') :
    b'.readerIndex = b.readerIndex ∧ b'.writerIndex = b.writerIndex := by
  rw [ensureWritableBytes] at hok
  split at hok
  · obtain ⟨b₁, hb₁, hrest⟩ := bind_eq_ok.mp hok
    rw [assert_bind_eq_ok, pure_eq_ok] at hrest
    obtain ⟨-, rfl⟩ := hrest
    rw [makeSpace] at hb₁
    split at hb₁
    · obtain ⟨block, -, hpure⟩ := bind_eq_ok.mp hb₁
      rw [pure_eq_ok] at hpure
      subst hpure
      exact ⟨rfl, rfl⟩
    · rw [hr, assert_bind_of_not (lt_irrefl _)] at hb₁
      cases hb₁
  · obtain ⟨-, hrest⟩ := assert_bind_eq_ok.mp hok
    rw [pure_eq_ok] at hrest
    subst hrest
    exact ⟨rfl, rfl⟩

/-- The fresh buffer is empty and has the room asked for, or there is none. -/
theorem freshWith_spec {len : ℕ} (hlen : len ≤ sizeBound) :
    (∃ other, freshWith len = .ok other ∧ other.Inv ∧ other.content = [] ∧
      len ≤ other.writableBytes ∧ other.readerIndex = kCheapPrepend ∧
      other.writerIndex = kCheapPrepend ∧ kCheapPrepend + len < sizeBound) ∨
    ((∀ other, freshWith len ≠ .ok other) ∧ sizeBound ≤ kCheapPrepend + len) := by
  obtain ⟨other, hnew, hinv, hnil⟩ := new_spec (n := kInitialSize) (by decide)
  have hfresh : freshWith len = other.ensureWritableBytes len := bind_of_ok hnew _
  obtain ⟨hr, hw⟩ : other.readerIndex = kCheapPrepend ∧ other.writerIndex = kCheapPrepend := by
    rw [new_eq (by decide)] at hnew
    cases hnew
    exact ⟨rfl, rfl⟩
  rw [hfresh]
  rcases hlen.lt_or_eq with hlt | rfl
  · rcases ensureWritableBytes_spec hinv hlt with
      ⟨other', hok, hinv', hcont, hroom, -⟩ | ⟨herr, hbig⟩
    · obtain ⟨hr', hw'⟩ := ensureWritableBytes_indices hr hok
      refine Or.inl ⟨other', hok, hinv', hcont.trans hnil, hroom, hr'.trans hr, hw'.trans hw, ?_⟩
      have hb := hinv'.bounded
      have hle := hinv'.writer_le
      rw [hinv'.writableBytes_eq] at hroom
      rw [hw', hw] at hroom hle
      omega
    · rw [hw] at hbig
      refine Or.inr ⟨?_, hbig⟩
      intro other' hok
      rw [herr] at hok
      cases hok
  · refine Or.inr ⟨?_, Nat.le_add_left _ _⟩
    exact ensureWritableBytes_huge hinv hr hw (le_refl _) (by decide)

/-! ## The copy -/

/-- A piece that fits into the buffer is copied without growing it. -/
theorem appendPiece_of_fits {other : Buffer} {str : StringPiece} (h : other.Inv)
    (hfit : str.size ≤ other.writableBytes) (hptr : str.size ≤ str.ptr.length) :
    ∃ b', other.appendPiece str = .ok b' ∧ b'.Inv ∧
      b'.content = other.content ++ str.ptr.take str.size ∧
      b'.writableBytes = other.writableBytes - str.size := by
  have hlen : (str.ptr.take str.size).length = str.size := by
    rw [length_take, Nat.min_eq_left hptr]
  have hensure : other.ensureWritableBytes str.size = .ok other := by
    rw [ensureWritableBytes, if_neg (by omega)]
    exact assert_bind_of hfit _
  obtain ⟨b', hb', hinv, hcont, hwriter⟩ := hasWritten_spec h (hlen.trans_le hfit)
  rw [hlen] at hb' hwriter
  refine ⟨b', ?_, hinv, hcont, ?_⟩
  · rw [appendPiece, bind_of_ok hensure, if_neg (by omega), hb']
  · have hblock : b'.buffer.length = other.buffer.length := by
      rw [hasWritten, assert_bind_eq_ok, pure_eq_ok] at hb'
      obtain ⟨-, rfl⟩ := hb'
      rw [h.writableBytes_eq] at hfit
      have := h.writer_le
      exact length_writeAt (by omega)
    rw [hinv.writableBytes_eq, h.writableBytes_eq, hblock, hwriter]
    omega

theorem take_toStringPiece (h : b.Inv) {n : ℕ} (hn : n ≤ b.readableBytes) :
    b.toStringPiece.ptr.take n = b.content.take n := by
  rw [h.readableBytes_eq] at hn
  rw [toStringPiece, content, window, take_take, Nat.min_eq_left hn]

theorem readableBytes_le_ptr (h : b.Inv) : b.readableBytes ≤ b.toStringPiece.ptr.length := by
  have := h.writer_le
  rw [h.readableBytes_eq, toStringPiece, length_drop]
  omega

/-- `shrink(reserve)` keeps the readable bytes and leaves room for `reserve` more. -/
def Shrinks (b : Buffer) (reserve : ℕ) : Prop :=
  ∃ b', b.shrink reserve = .ok b' ∧ b'.content = b.content ∧ reserve ≤ b'.writableBytes

/-- A content that an `int` can count is moved as it is. -/
theorem shrinks_of_lt (h : b.Inv) {reserve : ℕ} (hint : b.readableBytes < 2 ^ 31)
    (hfit : kCheapPrepend + (b.readableBytes + reserve) < sizeBound) : b.Shrinks reserve := by
  have hsum : sizeAdd b.readableBytes reserve = b.readableBytes + reserve :=
    sizeAdd_of_bounded (by omega) (by omega)
  have hsize : b.toStringPiece.size = b.readableBytes := by
    rw [size_toStringPiece, if_neg (by omega)]
    omega
  have hle : b.readableBytes + reserve ≤ sizeBound := by omega
  rcases freshWith_spec hle with ⟨other, hok, hinv, hnil, hroom, -⟩ | ⟨-, hbig⟩
  · have hroom' : b.toStringPiece.size ≤ other.writableBytes := by omega
    obtain ⟨b', hb', -, hcont, hwritable⟩ := appendPiece_of_fits hinv hroom'
      (hsize.trans_le (readableBytes_le_ptr h))
    refine ⟨b', ?_, ?_, by omega⟩
    · rw [shrink, hsum, bind_of_ok hok, hb']
    · rw [hcont, hnil, nil_append, hsize, take_toStringPiece h (le_refl _),
        ← h.length_content, take_length]
  · omega

/-- A content that an `int` cannot count is cut short, or the copy does not go through. -/
theorem not_shrinks_of_le (h : b.Inv) {reserve : ℕ} (hint : 2 ^ 31 ≤ b.readableBytes)
    (hfit : b.readableBytes + reserve ≤ sizeBound) : ¬b.Shrinks reserve := by
  rintro ⟨b', hshrink, hcont, -⟩
  have hsum : sizeAdd b.readableBytes reserve = b.readableBytes + reserve := by
    apply sizeAdd_of_lt
    simp only [sizeBound, sizeMod] at *
    omega
  rw [shrink, hsum, bind_eq_ok] at hshrink
  obtain ⟨other, hok, happend⟩ := hshrink
  rcases freshWith_spec hfit with ⟨other', hok', hinv, hnil, hroom, hr, hw, -⟩ | ⟨hnone, -⟩
  · rw [hok] at hok'
    cases hok'
    have hsize := size_toStringPiece b
    split at hsize
    next hneg =>
      rw [appendPiece, bind_eq_ok] at happend
      obtain ⟨b₁, hb₁, -⟩ := happend
      refine ensureWritableBytes_huge hinv hr hw ?_ ?_ b₁ hb₁ <;>
      · simp only [sizeBound, sizeMod]
        omega
    next hpos =>
      have hle : b.toStringPiece.size ≤ b.readableBytes := by
        rw [hsize]
        exact Nat.mod_le _ _
      obtain ⟨b₁, hb₁, -, hcont₁, -⟩ := appendPiece_of_fits hinv (by omega)
        (hle.trans (readableBytes_le_ptr h))
      rw [happend] at hb₁
      cases hb₁
      have hlen := congrArg List.length (hcont.symm.trans hcont₁)
      rw [hnil, nil_append, take_toStringPiece h hle, length_take,
        h.length_content] at hlen
      omega
  · exact hnone other hok

/-- **When `shrink` preserves the content.** For every buffer and every reserve that make up at
most `2 ^ 63` bytes: exactly if the length of the content is an `int`, and the block, with the bytes
in front of the content, is no larger than a vector can be. -/
theorem shrinks_iff (b : Buffer) (h : b.Inv) (reserve : ℕ)
    (hfit : b.readableBytes + reserve ≤ 2 ^ 63) :
    b.Shrinks reserve ↔
      b.readableBytes < 2 ^ 31 ∧ kCheapPrepend + (b.readableBytes + reserve) < sizeBound := by
  constructor
  · intro hshrinks
    constructor
    · by_contra hint
      exact not_shrinks_of_le h (by omega) hfit hshrinks
    · by_contra hbig
      obtain ⟨b', hshrink, -⟩ := hshrinks
      have hsum : sizeAdd b.readableBytes reserve = b.readableBytes + reserve := by
        apply sizeAdd_of_lt
        simp only [sizeMod]
        omega
      rw [shrink, hsum, bind_eq_ok] at hshrink
      obtain ⟨other, hok, -⟩ := hshrink
      rcases freshWith_spec hfit with ⟨-, -, -, -, -, -, -, hlt⟩ | ⟨hnone, -⟩
      · exact hbig hlt
      · exact hnone other hok
  · rintro ⟨hint, hlt⟩
    exact shrinks_of_lt h hint hlt

/-- Two bytes behind a used-up front, shrunk to a reserve of a hundred. -/
theorem shrinks_two_bytes : (Buffer.mk (List.replicate 24 7) 20 22).Shrinks 100 :=
  (shrinks_iff _ ⟨by decide, by decide, by decide, by decide⟩ 100 (by decide)).mpr
    ⟨by decide, by decide⟩

/-- A buffer with `2 ^ 31` readable bytes. -/
def twoGiB : Buffer := ⟨List.replicate (8 + 2 ^ 31) 7, 8, 8 + 2 ^ 31⟩

theorem twoGiB_inv : twoGiB.Inv := by
  have hlen : twoGiB.buffer.length = 8 + 2 ^ 31 := length_replicate ..
  constructor
  · rw [hlen]
    decide
  · decide
  · rw [hlen]
    decide
  · rw [hlen]
    decide

/-- Shrinking `2 ^ 31` readable bytes fails, whatever is left free. -/
theorem not_shrinks_twoGiB : ¬twoGiB.Shrinks 0 := by
  have hread : twoGiB.readableBytes = 2 ^ 31 := by decide
  exact not_shrinks_of_le twoGiB_inv hread.ge (by rw [hread]; decide)

end Buffer

end Fishnet

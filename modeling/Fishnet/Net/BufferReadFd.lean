import Fishnet.Net.Buffer

/-!
# Reading from a socket into the buffer

`Buffer::readFd` offers `readv` two areas: what is writable in the buffer, and, if that is little,
64 KiB on the stack. What lands on the stack is then appended.

The kernel fills the areas in the order given, each to its end before it goes on to the next. What
it reports is the number of bytes it has placed, or that it has failed. The stack area is not
initialised, so its former bytes are a parameter of the function.

## The two halves

The first half of the bytes is in the block already when the writer index is moved to its end. At
that point nothing is writable, so that the `append` of the second half compacts or grows. Either
way it keeps the content, of which the first half is now a part.
-/

namespace Fishnet

open List

/-- Where an `iovec` of `readFd` points. -/
inductive ReadArea where
  | writable
  | extrabuf
  deriving DecidableEq, Repr

/-- What `readv` answers: its return value, `errno`, and the bytes it has taken from the socket. -/
structure Readv where
  n : ℤ
  errno : ℕ
  data : Bytes
  deriving DecidableEq, Repr

namespace Readv

/-- The bytes that land in each area: the areas are filled in order. -/
def scatter : List (ReadArea × ℕ) → Bytes → ReadArea → Bytes
  | [], _ => fun _ ↦ []
  | (area, len) :: vec, data =>
    Function.update (scatter vec (data.drop len)) area (data.take len)

/-- An answer that the kernel can give when it is offered `vec`. -/
def Consistent (vec : List (ReadArea × ℕ)) (r : Readv) : Prop :=
  (r.n < 0 ∧ r.data = []) ∨
    (r.n = r.data.length ∧ r.data.length ≤ (vec.map Prod.snd).sum)

instance (vec : List (ReadArea × ℕ)) (r : Readv) : Decidable (r.Consistent vec) :=
  inferInstanceAs (Decidable (_ ∨ _))

end Readv

/-- What `readFd` leaves: its return value, `*savedErrno` and the buffer. -/
structure ReadFd where
  n : ℤ
  savedErrno : ℕ
  buffer : Buffer
  deriving DecidableEq, Repr

namespace Buffer

/-- `sizeof(extrabuf)`. -/
def extrabufSize : ℕ := 65536

variable (b : Buffer)

/-- The areas passed to `readv`: the first `iovcnt` entries of `vec`. -/
def iovecs : List (ReadArea × ℕ) :=
  let writeable := b.writableBytes
  let vec := [(.writable, writeable), (.extrabuf, extrabufSize)]
  let iovcnt := if writeable < extrabufSize then 2 else 1
  vec.take iovcnt

def readFd (extrabuf : Bytes) (savedErrno : ℕ) (r : Readv) : Checked ReadFd :=
  let writeable := b.writableBytes
  -- the kernel writes into the two areas
  let placed := Readv.scatter b.iovecs r.data
  let b := b.copyToWritable (placed .writable)
  let extrabuf := writeAt extrabuf 0 (placed .extrabuf)
  if r.n < 0 then .ok ⟨r.n, r.errno, b⟩
  else if r.n.toNat ≤ writeable then
    .ok ⟨r.n, savedErrno, { b with writerIndex := sizeAdd b.writerIndex r.n.toNat }⟩
  else do
    let b' ← { b with writerIndex := b.buffer.length }.append
      (extrabuf.take (sizeSub r.n.toNat writeable))
    .ok ⟨r.n, savedErrno, b'⟩

/-! ## What the kernel places -/

variable {b}

theorem sum_iovecs_le (b : Buffer) :
    (b.iovecs.map Prod.snd).sum ≤ b.writableBytes + extrabufSize := by
  rw [iovecs]
  split
  · exact le_of_eq (by simp)
  · simp

theorem extrabuf_mem_iovecs (b : Buffer) :
    (ReadArea.extrabuf, extrabufSize) ∈ b.iovecs ↔ b.writableBytes < extrabufSize := by
  rw [iovecs]
  split
  next h => simp [h]
  next h => simp [h]

theorem scatter_writable (b : Buffer) (data : Bytes) :
    Readv.scatter b.iovecs data .writable = data.take b.writableBytes := by
  rw [iovecs]
  split <;> simp [Readv.scatter]

/-- What does not fit into the buffer is on the stack, as long as the areas hold it all. -/
theorem scatter_extrabuf {data : Bytes} (h : data.length ≤ (b.iovecs.map Prod.snd).sum) :
    Readv.scatter b.iovecs data .extrabuf = data.drop b.writableBytes := by
  rw [iovecs] at h ⊢
  split at h
  next hlt =>
    have hlen : data.length ≤ b.writableBytes + extrabufSize := by simpa using h
    have htake : (data.drop b.writableBytes).take extrabufSize = data.drop b.writableBytes := by
      apply take_of_length_le
      rw [length_drop]
      omega
    rw [if_pos hlt]
    simpa [Readv.scatter] using htake
  next hge =>
    have hlen : data.length ≤ b.writableBytes := by simpa using h
    rw [if_neg hge, drop_eq_nil_of_le hlen]
    simp [Readv.scatter]

theorem copyToWritable_nil (b : Buffer) : b.copyToWritable [] = b := by
  have h : writeAt b.buffer b.writerIndex [] = b.buffer := by
    rw [writeAt, append_nil, length_nil, Nat.add_zero, take_append_drop]
  rw [copyToWritable, h]

/-- The first bytes of the stack area are those that the kernel has placed there. -/
theorem take_writeAt_zero (l data : Bytes) : (writeAt l 0 data).take data.length = data := by
  rw [writeAt, take_zero, nil_append, take_left]

/-! ## The three outcomes -/

theorem readFd_of_failed {r : Readv} (hn : r.n < 0) (hdata : r.data = []) (extrabuf : Bytes)
    (savedErrno : ℕ) : b.readFd extrabuf savedErrno r = .ok ⟨r.n, r.errno, b⟩ := by
  rw [readFd, if_pos hn, scatter_writable, hdata, take_nil, copyToWritable_nil]

/-- Moving the writer index past bytes in the writable area appends them. -/
theorem written_spec (h : b.Inv) {data : Bytes} (hlen : data.length ≤ b.writableBytes) :
    Inv { b.copyToWritable data with writerIndex := b.writerIndex + data.length } ∧
      content { b.copyToWritable data with writerIndex := b.writerIndex + data.length } =
        b.content ++ data := by
  obtain ⟨b', hb', hinv, hcont, hwriter⟩ := hasWritten_spec h hlen
  rw [hasWritten, assert_bind_eq_ok, pure_eq_ok] at hb'
  obtain ⟨-, rfl⟩ := hb'
  have heq : sizeAdd (b.copyToWritable data).writerIndex data.length =
      b.writerIndex + data.length := hwriter
  rw [heq] at hinv hcont
  exact ⟨hinv, hcont⟩

theorem readFd_of_fits (h : b.Inv) {r : Readv} (hn : r.n = r.data.length)
    (hfit : r.data.length ≤ b.writableBytes) (extrabuf : Bytes) (savedErrno : ℕ) :
    ∃ b', b.readFd extrabuf savedErrno r = .ok ⟨r.n, savedErrno, b'⟩ ∧ b'.Inv ∧
      b'.content = b.content ++ r.data := by
  have hw := h.writer_le
  have hb := h.bounded
  have hroom := hfit
  rw [h.writableBytes_eq] at hroom
  obtain ⟨hinv, hcont⟩ := written_spec h hfit
  have hnat : r.n.toNat = r.data.length := by omega
  have hadd : sizeAdd (b.copyToWritable r.data).writerIndex r.n.toNat =
      b.writerIndex + r.data.length := by
    rw [hnat]
    change sizeAdd b.writerIndex r.data.length = _
    exact sizeAdd_of_bounded (by omega) (by omega)
  refine ⟨_, ?_, hinv, hcont⟩
  rw [readFd, if_neg (by omega), if_pos (by omega), scatter_writable,
    take_of_length_le hfit, hadd]

/-- The bytes that do not fit are appended once the writer index is at the end of the block. -/
theorem readFd_of_exceeds (h : b.Inv) {r : Readv} (hn : r.n = r.data.length)
    (hlarge : b.writableBytes < r.data.length)
    (hsum : r.data.length ≤ (b.iovecs.map Prod.snd).sum) (extrabuf : Bytes)
    (savedErrno : ℕ) :
    (∃ b', b.readFd extrabuf savedErrno r = .ok ⟨r.n, savedErrno, b'⟩ ∧ b'.Inv ∧
      b'.content = b.content ++ r.data) ∨
    (b.readFd extrabuf savedErrno r = .error .lengthError ∧
      sizeBound ≤ b.writerIndex + r.data.length) := by
  have hw := h.writer_le
  have hb := h.bounded
  have hwr := h.writableBytes_eq
  have hle := hsum.trans (sum_iovecs_le b)
  have hextra : extrabufSize < sizeBound := by decide
  have hnat : r.n.toNat = r.data.length := by omega
  set first := r.data.take b.writableBytes with hfirst
  set second := r.data.drop b.writableBytes with hsecond
  have hlen₁ : first.length = b.writableBytes := by
    rw [hfirst, length_take]
    omega
  have hlen₂ : second.length = r.data.length - b.writableBytes := by
    rw [hsecond, length_drop]
  -- the block with the first half in it and nothing writable behind
  obtain ⟨hinv, hcont⟩ := written_spec h hlen₁.le
  have hblock : (b.copyToWritable first).buffer.length = b.writerIndex + first.length := by
    rw [copyToWritable, length_writeAt (by omega)]
    omega
  rw [← hblock] at hinv hcont
  have hsub : sizeSub r.n.toNat b.writableBytes = second.length := by
    rw [hnat, hlen₂]
    refine sizeSub_of_le hlarge.le ?_
    simp only [sizeBound, sizeMod] at *
    omega
  have hread : b.readFd extrabuf savedErrno r =
      { b.copyToWritable first with
        writerIndex := (b.copyToWritable first).buffer.length }.append second >>=
        fun b' ↦ .ok ⟨r.n, savedErrno, b'⟩ := by
    rw [readFd, if_neg (by omega), if_neg (by omega), scatter_writable, scatter_extrabuf hsum,
      hsub, take_writeAt_zero]
  rw [hread]
  have hsmall : second.length < sizeBound := by omega
  rcases append_spec hinv hsmall with ⟨b', hb', hinv', hcont', -⟩ | ⟨herr, hbig⟩
  · refine Or.inl ⟨b', ?_, hinv', ?_⟩
    · rw [bind_of_ok hb']
    · rw [hcont', hcont, append_assoc, take_append_drop]
  · refine Or.inr ⟨?_, ?_⟩
    · rw [herr]
      rfl
    · have hbig' : sizeBound ≤ (b.copyToWritable first).buffer.length + second.length := hbig
      omega

/-- **`readFd` reassembles the stream.** Whatever the state of the buffer, the former bytes of the
stack area and the answer of `readv`: on failure the buffer is as before and the error is saved;
otherwise the bytes received follow the former content, in order, unless the block this takes is
larger than any vector can be. The stack area is offered exactly if less than its size is writable.
-/
theorem readFd_appends_received (b : Buffer) (h : b.Inv) (extrabuf : Bytes) (savedErrno : ℕ)
    (r : Readv) (hr : r.Consistent b.iovecs) :
    (r.n < 0 → b.readFd extrabuf savedErrno r = .ok ⟨r.n, r.errno, b⟩) ∧
    (0 ≤ r.n →
      (∃ b', b.readFd extrabuf savedErrno r = .ok ⟨r.n, savedErrno, b'⟩ ∧ b'.Inv ∧
        b'.content = b.content ++ r.data) ∨
      (b.readFd extrabuf savedErrno r = .error .lengthError ∧
        sizeBound ≤ b.writerIndex + r.data.length)) ∧
    ((.extrabuf, extrabufSize) ∈ b.iovecs ↔ b.writableBytes < extrabufSize) := by
  refine ⟨fun hn ↦ ?_, fun hn ↦ ?_, extrabuf_mem_iovecs b⟩
  · rcases hr with ⟨-, hdata⟩ | ⟨hlen, -⟩
    · exact readFd_of_failed hn hdata extrabuf savedErrno
    · omega
  · rcases hr with ⟨hneg, -⟩ | ⟨hlen, hsum⟩
    · omega
    · by_cases hfit : r.data.length ≤ b.writableBytes
      · exact Or.inl (readFd_of_fits h hlen hfit extrabuf savedErrno)
      · exact readFd_of_exceeds h hlen (by omega) hsum extrabuf savedErrno

/-- Two of five bytes fit. The content has room in front of it, so the other three are appended by
moving it there. -/
theorem readFd_appends_received_compacted :
    ∃ b', (Buffer.mk (List.replicate 14 7) 11 12).readFd [] 0 ⟨5, 0, [1, 2, 3, 4, 5]⟩ =
        .ok ⟨5, 0, b'⟩ ∧ b'.content = [7, 1, 2, 3, 4, 5] := by
  have h : (Buffer.mk (List.replicate 14 7) 11 12).Inv :=
    ⟨by decide, by decide, by decide, by decide⟩
  obtain ⟨-, hread, -⟩ := readFd_appends_received _ h [] 0 ⟨5, 0, [1, 2, 3, 4, 5]⟩ (by decide)
  rcases hread (by decide) with ⟨b', hb', -, hcont⟩ | ⟨-, hbig⟩
  · exact ⟨b', hb', hcont⟩
  · exact absurd hbig (by decide)

end Buffer

end Fishnet

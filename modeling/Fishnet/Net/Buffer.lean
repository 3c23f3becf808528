import Fishnet.Library.Vector
import Fishnet.Library.Window

/-!
# The network buffer

`net::Buffer` is a byte vector with a reader and a writer index. What lies between the two is the
readable content; the bytes before it can be prepended to, the bytes after it can be written into.

```text
+-------------------+------------------+------------------+
| prependable bytes |  readable bytes  |  writable bytes  |
+-------------------+------------------+------------------+
0      <=      readerIndex   <=   writerIndex    <=     size
```

## The invariant

The indices are ordered and the block never shrinks below the `kCheapPrepend` bytes it starts with.
Nothing is said about `readerIndex` and `kCheapPrepend`: `prepend` does push the reader below it.
The assertion `kCheapPrepend < readerIndex_` of the compacting branch of `makeSpace` therefore
cannot come from the invariant. It comes from the two tests that lead there: too little room behind
the writer, but enough in front of the reader and behind the writer together.

## The shape of the results

Each operation gets one lemma saying that within its precondition it goes through, keeps the
invariant, and changes the content as the corresponding list operation does. An operation that may
have to grow the vector has a second outcome, `lengthError`, and the lemma says when.
-/

namespace Fishnet

open List

/-- `net::Buffer`. -/
structure Buffer where
  /-- `buffer_`. -/
  buffer : Bytes
  /-- `readerIndex_`. -/
  readerIndex : ℕ
  /-- `writerIndex_`. -/
  writerIndex : ℕ
  deriving DecidableEq, Repr

namespace Buffer

/-- `Buffer::kCheapPrepend`. -/
def kCheapPrepend : ℕ := 8

/-- `Buffer::kInitialSize`. -/
def kInitialSize : ℕ := 1024

variable (b : Buffer)

def readableBytes : ℕ := sizeSub b.writerIndex b.readerIndex

def writableBytes : ℕ := sizeSub b.buffer.length b.writerIndex

def prependableBytes : ℕ := b.readerIndex

/-- The readable bytes, from `peek()` to `beginWrite()`. -/
def content : Bytes := window b.buffer b.readerIndex b.writerIndex

/-- `Buffer(size_t initialSize)`. -/
def new (initialSize : ℕ) : Checked Buffer := do
  let block ← resize ([] : Bytes) (sizeAdd kCheapPrepend initialSize)
  let b : Buffer := ⟨block, kCheapPrepend, kCheapPrepend⟩
  assert (b.readableBytes = 0)
  assert (b.writableBytes = initialSize)
  assert (b.prependableBytes = kCheapPrepend)
  pure b

def retrieveAll : Buffer := { b with readerIndex := kCheapPrepend, writerIndex := kCheapPrepend }

def retrieve (len : ℕ) : Checked Buffer := do
  assert (len ≤ b.readableBytes)
  if len < b.readableBytes then
    pure { b with readerIndex := sizeAdd b.readerIndex len }
  else
    pure b.retrieveAll

/-- `retrieveUntil(end)`, with `end` given by its offset from the start of the block. -/
def retrieveUntil (e : ℕ) : Checked Buffer := do
  assert (b.readerIndex ≤ e)
  assert (e ≤ b.writerIndex)
  b.retrieve (e - b.readerIndex)

/-- `retrieveAsString`: the string returned and the buffer left. -/
def retrieveAsString (len : ℕ) : Checked (Bytes × Buffer) := do
  assert (len ≤ b.readableBytes)
  let result := window b.buffer b.readerIndex (b.readerIndex + len)
  let b' ← b.retrieve len
  pure (result, b')

def makeSpace (len : ℕ) : Checked Buffer := do
  if sizeAdd b.writableBytes b.prependableBytes < sizeAdd len kCheapPrepend then
    let block ← resize b.buffer (sizeAdd b.writerIndex len)
    pure { b with buffer := block }
  else
    -- move readable data to the front, make space inside the block
    assert (kCheapPrepend < b.readerIndex)
    let readable := b.readableBytes
    let block :=
      copyWithin b.buffer b.readerIndex kCheapPrepend (b.writerIndex - b.readerIndex)
    let b' : Buffer := ⟨block, kCheapPrepend, sizeAdd kCheapPrepend readable⟩
    assert (readable = b'.readableBytes)
    pure b'

def ensureWritableBytes (len : ℕ) : Checked Buffer := do
  let b' ← if b.writableBytes < len then b.makeSpace len else pure b
  assert (len ≤ b'.writableBytes)
  pure b'

def hasWritten (len : ℕ) : Checked Buffer := do
  assert (len ≤ b.writableBytes)
  pure { b with writerIndex := sizeAdd b.writerIndex len }

/-- What a caller does with `beginWrite()`: copy bytes into the writable area. -/
def copyToWritable (data : Bytes) : Buffer :=
  { b with buffer := writeAt b.buffer b.writerIndex data }

def append (data : Bytes) : Checked Buffer := do
  let b' ← b.ensureWritableBytes data.length
  (b'.copyToWritable data).hasWritten data.length

def unwrite (len : ℕ) : Checked Buffer := do
  assert (len ≤ b.readableBytes)
  pure { b with writerIndex := sizeSub b.writerIndex len }

def prepend (data : Bytes) : Checked Buffer := do
  assert (data.length ≤ b.prependableBytes)
  let readerIndex := sizeSub b.readerIndex data.length
  pure { b with buffer := writeAt b.buffer readerIndex data, readerIndex := readerIndex }

/-! ## The invariant -/

/-- The index invariant, with the bound that `max_size()` puts on every block. -/
structure Inv : Prop where
  cheap_le : kCheapPrepend ≤ b.buffer.length
  reader_le : b.readerIndex ≤ b.writerIndex
  writer_le : b.writerIndex ≤ b.buffer.length
  bounded : b.buffer.length < sizeBound

variable {b}

theorem Inv.readableBytes_eq (h : b.Inv) : b.readableBytes = b.writerIndex - b.readerIndex :=
  sizeSub_of_bounded h.reader_le (h.writer_le.trans_lt h.bounded)

theorem Inv.writableBytes_eq (h : b.Inv) : b.writableBytes = b.buffer.length - b.writerIndex :=
  sizeSub_of_bounded h.writer_le h.bounded

theorem Inv.length_content (h : b.Inv) : b.content.length = b.readableBytes := by
  rw [h.readableBytes_eq, content, length_window h.writer_le]

theorem Inv.content_lt (h : b.Inv) : b.content.length < sizeBound := by
  have := h.writer_le
  have := h.bounded
  rw [h.length_content, h.readableBytes_eq]
  omega

theorem Inv.content_eq_nil_iff (h : b.Inv) : b.content = [] ↔ b.readableBytes = 0 := by
  rw [← h.length_content, length_eq_zero_iff]

/-- The indices of a new buffer are at `kCheapPrepend`; no assertion of the constructor fails. -/
theorem new_eq {n : ℕ} (hn : kCheapPrepend + n < sizeBound) :
    new n = .ok ⟨replicate (kCheapPrepend + n) default, kCheapPrepend, kCheapPrepend⟩ := by
  have hc : kCheapPrepend < sizeBound := by decide
  have hblock : resize ([] : Bytes) (sizeAdd kCheapPrepend n)
      = .ok (replicate (kCheapPrepend + n) default) := by
    rw [sizeAdd_of_bounded hc (by omega), resize_grow (Nat.zero_le _) hn]
    rfl
  have hwritable : sizeSub (replicate (kCheapPrepend + n) (default : UInt8)).length
      kCheapPrepend = n := by
    rw [length_replicate, sizeSub_of_bounded (Nat.le_add_right _ _) hn,
      Nat.add_sub_cancel_left]
  rw [new, bind_of_ok hblock]
  have hread : sizeSub kCheapPrepend kCheapPrepend = 0 := by decide
  exact (assert_bind_of hread _).trans
    ((assert_bind_of hwritable _).trans (assert_bind_of rfl _))

theorem new_spec {n : ℕ} (hn : kCheapPrepend + n < sizeBound) :
    ∃ b, new n = .ok b ∧ b.Inv ∧ b.content = [] := by
  have hlen : (replicate (kCheapPrepend + n) (default : UInt8)).length = kCheapPrepend + n :=
    length_replicate ..
  refine ⟨_, new_eq hn, ⟨?_, le_refl _, ?_, ?_⟩, window_self _ _⟩
  · exact (Nat.le_add_right _ _).trans_eq hlen.symm
  · exact (Nat.le_add_right _ _).trans_eq hlen.symm
  · exact hlen.trans_lt hn

variable (h : b.Inv)
include h

theorem retrieveAll_spec : b.retrieveAll.Inv ∧ b.retrieveAll.content = [] :=
  ⟨⟨h.cheap_le, le_refl _, h.cheap_le, h.bounded⟩, window_self _ _⟩

theorem retrieve_spec {len : ℕ} (hlen : len ≤ b.readableBytes) :
    ∃ b', b.retrieve len = .ok b' ∧ b'.Inv ∧ b'.content = b.content.drop len := by
  have hr := h.reader_le
  have hw := h.writer_le
  have hb := h.bounded
  rw [retrieve, assert_bind_of hlen]
  split
  next hlt =>
    rw [h.readableBytes_eq] at hlt
    have hadd : sizeAdd b.readerIndex len = b.readerIndex + len :=
      sizeAdd_of_bounded (by omega) (by omega)
    refine ⟨_, rfl, ⟨h.cheap_le, ?_, hw, hb⟩, ?_⟩
    · change sizeAdd b.readerIndex len ≤ b.writerIndex
      omega
    · change window b.buffer (sizeAdd b.readerIndex len) b.writerIndex = _
      rw [hadd, window_add_left, content]
  next hge =>
    obtain ⟨hinv, hnil⟩ := retrieveAll_spec h
    refine ⟨_, rfl, hinv, ?_⟩
    rw [hnil, eq_comm, drop_eq_nil_iff, h.length_content]
    omega

theorem retrieveUntil_spec {n : ℕ} (hn : n ≤ b.readableBytes) :
    ∃ b', b.retrieveUntil (b.readerIndex + n) = .ok b' ∧ b'.Inv ∧
      b'.content = b.content.drop n := by
  have hle : b.readerIndex + n ≤ b.writerIndex := by
    have := h.reader_le
    rw [h.readableBytes_eq] at hn
    omega
  rw [retrieveUntil, assert_bind_of (Nat.le_add_right _ _), assert_bind_of hle,
    Nat.add_sub_cancel_left]
  exact retrieve_spec h hn

theorem retrieveAsString_spec {len : ℕ} (hlen : len ≤ b.readableBytes) :
    ∃ b', b.retrieveAsString len = .ok (b.content.take len, b') ∧ b'.Inv ∧
      b'.content = b.content.drop len := by
  obtain ⟨b', hb', hinv, hc⟩ := retrieve_spec h hlen
  have hres : window b.buffer b.readerIndex (b.readerIndex + len) = b.content.take len := by
    rw [h.readableBytes_eq] at hlen
    rw [content, window, window, take_take]
    congr 1
    omega
  refine ⟨b', ?_, hinv, hc⟩
  rw [retrieveAsString, assert_bind_of hlen, bind_of_ok hb', hres]
  rfl

theorem unwrite_spec {len : ℕ} (hlen : len ≤ b.readableBytes) :
    ∃ b', b.unwrite len = .ok b' ∧ b'.Inv ∧
      b'.content = b.content.take (b.content.length - len) := by
  have hr := h.reader_le
  have hw := h.writer_le
  have hb := h.bounded
  have hlen' := hlen
  rw [h.readableBytes_eq] at hlen'
  have hsub : sizeSub b.writerIndex len = b.writerIndex - len :=
    sizeSub_of_bounded (by omega) (by omega)
  refine ⟨{ b with writerIndex := sizeSub b.writerIndex len }, ?_,
    ⟨h.cheap_le, ?_, ?_, hb⟩, ?_⟩
  · rw [unwrite, assert_bind_of hlen]
    rfl
  · change b.readerIndex ≤ sizeSub b.writerIndex len
    omega
  · change sizeSub b.writerIndex len ≤ b.buffer.length
    omega
  · change window b.buffer b.readerIndex (sizeSub b.writerIndex len) = _
    rw [hsub, window_sub_right, h.length_content, h.readableBytes_eq]
    rfl

theorem prepend_spec {data : Bytes} (hlen : data.length ≤ b.prependableBytes) :
    ∃ b', b.prepend data = .ok b' ∧ b'.Inv ∧ b'.content = data ++ b.content := by
  have hr := h.reader_le
  have hw := h.writer_le
  have hb := h.bounded
  have hlen' : data.length ≤ b.readerIndex := hlen
  have hsub : sizeSub b.readerIndex data.length = b.readerIndex - data.length :=
    sizeSub_of_bounded hlen' (by omega)
  have hblock : (writeAt b.buffer (b.readerIndex - data.length) data).length = b.buffer.length :=
    length_writeAt (by omega)
  refine ⟨⟨writeAt b.buffer (b.readerIndex - data.length) data, b.readerIndex - data.length,
    b.writerIndex⟩, ?_, ⟨?_, ?_, ?_, ?_⟩, window_writeAt_lower hlen' hr hw⟩
  · rw [prepend, assert_bind_of hlen, hsub]
    rfl
  · exact hblock ▸ h.cheap_le
  · exact (Nat.sub_le _ _).trans hr
  · exact hblock ▸ hw
  · exact hblock ▸ hb

/-- Writing into the writable area and announcing it appends. -/
theorem hasWritten_spec {data : Bytes} (hlen : data.length ≤ b.writableBytes) :
    ∃ b', (b.copyToWritable data).hasWritten data.length = .ok b' ∧ b'.Inv ∧
      b'.content = b.content ++ data ∧ b'.writerIndex = b.writerIndex + data.length := by
  have hr := h.reader_le
  have hw := h.writer_le
  have hb := h.bounded
  have hlen' := hlen
  rw [h.writableBytes_eq] at hlen'
  have hblock : (writeAt b.buffer b.writerIndex data).length = b.buffer.length :=
    length_writeAt (by omega)
  have hadd : sizeAdd b.writerIndex data.length = b.writerIndex + data.length :=
    sizeAdd_of_bounded (by omega) (by omega)
  have hroom : data.length ≤ (b.copyToWritable data).writableBytes := by
    change data.length ≤ sizeSub (writeAt b.buffer b.writerIndex data).length b.writerIndex
    rw [hblock]
    exact hlen
  refine ⟨⟨writeAt b.buffer b.writerIndex data, b.readerIndex, b.writerIndex + data.length⟩,
    ?_, ⟨?_, ?_, ?_, ?_⟩, window_writeAt_upper hr (by omega), rfl⟩
  · rw [hasWritten, assert_bind_of hroom]
    change Except.ok (Buffer.mk _ _ (sizeAdd b.writerIndex data.length)) = _
    rw [hadd]
    rfl
  · exact hblock ▸ h.cheap_le
  · exact hr.trans (Nat.le_add_right _ _)
  · change b.writerIndex + data.length ≤ (writeAt b.buffer b.writerIndex data).length
    omega
  · exact hblock ▸ hb

/-! ## Making space -/

theorem makeSpace_grow {len : ℕ} (hneed : b.writableBytes < len)
    (hsmall : b.writableBytes + b.readerIndex < len + kCheapPrepend)
    (hlen : len < sizeBound) (hfit : b.writerIndex + len < sizeBound) :
    ∃ b', b.makeSpace len = .ok b' ∧ b'.Inv ∧ b'.content = b.content ∧
      len ≤ b'.writableBytes ∧ b'.writerIndex ≤ b.writerIndex := by
  have hr := h.reader_le
  have hw := h.writer_le
  have hb := h.bounded
  have hc : kCheapPrepend < sizeBound := by decide
  rw [h.writableBytes_eq] at hneed hsmall
  have htest : sizeAdd b.writableBytes b.prependableBytes < sizeAdd len kCheapPrepend := by
    rw [h.writableBytes_eq, prependableBytes, sizeAdd_of_bounded (by omega) (by omega),
      sizeAdd_of_bounded hlen hc]
    exact hsmall
  have hblock : resize b.buffer (sizeAdd b.writerIndex len)
      = .ok (b.buffer ++ replicate (b.writerIndex + len - b.buffer.length) default) := by
    rw [sizeAdd_of_bounded (by omega) hlen, resize_grow (by omega) hfit]
  set block := b.buffer ++ replicate (b.writerIndex + len - b.buffer.length) default
    with hblockDef
  have hsize : block.length = b.writerIndex + len := by
    rw [hblockDef, length_append, length_replicate]
    omega
  -- the indices stay where they are in the longer block
  have hinv : Inv { b with buffer := block } := by
    refine ⟨?_, hr, ?_, ?_⟩
    · change kCheapPrepend ≤ block.length
      have := h.cheap_le
      omega
    · change b.writerIndex ≤ block.length
      omega
    · change block.length < sizeBound
      omega
  refine ⟨_, ?_, hinv, window_append_right hw _ _, ?_, le_refl _⟩
  · rw [makeSpace, if_pos htest, bind_of_ok hblock]
    rfl
  · rw [hinv.writableBytes_eq]
    change len ≤ block.length - b.writerIndex
    omega

/-- The compacting branch of `makeSpace`. Too little room behind the writer, but enough on both
sides together, is exactly what puts the reader beyond `kCheapPrepend`. -/
theorem makeSpace_compact {len : ℕ} (hneed : b.writableBytes < len)
    (hlarge : len + kCheapPrepend ≤ b.writableBytes + b.readerIndex) (hlen : len < sizeBound) :
    ∃ b', b.makeSpace len = .ok b' ∧ b'.Inv ∧ b'.content = b.content ∧
      len ≤ b'.writableBytes ∧ b'.writerIndex ≤ b.writerIndex := by
  have hr := h.reader_le
  have hw := h.writer_le
  have hb := h.bounded
  have hc : kCheapPrepend < sizeBound := by decide
  rw [h.writableBytes_eq] at hneed hlarge
  have hassert : kCheapPrepend < b.readerIndex := by omega
  have htest : ¬sizeAdd b.writableBytes b.prependableBytes < sizeAdd len kCheapPrepend := by
    rw [h.writableBytes_eq, prependableBytes, sizeAdd_of_bounded (by omega) (by omega),
      sizeAdd_of_bounded hlen hc]
    omega
  set n := b.writerIndex - b.readerIndex with hn
  have hwriter : sizeAdd kCheapPrepend b.readableBytes = kCheapPrepend + n := by
    rw [h.readableBytes_eq, sizeAdd_of_bounded hc (by omega)]
  set b' : Buffer := ⟨copyWithin b.buffer b.readerIndex kCheapPrepend n, kCheapPrepend,
    kCheapPrepend + n⟩ with hb'
  have hsize : b'.buffer.length = b.buffer.length := length_copyWithin _ _ _ _
  have hinv : b'.Inv := by
    refine ⟨hsize ▸ h.cheap_le, Nat.le_add_right _ _, ?_, hsize ▸ hb⟩
    change kCheapPrepend + n ≤ b'.buffer.length
    omega
  have hread : b.readableBytes = b'.readableBytes := by
    rw [h.readableBytes_eq, hinv.readableBytes_eq]
    exact (Nat.add_sub_cancel_left ..).symm
  refine ⟨b', ?_, hinv, ?_, ?_, ?_⟩
  · rw [makeSpace, if_neg htest, assert_bind_of hassert]
    change (assert (b.readableBytes = (Buffer.mk _ _ (sizeAdd _ _)).readableBytes) >>= _) = _
    rw [hwriter, assert_bind_of hread]
    rfl
  · change window (copyWithin _ _ _ _) _ _ = window _ _ _
    rw [window_copyWithin hassert.le (by omega)]
    congr 1
    omega
  · rw [hinv.writableBytes_eq, hsize]
    change len ≤ b.buffer.length - (kCheapPrepend + n)
    omega
  · change kCheapPrepend + n ≤ b.writerIndex
    omega

/-- `ensureWritableBytes` makes the room without touching the content, unless the block it would
need is larger than any vector can be. No assertion fails either way. -/
theorem ensureWritableBytes_spec {len : ℕ} (hlen : len < sizeBound) :
    (∃ b', b.ensureWritableBytes len = .ok b' ∧ b'.Inv ∧ b'.content = b.content ∧
      len ≤ b'.writableBytes ∧ b'.writerIndex ≤ b.writerIndex) ∨
    (b.ensureWritableBytes len = .error .lengthError ∧ sizeBound ≤ b.writerIndex + len) := by
  have hw := h.writer_le
  have hb := h.bounded
  have hr := h.reader_le
  have lift : (∃ b', b.makeSpace len = .ok b' ∧ b'.Inv ∧ b'.content = b.content ∧
      len ≤ b'.writableBytes ∧ b'.writerIndex ≤ b.writerIndex) → b.writableBytes < len →
      ∃ b', b.ensureWritableBytes len = .ok b' ∧ b'.Inv ∧ b'.content = b.content ∧
        len ≤ b'.writableBytes ∧ b'.writerIndex ≤ b.writerIndex := by
    rintro ⟨b', hb', hinv, hcont, hroom, hwriter⟩ hneed
    refine ⟨b', ?_, hinv, hcont, hroom, hwriter⟩
    rw [ensureWritableBytes, if_pos hneed, bind_of_ok hb']
    exact assert_bind_of hroom _
  by_cases hneed : b.writableBytes < len
  · by_cases hlarge : len + kCheapPrepend ≤ b.writableBytes + b.readerIndex
    · exact Or.inl (lift (makeSpace_compact h hneed hlarge hlen) hneed)
    · by_cases hfit : b.writerIndex + len < sizeBound
      · exact Or.inl (lift (makeSpace_grow h hneed (by omega) hlen hfit) hneed)
      · refine Or.inr ⟨?_, by omega⟩
        have hc : kCheapPrepend < sizeBound := by decide
        have htest : sizeAdd b.writableBytes b.prependableBytes < sizeAdd len kCheapPrepend := by
          rw [h.writableBytes_eq] at hlarge ⊢
          rw [prependableBytes, sizeAdd_of_bounded (by omega) (by omega),
            sizeAdd_of_bounded hlen hc]
          omega
        rw [ensureWritableBytes, if_pos hneed, makeSpace, if_pos htest,
          sizeAdd_of_bounded (by omega) hlen, resize_of_sizeBound_le _ (by omega)]
        rfl
  · refine Or.inl ⟨b, ?_, h, rfl, by omega, le_refl _⟩
    rw [ensureWritableBytes, if_neg hneed]
    exact assert_bind_of (by omega) _

/-- `append` adds its data to the content, unless the block it would need is larger than any vector
can be. -/
theorem append_spec {data : Bytes} (hlen : data.length < sizeBound) :
    (∃ b', b.append data = .ok b' ∧ b'.Inv ∧ b'.content = b.content ++ data ∧
      b'.writerIndex ≤ b.writerIndex + data.length) ∨
    (b.append data = .error .lengthError ∧ sizeBound ≤ b.writerIndex + data.length) := by
  rcases ensureWritableBytes_spec h hlen with ⟨b', hb', hinv, hcont, hroom, hwriter⟩ | ⟨herr, hbig⟩
  · obtain ⟨b'', hb'', hinv', hcont', hwriter'⟩ := hasWritten_spec hinv hroom
    refine Or.inl ⟨b'', ?_, hinv', ?_, by omega⟩
    · rw [append, bind_of_ok hb', hb'']
    · rw [hcont', hcont]
  · refine Or.inr ⟨?_, hbig⟩
    rw [append, herr]
    rfl

end Buffer

end Fishnet

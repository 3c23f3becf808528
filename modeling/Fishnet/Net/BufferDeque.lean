import Fishnet.Library.Run
import Fishnet.Net.Buffer

/-!
# The buffer refines a byte deque

The abstract state is a family of byte lists, one for each buffer of the program, and an operation
appends, drops from an end, prepends, exchanges two of the lists or does nothing. The concrete state
is the family of buffers. A family rather than one buffer, because `swap` involves two.

The refinement is a single simulation: `Represents` relates a family of buffers to its contents and
records the index invariant, `step_simulates` is one case per operation, and each case is the
specification of that operation from `Fishnet.Net.Buffer`. The run theorem then only has to quote
the simulation rule.

An operation's precondition is what its own `assert`s demand, and for the two operations that may
grow the block, that the block stays below `sizeBound`.
-/

namespace Fishnet

open Function Buffer

/-- The operations on a family of buffers indexed by `ι`. -/
inductive BufferOp (ι : Type) where
  | append (i : ι) (data : Bytes)
  | retrieve (i : ι) (len : ℕ)
  | retrieveAll (i : ι)
  /-- `retrieveUntil(peek() + n)`. -/
  | retrieveUntil (i : ι) (n : ℕ)
  | retrieveAsString (i : ι) (len : ℕ)
  | unwrite (i : ι) (len : ℕ)
  | prepend (i : ι) (data : Bytes)
  | ensureWritableBytes (i : ι) (len : ℕ)
  /-- Copy `data` to `beginWrite()`, then `hasWritten(data.length)`. -/
  | hasWritten (i : ι) (data : Bytes)
  | swap (i j : ι)
  deriving DecidableEq

namespace BufferOp

variable {ι : Type} [DecidableEq ι]

variable (s : ι → Buffer)

/-- Run a single-buffer operation on the buffer `i` of the family. -/
def onBuffer (i : ι) (f : Buffer → Checked Buffer) :
    Checked (ι → Buffer) := do
  let b ← f (s i)
  pure (update s i b)

/-- What the operation does to the buffers. -/
def step : BufferOp ι → Checked (ι → Buffer)
  | append i data => onBuffer s i fun b ↦ b.append data
  | retrieve i len => onBuffer s i fun b ↦ b.retrieve len
  | retrieveAll i => onBuffer s i fun b ↦ pure b.retrieveAll
  | retrieveUntil i n => onBuffer s i fun b ↦ b.retrieveUntil (b.readerIndex + n)
  | retrieveAsString i len => onBuffer s i fun b ↦ do
      let (_, b') ← b.retrieveAsString len
      pure b'
  | unwrite i len => onBuffer s i fun b ↦ b.unwrite len
  | prepend i data => onBuffer s i fun b ↦ b.prepend data
  | ensureWritableBytes i len => onBuffer s i fun b ↦ b.ensureWritableBytes len
  | hasWritten i data => onBuffer s i fun b ↦ (b.copyToWritable data).hasWritten data.length
  | swap i j => pure (update (update s i (s j)) j (s i))

/-- The operation's own assertions, and that the sizes stay below `sizeBound`. -/
def Pre : BufferOp ι → Prop
  | append i data => (s i).writerIndex + data.length < sizeBound
  | retrieve i len => len ≤ (s i).readableBytes
  | retrieveAll _ => True
  | retrieveUntil i n => n ≤ (s i).readableBytes
  | retrieveAsString i len => len ≤ (s i).readableBytes
  | unwrite i len => len ≤ (s i).readableBytes
  | prepend i data => data.length ≤ (s i).prependableBytes
  | ensureWritableBytes i len => (s i).writerIndex + len < sizeBound
  | hasWritten i data => data.length ≤ (s i).writableBytes
  | swap _ _ => True

/-- The corresponding operation on the abstract deques. -/
def dequeStep (d : ι → Bytes) : BufferOp ι → ι → Bytes
  | append i data => update d i (d i ++ data)
  | retrieve i len => update d i ((d i).drop len)
  | retrieveAll i => update d i []
  | retrieveUntil i n => update d i ((d i).drop n)
  | retrieveAsString i len => update d i ((d i).drop len)
  | unwrite i len => update d i ((d i).take ((d i).length - len))
  | prepend i data => update d i (data ++ d i)
  | ensureWritableBytes _ _ => d
  | hasWritten i data => update d i (d i ++ data)
  | swap i j => update (update d i (d j)) j (d i)

/-- The family `s` stores the deques `d`, every buffer within its index invariant. -/
def Represents (d : ι → Bytes) : Prop :=
  ∀ i, (s i).Inv ∧ (s i).content = d i

theorem Represents.update {s : ι → Buffer} {d : ι → Bytes} (h : Represents s d) (i : ι)
    {b : Buffer} {l : Bytes} (hb : b.Inv) (hl : b.content = l) :
    Represents (update s i b) (update d i l) := by
  intro j
  by_cases hj : j = i
  · subst hj
    rw [update_self, update_self]
    exact ⟨hb, hl⟩
  · rw [update_of_ne hj, update_of_ne hj]
    exact h j

/-- An operation on one buffer simulates the deque operation its specification names. -/
theorem onBuffer_simulates {s : ι → Buffer} {d : ι → Bytes} (h : Represents s d) {i : ι}
    {f : Buffer → Checked Buffer} {l : Bytes}
    (hf : ∃ b', f (s i) = .ok b' ∧ b'.Inv ∧ b'.content = l) :
    ∃ s', onBuffer s i f = .ok s' ∧ Represents s' (update d i l) := by
  obtain ⟨b', hb', hinv, hl⟩ := hf
  refine ⟨update s i b', ?_, h.update i hinv hl⟩
  rw [onBuffer, bind_of_ok hb']
  rfl

/-- **One step.** Within its precondition every operation goes through and does to the contents what
its deque counterpart does. -/
theorem step_simulates (d : ι → Bytes) (op : BufferOp ι)
    (h : Represents s d) (hpre : op.Pre s) :
    ∃ s', step s op = .ok s' ∧ Represents s' (op.dequeStep d) := by
  cases op with
  | append i data =>
    rw [step, dequeStep]
    apply onBuffer_simulates h
    obtain ⟨hinv, hd⟩ := h i
    have hpre' : (s i).writerIndex + data.length < sizeBound := hpre
    have hlen : data.length < sizeBound := by omega
    rcases append_spec hinv hlen with ⟨b', hb', hinv', hcont, -⟩ | ⟨-, hbig⟩
    · exact ⟨b', hb', hinv', by rw [hcont, hd]⟩
    · omega
  | retrieve i len =>
    rw [step, dequeStep]
    apply onBuffer_simulates h
    rw [← (h i).2]
    exact retrieve_spec (h i).1 hpre
  | retrieveAll i =>
    rw [step, dequeStep]
    apply onBuffer_simulates h
    exact ⟨_, rfl, retrieveAll_spec (h i).1⟩
  | retrieveUntil i n =>
    rw [step, dequeStep]
    apply onBuffer_simulates h
    rw [← (h i).2]
    exact retrieveUntil_spec (h i).1 hpre
  | retrieveAsString i len =>
    rw [step, dequeStep]
    apply onBuffer_simulates h
    rw [← (h i).2]
    obtain ⟨b', hb', hinv, hc⟩ := retrieveAsString_spec (h i).1 hpre
    exact ⟨b', bind_of_ok hb' _, hinv, hc⟩
  | unwrite i len =>
    rw [step, dequeStep]
    apply onBuffer_simulates h
    rw [← (h i).2]
    exact unwrite_spec (h i).1 hpre
  | prepend i data =>
    rw [step, dequeStep]
    apply onBuffer_simulates h
    rw [← (h i).2]
    exact prepend_spec (h i).1 hpre
  | ensureWritableBytes i len =>
    obtain ⟨hinv, hd⟩ := h i
    -- the contents stay, so the deque does not change
    have hpre' : (s i).writerIndex + len < sizeBound := hpre
    have hlen : len < sizeBound := by omega
    rcases ensureWritableBytes_spec hinv hlen with
      ⟨b', hb', hinv', hcont, -, -⟩ | ⟨-, hbig⟩
    · have hsim := onBuffer_simulates h (i := i) (f := fun b ↦ b.ensureWritableBytes len)
        ⟨b', hb', hinv', hcont.trans hd⟩
      rwa [update_eq_self] at hsim
    · omega
  | hasWritten i data =>
    rw [step, dequeStep]
    apply onBuffer_simulates h
    rw [← (h i).2]
    obtain ⟨b', hb', hinv, hc, -⟩ := hasWritten_spec (h i).1 hpre
    exact ⟨b', hb', hinv, hc⟩
  | swap i j =>
    refine ⟨_, rfl, ?_⟩
    exact (h.update i (h j).1 (h j).2).update j (h i).1 (h i).2

theorem writableBytes_of_step {s s' : ι → Buffer} {d : ι → Bytes} (h : Represents s d)
    {i : ι} {len : ℕ} (hpre : Pre s (ensureWritableBytes i len))
    (hstep : step s (ensureWritableBytes i len) = .ok s') : len ≤ (s' i).writableBytes := by
  have hpre' : (s i).writerIndex + len < sizeBound := hpre
  have hlen : len < sizeBound := by omega
  rcases ensureWritableBytes_spec (h i).1 hlen with
    ⟨b', hb', -, -, hroom, -⟩ | ⟨-, hbig⟩
  · rw [step, onBuffer, bind_of_ok hb'] at hstep
    cases hstep
    rw [update_self]
    exact hroom
  · omega

omit [DecidableEq ι] in
theorem represents_new (initialSize : ι → ℕ)
    (hinit : ∀ i, Buffer.kCheapPrepend + initialSize i < sizeBound) :
    ∃ s : ι → Buffer, (∀ i, Buffer.new (initialSize i) = .ok (s i)) ∧
      Represents s fun _ ↦ [] := by
  choose s hs hinv using fun i ↦ new_spec (hinit i)
  exact ⟨s, hs, hinv⟩

/-- **The buffer refines a byte deque.** Whatever the initial sizes and whatever the sequence of
operations, as long as each is called within its own precondition: the run goes through, so no
assertion fails on the way; the indices stay ordered; the readable bytes are those of the abstract
deques; and a final `ensureWritableBytes` has made its room. -/
theorem buffers_refine_deques (initialSize : ι → ℕ)
    (hinit : ∀ i, Buffer.kCheapPrepend + initialSize i < sizeBound) :
    ∃ s₀ : ι → Buffer, (∀ i, Buffer.new (initialSize i) = .ok (s₀ i)) ∧
      ∀ ops : List (BufferOp ι), Along step (fun s op ↦ op.Pre s) s₀ ops →
        ∃ s, runAll step s₀ ops = .ok s ∧
          (∀ i, Buffer.kCheapPrepend ≤ (s i).buffer.length ∧
            (s i).readerIndex ≤ (s i).writerIndex ∧ (s i).writerIndex ≤ (s i).buffer.length) ∧
          (∀ i, (s i).content = ops.foldl dequeStep (fun _ ↦ []) i) ∧
          ∀ i len, ops.getLast? = some (ensureWritableBytes i len) →
            len ≤ (s i).writableBytes := by
  obtain ⟨s₀, hnew, hrep⟩ := represents_new initialSize hinit
  refine ⟨s₀, hnew, fun ops hpre ↦ ?_⟩
  obtain ⟨s, hrun, hs⟩ := runAll_simulates (fun s d op ↦ step_simulates s d op) hrep hpre
  refine ⟨s, hrun, fun i ↦ ⟨(hs i).1.cheap_le, (hs i).1.reader_le, (hs i).1.writer_le⟩,
    fun i ↦ (hs i).2, fun i len hlast ↦ ?_⟩
  -- Split the run before its last operation and apply the step lemma there.
  obtain ⟨front, rfl⟩ := List.getLast?_eq_some_iff.mp hlast
  obtain ⟨t, hfront, hfinal⟩ := runAll_append_eq_ok.mp hrun
  have hfrontPre := along_of_append hpre
  obtain ⟨t', ht', hrep'⟩ := runAll_simulates (fun s d op ↦ step_simulates s d op) hrep hfrontPre
  rw [hfront] at ht'
  cases ht'
  obtain ⟨s', hs', hnil⟩ := runAll_cons_eq_ok.mp hfinal
  cases hnil
  exact writableBytes_of_step hrep' (along_append hpre hfront).1 hs'

/-- Two buffers of four bytes: a prepend pushes the reader back below what was retrieved, the
`ensureWritableBytes` that follows has to grow the block, and the two are swapped. -/
theorem buffers_refine_deques_pair :
    ∃ s₀ s : Bool → Buffer, (∀ i, Buffer.new 4 = .ok (s₀ i)) ∧
      runAll step s₀ [append true [1, 2, 3], retrieve true 1, prepend true [9, 9, 9],
        ensureWritableBytes true 5, swap true false] = .ok s ∧
      (s true).content = [] ∧ (s false).content = [9, 9, 9, 2, 3] := by
  obtain ⟨s₀, hnew, hrun⟩ := buffers_refine_deques (fun _ : Bool ↦ 4) (by decide)
  have hs₀ : s₀ = fun _ ↦ ⟨List.replicate 12 0, 8, 8⟩ := by
    funext i
    exact (Except.ok.inj (hnew i)).symm
  subst hs₀
  obtain ⟨s, hs, -, hcont, -⟩ := hrun
    [append true [1, 2, 3], retrieve true 1, prepend true [9, 9, 9], ensureWritableBytes true 5,
      swap true false] (by
    refine ⟨by change _ < _; decide, fun s₁ h₁ ↦ ?_⟩
    cases h₁
    refine ⟨by change _ ≤ _; decide, fun s₂ h₂ ↦ ?_⟩
    cases h₂
    refine ⟨by change _ ≤ _; decide, fun s₃ h₃ ↦ ?_⟩
    cases h₃
    refine ⟨by change _ < _; decide, fun s₄ h₄ ↦ ?_⟩
    exact ⟨trivial, fun _ _ ↦ trivial⟩)
  exact ⟨_, s, hnew, hs, hcont true, hcont false⟩

end BufferOp

end Fishnet

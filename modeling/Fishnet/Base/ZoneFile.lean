import Fishnet.Library.Endian
import Fishnet.Library.Throwing
import Fishnet.Base.LocalTime

/-!
# Loading a zone from a TZif file

The constructor of `TimeZone` reads the first block of a TZif file: a header with six counts, the
times of the transitions, the index of a local type for each of them, the local types, and the text
with the abbreviations. The counts are signed and are used as they are.

An exception inside `readTimeZoneFile` is caught, with the data as far as they have been filled in,
and the function returns `true` in any case. So a zone is always `valid()`, whether there was a file
or not, and the indices in the file are not checked: that of a type is used at once, that of an
abbreviation in every call of `toLocalTime`.

## What is modelled

A file is `none` if it cannot be opened, and a list of bytes otherwise. `readBytes` has an array
whose length it is given on the stack. A negative length, or one that exceeds the stack, has no
meaning; `Stack` says how large the array may be. `std::vector` throws `length_error`, which is a
`logic_error`, when asked to reserve more than it can hold, as it is by a negative count. Memory is
always sufficient. What goes to `stderr` is part of the result.

## Main results

* `TimeZone.zoneFile_honest_iff`: loading is safe, and the zone usable or not valid, exactly for the
  files that are well formed.
* `TimeZone.built_ofFile`
-/

namespace Fishnet.TimeZone

open Throwing List

/-- The room for a local array, enough for the longest one of the header. -/
structure Stack where
  size : ℕ
  header_le : 15 ≤ size

/-- The file from its current position, and the data filled in so far. -/
structure Loading where
  rest : Bytes
  data : Data
  deriving DecidableEq, Repr

/-- The part of `readTimeZoneFile` inside `try`. The exceptions are `logic_error`s, with the text of
`what()`. -/
abbrev Load := Throwing String Loading

/-- `fread` of `n` bytes, all of which must be there. -/
def fread (n : ℕ) (what : String) : Load Bytes := do
  let s ← get
  modify fun s ↦ { s with rest := s.rest.drop n }
  require (n ≤ s.rest.length) what
  return s.rest.take n

def readBytes (stack : Stack) (n : ℤ) : Load Bytes :=
  if n < 0 ∨ (stack.size : ℤ) < n then fault .badAccess else fread n.toNat "no enough data"

/-- The signed number with the given bytes, the highest first. -/
def be32toh (x : Bytes) : ℤ := (BitVec.ofNat 32 (ofLeBytes x.reverse)).toInt

def readInt32 : Load ℤ := do
  let x ← fread 4 "bad int32_t data"
  return be32toh x

def readUint8 : Load ℕ := do
  let x ← fread 1 "bad uint8_t data"
  return (x.headD 0).toNat

/-- `trans.reserve(n)`. -/
def reserve (n : ℤ) : Load Unit := require (0 ≤ n) "vector::reserve"

/-- One round of the loop over the local types. -/
def readLocaltime : Load Localtime := do
  let gmtoff ← readInt32
  let isdst ← readUint8
  let abbrind ← readUint8
  return ⟨gmtoff, isdst ≠ 0, abbrind⟩

def pushLocaltime (type : Localtime) (s : Loading) : Loading :=
  { s with data.localtimes := s.data.localtimes ++ [type] }

def readLocaltimes : ℕ → Load Unit
  | 0 => return ()
  | n + 1 => do
    let type ← readLocaltime
    modify (pushLocaltime type)
    readLocaltimes n

def pushTransition (tr : Transition) (s : Loading) : Loading :=
  { s with data.transitions := s.data.transitions ++ [tr] }

/-- The loop that makes the transitions, from their times and the indices of their types. -/
def addTransitions : List (ℤ × ℕ) → Load Unit
  | [] => return ()
  | (t, localIdx) :: rest => do
    let s ← get
    match s.data.localtimes[localIdx]? with
    | none => fault .badAccess
    | some type =>
      modify (pushTransition ⟨t, t + type.gmtOffset, localIdx⟩)
      addTransitions rest

/-- What follows the header. -/
def loadBlocks (stack : Stack) (timecnt typecnt charcnt : ℤ) : Load Unit := do
  reserve timecnt
  let trans ← readInt32.times timecnt.toNat
  let localtimes ← readUint8.times timecnt.toNat
  readLocaltimes typecnt.toNat
  addTransitions (trans.zip localtimes)
  let abbreviation ← readBytes stack charcnt
  modify fun s ↦ { s with data.abbreviation := abbreviation }

def loadZone (stack : Stack) : Load Unit := do
  let head ← readBytes stack 4
  require (head = "TZif".toUTF8.toList) "bad head"
  let _version ← readBytes stack 1
  let _ ← readBytes stack 15
  let _isgmtcnt ← readInt32
  let _isstdcnt ← readInt32
  let _leapcnt ← readInt32
  let timecnt ← readInt32
  let typecnt ← readInt32
  let charcnt ← readInt32
  loadBlocks stack timecnt typecnt charcnt

/-- A `Data` as it is constructed. -/
def Data.empty : Data := ⟨[], [], []⟩

/-- What `readTimeZoneFile` returns, does to `data` and prints. -/
structure ReadResult where
  returned : Bool
  data : Data
  stderr : List String
  deriving DecidableEq, Repr

def readTimeZoneFile (stack : Stack) : Option Bytes → Checked ReadResult
  | none => .ok ⟨true, .empty, []⟩
  | some bytes =>
    match (loadZone stack).run ⟨bytes, .empty⟩ with
    | .ok (.ok (), s) => .ok ⟨true, s.data, []⟩
    | .ok (.error what, s) => .ok ⟨true, s.data, [what]⟩
    | .error f => .error f

/-- `TimeZone(const char* zonefile)`. -/
def ofFile (stack : Stack) (zonefile : Option Bytes) : Checked TimeZone := do
  let r ← readTimeZoneFile stack zonefile
  return ⟨if r.returned then some r.data else none⟩

/-! ## Reading -/

/-- The state after `k` bytes. -/
def Loading.skip (s : Loading) (k : ℕ) : Loading := { s with rest := s.rest.drop k }

/-- The computation reads `k` bytes and returns `f` of them; it does nothing else. -/
def Reads {α : Type} (m : Load α) (k : ℕ) (f : Bytes → α) : Prop :=
  ∀ s a s', Completes m s a s' ↔ k ≤ s.rest.length ∧ f s.rest = a ∧ s.skip k = s'

section Reading

variable {α β : Type} {m : Load α} {g : α → Load β} {k j n : ℕ} {f : Bytes → α}
  {s s' : Loading} {b : β}

@[simp] theorem rest_skip : (s.skip k).rest = s.rest.drop k := rfl

@[simp] theorem skip_skip : (s.skip k).skip j = s.skip (k + j) := by
  simp [Loading.skip, drop_drop]

theorem Reads.bind_iff (h : Reads m k f) : Completes (m >>= g) s b s' ↔
    k ≤ s.rest.length ∧ Completes (g (f s.rest)) (s.skip k) b s' := by
  rw [completes_bind]
  constructor
  · rintro ⟨a, t, hm, hg⟩
    obtain ⟨hk, rfl, rfl⟩ := (h s a t).1 hm
    exact ⟨hk, hg⟩
  · rintro ⟨hk, hg⟩
    exact ⟨_, _, (h s _ _).2 ⟨hk, rfl, rfl⟩, hg⟩

theorem reads_pure (a : α) : Reads (pure a : Load α) 0 fun _ ↦ a := by
  intro s a' s'
  rw [completes_pure]
  simp [Loading.skip]

theorem Reads.bind {h : α → Bytes → β} (hm : Reads m k f) (hg : ∀ a, Reads (g a) j (h a)) :
    Reads (m >>= g) (k + j) fun l ↦ h (f l) (l.drop k) := by
  intro s b s'
  rw [hm.bind_iff, hg, rest_skip, skip_skip, length_drop]
  constructor
  · rintro ⟨hk, hj, hb, hs⟩
    exact ⟨by omega, hb, hs⟩
  · rintro ⟨hkj, hb, hs⟩
    exact ⟨by omega, by omega, hb, hs⟩

theorem Reads.map (hm : Reads m k f) (h : α → β) :
    Reads (do let a ← m; return h a) k fun l ↦ h (f l) :=
  hm.bind fun a ↦ reads_pure (h a)

/-- Records of `k` bytes each: the first one, and the others. -/
theorem map_records_succ (h : ℕ → α) (n k : ℕ) : (range (n + 1)).map (fun i ↦ h (i * k)) =
    h 0 :: (range n).map fun i ↦ h (k + i * k) := by
  rw [range_succ_eq_map, map_cons, map_map, Nat.zero_mul]
  congr 2
  funext i
  rw [Function.comp_apply, Nat.succ_mul, Nat.add_comm]

theorem Reads.times (hm : Reads m k f) (n : ℕ) :
    Reads (m.times n) (n * k) fun l ↦ (range n).map fun i ↦ f (l.drop (i * k)) := by
  induction n with
  | zero =>
    rw [Nat.zero_mul]
    exact reads_pure []
  | succ n ih =>
    have hlength : (n + 1) * k = k + n * k := by ring
    have hvalues : (fun l : Bytes ↦ (range (n + 1)).map fun i ↦ f (l.drop (i * k))) =
        fun l ↦ f l :: (range n).map fun i ↦ f ((l.drop k).drop (i * k)) := by
      funext l
      simp only [map_records_succ (fun j ↦ f (l.drop j)), drop_zero, drop_drop]
    rw [hlength, hvalues]
    exact hm.bind fun a ↦ ih.map (a :: ·)

theorem reads_fread (n : ℕ) (what : String) : Reads (fread n what) n fun l ↦ l.take n := by
  intro s a s'
  simp only [fread, completes_bind, completes_get, completes_modify, completes_require,
    completes_pure]
  constructor
  · rintro ⟨_, _, ⟨rfl, rfl⟩, _, _, rfl, _, _, ⟨hn, rfl⟩, rfl, rfl⟩
    exact ⟨hn, rfl, rfl⟩
  · rintro ⟨hn, rfl, rfl⟩
    exact ⟨_, _, ⟨rfl, rfl⟩, (), _, rfl, (), _, ⟨hn, rfl⟩, rfl, rfl⟩

theorem readBytes_bind_iff {stack : Stack} {n : ℤ} {g : Bytes → Load β} :
    Completes (readBytes stack n >>= g) s b s' ↔ 0 ≤ n ∧ n ≤ stack.size ∧
      n.toNat ≤ s.rest.length ∧ Completes (g (s.rest.take n.toNat)) (s.skip n.toNat) b s' := by
  unfold readBytes
  split_ifs with hn
  · constructor
    · intro h
      obtain ⟨_, _, hfault, -⟩ := completes_bind.1 h
      exact absurd hfault not_completes_fault
    · intro h
      omega
  · rw [(reads_fread _ _).bind_iff]
    constructor
    · intro h
      exact ⟨by omega, by omega, h⟩
    · intro h
      exact h.2.2

theorem reads_readInt32 : Reads readInt32 4 fun l ↦ be32toh (l.take 4) := (reads_fread 4 _).map _

theorem reads_readUint8 : Reads readUint8 1 fun l ↦ (l.headD 0).toNat := by
  have h := (reads_fread 1 "bad uint8_t data").map fun x ↦ (x.headD 0).toNat
  have hhead : (fun l : Bytes ↦ ((l.take 1).headD 0).toNat) = fun l ↦ (l.headD 0).toNat := by
    funext l
    cases l <;> rfl
  rwa [hhead] at h

end Reading

/-! ## The fields of a file -/

variable (bytes : Bytes)

/-- The signed number at the position `i`. -/
def int32At (i : ℕ) : ℤ := be32toh ((bytes.drop i).take 4)

def byteAt (i : ℕ) : ℕ := ((bytes.drop i).headD 0).toNat

/-- The local type at the position `i`. -/
def localtimeOf (i : ℕ) : Localtime :=
  ⟨int32At bytes i, byteAt bytes (i + 4) ≠ 0, byteAt bytes (i + 5)⟩

@[simp] theorem int32At_drop (j i : ℕ) : int32At (bytes.drop j) i = int32At bytes (j + i) := by
  rw [int32At, drop_drop, int32At]

@[simp] theorem byteAt_drop (j i : ℕ) : byteAt (bytes.drop j) i = byteAt bytes (j + i) := by
  rw [byteAt, drop_drop, byteAt]

@[simp] theorem localtimeOf_drop (j i : ℕ) :
    localtimeOf (bytes.drop j) i = localtimeOf bytes (j + i) := by
  simp only [localtimeOf, int32At_drop, byteAt_drop, Nat.add_assoc]

theorem reads_int32At : Reads readInt32 4 fun l ↦ int32At l 0 := reads_readInt32

theorem reads_byteAt : Reads readUint8 1 fun l ↦ byteAt l 0 := reads_readUint8

theorem reads_readLocaltime : Reads readLocaltime 6 fun l ↦ localtimeOf l 0 := by
  have h := reads_int32At.bind fun gmtoff ↦ reads_byteAt.bind fun isdst ↦
    reads_byteAt.map fun abbrind ↦ (⟨gmtoff, isdst ≠ 0, abbrind⟩ : Localtime)
  simp only [byteAt_drop] at h
  exact h

/-- The state with more local types. -/
def Loading.addLocaltimes (s : Loading) (types : List Localtime) : Loading :=
  { s with data.localtimes := s.data.localtimes ++ types }

/-- The state with more transitions. -/
def Loading.addTransitions (s : Loading) (trs : List Transition) : Loading :=
  { s with data.transitions := s.data.transitions ++ trs }

/-- The local types are appended, and their bytes consumed. -/
theorem completes_readLocaltimes {n : ℕ} {s s' : Loading} {u : Unit} :
    Completes (readLocaltimes n) s u s' ↔ n * 6 ≤ s.rest.length ∧
      (s.skip (n * 6)).addLocaltimes ((range n).map fun i ↦ localtimeOf s.rest (i * 6)) =
        s' := by
  induction n generalizing s with
  | zero =>
    rw [readLocaltimes, completes_pure]
    simp [Loading.skip, Loading.addLocaltimes]
  | succ n ih =>
    have hstate : ((pushLocaltime (localtimeOf s.rest 0) (s.skip 6)).skip (n * 6)).addLocaltimes
          ((range n).map fun i ↦ localtimeOf (s.rest.drop 6) (i * 6)) =
        (s.skip ((n + 1) * 6)).addLocaltimes
          ((range (n + 1)).map fun i ↦ localtimeOf s.rest (i * 6)) := by
      have hlength : 6 + n * 6 = (n + 1) * 6 := by ring
      have htypes : (range (n + 1)).map (fun i ↦ localtimeOf s.rest (i * 6)) =
          localtimeOf s.rest 0 ::
            (range n).map fun i ↦ localtimeOf (s.rest.drop 6) (i * 6) := by
        simp only [map_records_succ (localtimeOf s.rest), localtimeOf_drop]
      rw [htypes, ← hlength]
      simp [Loading.skip, Loading.addLocaltimes, pushLocaltime, drop_drop]
    rw [readLocaltimes, reads_readLocaltime.bind_iff, completes_bind]
    simp only [completes_modify, ih]
    constructor
    · rintro ⟨h6, _, _, rfl, hn, rfl⟩
      have hn' : n * 6 ≤ s.rest.length - 6 := by simpa [pushLocaltime] using hn
      exact ⟨by omega, hstate.symm⟩
    · rintro ⟨hn, rfl⟩
      have hn' : n * 6 ≤ (pushLocaltime (localtimeOf s.rest 0) (s.skip 6)).rest.length := by
        simp [pushLocaltime]
        omega
      exact ⟨by omega, (), _, rfl, hn', hstate⟩

/-- The transition with the given time and type. -/
def transitionOf (types : List Localtime) (p : ℤ × ℕ) : Transition :=
  ⟨p.1, p.1 + (types[p.2]?.elim 0 Localtime.gmtOffset), p.2⟩

/-- The transitions are appended, if all of their types are there. -/
theorem completes_addTransitions {ps : List (ℤ × ℕ)} {s s' : Loading} {u : Unit} :
    Completes (addTransitions ps) s u s' ↔ (∀ p ∈ ps, p.2 < s.data.localtimes.length) ∧
      s.addTransitions (ps.map (transitionOf s.data.localtimes)) = s' := by
  induction ps generalizing s with
  | nil =>
    rw [TimeZone.addTransitions, completes_pure]
    simp [Loading.addTransitions]
  | cons p ps ih =>
    obtain ⟨t, localIdx⟩ := p
    rw [TimeZone.addTransitions, completes_bind]
    simp only [completes_get, forall_mem_cons]
    cases htype : s.data.localtimes[localIdx]? with
    | none =>
      have hlarge := getElem?_eq_none_iff.1 htype
      constructor
      · rintro ⟨_, _, ⟨rfl, rfl⟩, h⟩
        simp only [htype] at h
        exact absurd h not_completes_fault
      · rintro ⟨⟨hlt, -⟩, -⟩
        omega
    | some type =>
      obtain ⟨hlt, -⟩ := List.getElem?_eq_some_iff.1 htype
      have hstate : (pushTransition ⟨t, t + type.gmtOffset, localIdx⟩ s).addTransitions
            (ps.map (transitionOf s.data.localtimes)) =
          s.addTransitions (((t, localIdx) :: ps).map (transitionOf s.data.localtimes)) := by
        simp [Loading.addTransitions, pushTransition, transitionOf, htype]
      constructor
      · rintro ⟨_, _, ⟨rfl, rfl⟩, h⟩
        simp only [htype, completes_bind, completes_modify, ih] at h
        obtain ⟨_, _, rfl, hps, rfl⟩ := h
        exact ⟨⟨hlt, hps⟩, hstate.symm⟩
      · rintro ⟨⟨-, hps⟩, rfl⟩
        refine ⟨_, _, ⟨rfl, rfl⟩, ?_⟩
        simp only [htype, completes_bind, completes_modify, ih]
        exact ⟨(), _, rfl, hps, hstate⟩

def timecnt : ℤ := int32At bytes 32

def typecnt : ℤ := int32At bytes 36

def charcnt : ℤ := int32At bytes 40

/-- Where the local types start. -/
def typesStart : ℕ := 44 + 5 * (timecnt bytes).toNat

def localtimesOf : List Localtime :=
  (range (typecnt bytes).toNat).map fun i ↦ localtimeOf bytes (typesStart bytes + 6 * i)

/-- The times of the transitions, with the indices of their types. -/
def transOf : List (ℤ × ℕ) :=
  (range (timecnt bytes).toNat).map fun i ↦
    (int32At bytes (44 + 4 * i), byteAt bytes (44 + 4 * (timecnt bytes).toNat + i))

/-- The data that a complete file describes. -/
def zoneOf : Data where
  transitions := (transOf bytes).map (transitionOf (localtimesOf bytes))
  localtimes := localtimesOf bytes
  abbreviation :=
    (bytes.drop (typesStart bytes + 6 * (typecnt bytes).toNat)).take (charcnt bytes).toNat

/-- The file can be read to the end. -/
structure Loadable (stack : Stack) (bytes : Bytes) : Prop where
  magic : bytes.take 4 = "TZif".toUTF8.toList
  timecnt_nonneg : 0 ≤ timecnt bytes
  charcnt_nonneg : 0 ≤ charcnt bytes
  charcnt_le : charcnt bytes ≤ stack.size
  length_le : typesStart bytes + 6 * (typecnt bytes).toNat + (charcnt bytes).toNat ≤ bytes.length
  types : ∀ p ∈ transOf bytes, p.2 < (typecnt bytes).toNat

theorem completes_loadBlocks {stack : Stack} {bytes : Bytes} {u : Unit} {s' : Loading}
    (h44 : 44 ≤ bytes.length) :
    Completes (loadBlocks stack (timecnt bytes) (typecnt bytes) (charcnt bytes))
      ⟨bytes.drop 44, .empty⟩ u s' ↔
    (0 ≤ timecnt bytes ∧ 0 ≤ charcnt bytes ∧ charcnt bytes ≤ stack.size ∧
      typesStart bytes + 6 * (typecnt bytes).toNat + (charcnt bytes).toNat ≤ bytes.length ∧
      ∀ p ∈ transOf bytes, p.2 < (typecnt bytes).toNat) ∧
    ⟨bytes.drop (typesStart bytes + 6 * (typecnt bytes).toNat + (charcnt bytes).toNat),
        zoneOf bytes⟩ = s' := by
  have htrans : (range (timecnt bytes).toNat).map (fun i ↦ (int32At bytes (44 + i * 4),
      byteAt bytes (44 + (timecnt bytes).toNat * 4 + i))) = transOf bytes := by
    simp only [transOf, Nat.mul_comm _ 4]
  have htypes : (range (typecnt bytes).toNat).map (fun i ↦ localtimeOf bytes
      (44 + (timecnt bytes).toNat * 4 + (timecnt bytes).toNat + i * 6)) =
        localtimesOf bytes := by
    unfold localtimesOf typesStart
    congr
    funext i
    congr 1
    omega
  have hcount : (localtimesOf bytes).length = (typecnt bytes).toNat := by simp [localtimesOf]
  have hstart : typesStart bytes = 44 + (timecnt bytes).toNat * 4 + (timecnt bytes).toNat := by
    unfold typesStart
    omega
  have hend : 44 + (timecnt bytes).toNat * 4 + (timecnt bytes).toNat + (typecnt bytes).toNat * 6 =
      typesStart bytes + 6 * (typecnt bytes).toNat := by
    omega
  unfold loadBlocks
  simp only [readBytes_bind_iff, completes_bind_unit (fun u s' ↦ completes_require),
    (reads_int32At.times _).bind_iff, (reads_byteAt.times _).bind_iff,
    completes_bind_unit (fun u s' ↦ completes_readLocaltimes),
    completes_bind_unit (fun u s' ↦ completes_addTransitions), completes_modify, reserve,
    int32At_drop, byteAt_drop, localtimeOf_drop, zip_map', Nat.mul_one, Nat.add_zero, htrans,
    htypes, Loading.addLocaltimes, Loading.addTransitions, Loading.skip, Data.empty,
    nil_append, drop_drop, length_drop, hcount, hend]
  constructor
  · rintro ⟨htime, h4, h5, h6, hindex, hchar, hstack, hlength, rfl⟩
    exact ⟨⟨htime, hchar, hstack, by omega, hindex⟩, rfl⟩
  · rintro ⟨⟨htime, hchar, hstack, hlength, hindex⟩, rfl⟩
    exact ⟨htime, by omega, by omega, by omega, hindex, hchar, hstack, by omega, rfl⟩

theorem completes_loadZone {stack : Stack} {bytes : Bytes} {u : Unit} {s' : Loading} :
    Completes (loadZone stack) ⟨bytes, .empty⟩ u s' ↔ Loadable stack bytes ∧
      ⟨bytes.drop (typesStart bytes + 6 * (typecnt bytes).toNat + (charcnt bytes).toNat),
        zoneOf bytes⟩ = s' := by
  have h15 := stack.header_le
  have hstart : 44 ≤ typesStart bytes := by
    unfold typesStart
    omega
  unfold loadZone
  simp only [readBytes_bind_iff, completes_bind_unit (fun u s' ↦ completes_require),
    reads_int32At.bind_iff, skip_skip, rest_skip, int32At_drop, Int.reduceToNat, Nat.reduceAdd,
    length_drop]
  constructor
  · rintro ⟨-, -, -, hmagic, -, -, -, -, -, h15, -, -, -, -, -, h44, hblocks⟩
    obtain ⟨⟨htime, hchar, hstack, hlength, hindex⟩, hs⟩ :=
      (completes_loadBlocks (by omega)).1 hblocks
    exact ⟨⟨hmagic, htime, hchar, hstack, hlength, hindex⟩, hs⟩
  · rintro ⟨h, rfl⟩
    have hlength := h.length_le
    refine ⟨by omega, by omega, by omega, h.magic, by omega, by omega, by omega, by omega, by omega,
      by omega, by omega, by omega, by omega, by omega, by omega, by omega, ?_⟩
    exact (completes_loadBlocks (by omega)).2
      ⟨⟨h.timecnt_nonneg, h.charcnt_nonneg, h.charcnt_le, hlength, h.types⟩, rfl⟩

/-! ## Safe data -/

/-- All indices are in range. -/
structure Data.Consistent (data : Data) : Prop where
  localtimes_ne : data.localtimes ≠ []
  localtimeidx_lt : ∀ tr ∈ data.transitions, tr.localtimeidx < data.localtimes.length
  arrbIdx_lt : ∀ type ∈ data.localtimes, type.arrbIdx < data.abbreviation.length

section Safe

variable {data : Data}

theorem Data.localtimeAt_of_lt {i : ℕ} (h : i < data.localtimes.length) :
    ∃ type ∈ data.localtimes, data.localtimeAt i = .ok type := by
  refine ⟨data.localtimes[i], getElem_mem h, ?_⟩
  rw [Data.localtimeAt, getElem?_eq_getElem h]

/-- The search returns a type, whatever the order of the transitions. -/
theorem Data.Consistent.findLocaltime (h : data.Consistent) (sentry : Transition) (comp : Comp) :
    ∃ type ∈ data.localtimes, findLocaltime data sentry comp = .ok type := by
  have hcase := findLocaltime_cases data sentry comp
  generalize TimeZone.findLocaltime data sentry comp = result at hcase ⊢
  cases hcase with
  | front => exact data.localtimeAt_of_lt (length_pos_iff.2 h.localtimes_ne)
  | found htr => exact data.localtimeAt_of_lt (h.localtimeidx_lt _ (mem_of_getElem? htr))

theorem Data.Consistent.toLocalTime (libc : Libc) (h : data.Consistent) (t : ℤ) :
    ∃ tm, toLocalTime libc ⟨some data⟩ t = .ok tm := by
  obtain ⟨type, hmem, hfind⟩ := h.findLocaltime ⟨t, 0, 0⟩ ⟨true⟩
  have hindex := (h.arrbIdx_lt type hmem).le
  simp only [TimeZone.toLocalTime, TimeZone.data, hfind, cString, if_pos hindex, ok_bind]
  exact ⟨_, rfl⟩

theorem Data.Consistent.fromLocalTime (libc : Libc) (h : data.Consistent) (tm : Tm) :
    ∃ t, fromLocalTime libc ⟨some data⟩ tm = .ok t := by
  obtain ⟨type, -, hfind⟩ := h.findLocaltime ⟨0, libc.timegm tm, 0⟩ ⟨false⟩
  obtain ⟨tryTm, htry⟩ := h.toLocalTime libc (libc.timegm tm - type.gmtOffset)
  simp only [TimeZone.fromLocalTime, TimeZone.data, hfind, htry, ok_bind]
  split_ifs <;> exact ⟨_, rfl⟩

end Safe

/-! ## Every zone is built alike -/

theorem Data.Built.pushLocaltime {s : Loading} (h : s.data.Built) (type : Localtime) :
    (pushLocaltime type s).data.Built := by
  intro tr htr
  obtain ⟨type', htype', hlocal⟩ := h tr htr
  refine ⟨type', ?_, hlocal⟩
  have hlt := (List.getElem?_eq_some_iff.1 htype').1
  simp only [TimeZone.pushLocaltime]
  rw [getElem?_append_left hlt, htype']

theorem Data.Built.pushTransition {s : Loading} (h : s.data.Built) {t : ℤ} {localIdx : ℕ}
    {type : Localtime} (htype : s.data.localtimes[localIdx]? = some type) :
    (pushTransition ⟨t, t + type.gmtOffset, localIdx⟩ s).data.Built := by
  intro tr htr
  rcases mem_append.1 htr with hold | hnew
  · exact h tr hold
  · obtain rfl := mem_singleton.1 hnew
    exact ⟨type, htype, rfl⟩

section Keeping

theorem keeps_fread {I : Data → Prop} (n : ℕ) (what : String) :
    Keeps (fun s ↦ I s.data) (fread n what) := by
  refine keeps_get.bind fun s ↦ Keeps.bind (keeps_modify ?_) fun _ ↦
    (keeps_require _ _).bind fun _ ↦ keeps_pure _
  exact fun _ hs ↦ hs

theorem keeps_readBytes {I : Data → Prop} (stack : Stack) (n : ℤ) :
    Keeps (fun s ↦ I s.data) (readBytes stack n) := by
  unfold readBytes
  split_ifs
  · exact keeps_fault _
  · exact keeps_fread _ _

theorem keeps_readInt32 {I : Data → Prop} : Keeps (fun s ↦ I s.data) readInt32 :=
  (keeps_fread _ _).bind fun _ ↦ keeps_pure _

theorem keeps_readUint8 {I : Data → Prop} : Keeps (fun s ↦ I s.data) readUint8 :=
  (keeps_fread _ _).bind fun _ ↦ keeps_pure _

theorem keeps_readLocaltimes (n : ℕ) : Keeps (fun s ↦ s.data.Built) (readLocaltimes n) := by
  induction n with
  | zero => exact keeps_pure _
  | succ n ih =>
    refine Keeps.bind ?_ fun type ↦ (keeps_modify fun s hs ↦ hs.pushLocaltime type).bind fun _ ↦ ih
    exact keeps_readInt32.bind fun _ ↦ keeps_readUint8.bind fun _ ↦ keeps_readUint8.bind fun _ ↦
      keeps_pure _

theorem keeps_addTransitions (ps : List (ℤ × ℕ)) :
    Keeps (fun s ↦ s.data.Built) (addTransitions ps) := by
  induction ps with
  | nil => exact keeps_pure _
  | cons p ps ih =>
    obtain ⟨t, localIdx⟩ := p
    intro s r s' hs h
    -- the type that is looked up is that of the state in which the transition is added
    simp only [addTransitions, run_get_bind] at h
    cases htype : s.data.localtimes[localIdx]? with
    | none =>
      rw [htype] at h
      cases h
    | some type =>
      rw [htype] at h
      exact ih _ r s' (hs.pushTransition htype) h

theorem keeps_loadZone (stack : Stack) : Keeps (fun s ↦ s.data.Built) (loadZone stack) := by
  have hblocks (timecnt typecnt charcnt : ℤ) :
      Keeps (fun s ↦ s.data.Built) (loadBlocks stack timecnt typecnt charcnt) := by
    refine (keeps_require _ _).bind fun _ ↦ (keeps_readInt32.times _).bind fun trans ↦
      (keeps_readUint8.times _).bind fun localtimes ↦ (keeps_readLocaltimes _).bind fun _ ↦
      (keeps_addTransitions _).bind fun _ ↦ (keeps_readBytes stack _).bind fun abbreviation ↦
      keeps_modify ?_
    exact fun s hs ↦ hs
  exact (keeps_readBytes stack 4).bind fun head ↦ (keeps_require _ _).bind fun _ ↦
    (keeps_readBytes stack 1).bind fun _ ↦ (keeps_readBytes stack 15).bind fun _ ↦
    keeps_readInt32.bind fun _ ↦ keeps_readInt32.bind fun _ ↦ keeps_readInt32.bind fun _ ↦
    keeps_readInt32.bind fun timecnt ↦ keeps_readInt32.bind fun typecnt ↦
    keeps_readInt32.bind fun charcnt ↦ hblocks timecnt typecnt charcnt

end Keeping

theorem Data.built_empty : Data.empty.Built := nofun

/-- A zone that is constructed has data: all that was filled in before the reading ended. -/
theorem ofFile_some {stack : Stack} {bytes : Bytes} {tz : TimeZone} :
    ofFile stack (some bytes) = .ok tz ↔
      ∃ r s, (loadZone stack).run ⟨bytes, .empty⟩ = .ok (r, s) ∧ ⟨some s.data⟩ = tz := by
  simp only [ofFile, readTimeZoneFile]
  constructor
  · intro h
    split at h
    · next s hrun => exact ⟨_, s, hrun, Except.ok.inj h⟩
    · next what s hrun => exact ⟨_, s, hrun, Except.ok.inj h⟩
    · cases h
  · rintro ⟨r, s, hrun, rfl⟩
    rw [hrun]
    cases r <;> rfl

/-- Whatever the file, and wherever an exception has stopped the reading, the transitions agree with
their types. -/
theorem built_ofFile {stack : Stack} {zonefile : Option Bytes} {tz : TimeZone} {data : Data}
    (h : ofFile stack zonefile = .ok tz) (hdata : tz.data_ = some data) : data.Built := by
  cases zonefile with
  | none =>
    cases h
    cases hdata
    exact Data.built_empty
  | some bytes =>
    obtain ⟨r, s, hrun, rfl⟩ := ofFile_some.1 h
    cases hdata
    exact keeps_loadZone stack _ r s Data.built_empty hrun

/-! ## Honesty -/

/-- The constructor makes no access out of range, and the zone is not valid, or comes from a file
that has been read to the end, is consistent, and can be used with any argument. -/
def Honest (libc : Libc) (stack : Stack) (zonefile : Option Bytes) : Prop :=
  ∃ tz, ofFile stack zonefile = .ok tz ∧ (tz.valid = false ∨
    ∃ bytes s, zonefile = some bytes ∧ Completes (loadZone stack) ⟨bytes, .empty⟩ () s ∧
      tz = ⟨some s.data⟩ ∧ s.data.Consistent ∧
      (∀ t, ∃ tm, toLocalTime libc tz t = .ok tm) ∧
      ∀ tm, ∃ t, fromLocalTime libc tz tm = .ok t)

/-- The file can be read to the end, has a local type, and all abbreviations are in the text. -/
structure WellFormed (stack : Stack) (bytes : Bytes) : Prop extends Loadable stack bytes where
  typecnt_pos : 1 ≤ typecnt bytes
  names : ∀ type ∈ localtimesOf bytes, (type.arrbIdx : ℤ) < charcnt bytes

theorem Loadable.consistent_iff {stack : Stack} {bytes : Bytes} (h : Loadable stack bytes) :
    (zoneOf bytes).Consistent ↔
      1 ≤ typecnt bytes ∧ ∀ type ∈ localtimesOf bytes, (type.arrbIdx : ℤ) < charcnt bytes := by
  have hcount : (localtimesOf bytes).length = (typecnt bytes).toNat := by simp [localtimesOf]
  have hchars : (zoneOf bytes).abbreviation.length = (charcnt bytes).toNat := by
    have := h.length_le
    simp only [zoneOf, length_take, length_drop]
    omega
  have hchar := h.charcnt_nonneg
  constructor
  · intro hdata
    refine ⟨?_, fun type htype ↦ ?_⟩
    · have hne := length_pos_iff.2 hdata.localtimes_ne
      simp only [zoneOf, hcount] at hne
      omega
    · have hlt := hdata.arrbIdx_lt type htype
      omega
  · rintro ⟨htype, hnames⟩
    refine ⟨?_, ?_, fun type hmem ↦ ?_⟩
    · refine length_pos_iff.1 ?_
      simp only [zoneOf, hcount]
      omega
    · intro tr htr
      obtain ⟨p, hp, rfl⟩ := mem_map.1 htr
      have := h.types p hp
      simpa [zoneOf, transitionOf, hcount] using this
    · have hlt := hnames type hmem
      omega

/-- A file with one transition and one local type, whose index for the transition is given. -/
def sampleFile (localIdx : UInt8) : Bytes :=
  "TZif".toUTF8.toList ++ replicate 16 0 ++
    [0, 0, 0, 0, 0, 0, 0, 0, 0, 0, 0, 0, 0, 0, 0, 1, 0, 0, 0, 1, 0, 0, 0, 4] ++
    [0, 0, 0, 0] ++ [localIdx] ++ [0, 0, 0, 0, 0, 0] ++ [85, 84, 67, 0]

/-- The usual stack of a thread. -/
def Stack.eightMiB : Stack := ⟨8388608, by norm_num⟩

theorem built_ofFile_utc : (zoneOf (sampleFile 0)).Built :=
  built_ofFile (show ofFile .eightMiB (some (sampleFile 0)) = .ok _ by decide +kernel) rfl

/-- **Honest loading.** The constructor is safe, and what it makes is usable or not valid, exactly
for the files that are well formed. -/
theorem zoneFile_honest_iff (libc : Libc) (stack : Stack) (zonefile : Option Bytes) :
    Honest libc stack zonefile ↔ ∃ bytes, zonefile = some bytes ∧ WellFormed stack bytes := by
  constructor
  · rintro ⟨tz, hload, hvalid | ⟨bytes, s, rfl, hcomplete, -, hdata, -, -⟩⟩
    · -- a zone is valid if it can be constructed at all
      cases zonefile with
      | none =>
        cases hload
        cases hvalid
      | some bytes =>
        obtain ⟨r, s, -, rfl⟩ := ofFile_some.1 hload
        cases hvalid
    · obtain ⟨h, rfl⟩ := completes_loadZone.1 hcomplete
      obtain ⟨htype, hnames⟩ := h.consistent_iff.1 hdata
      exact ⟨bytes, rfl, h, htype, hnames⟩
  · rintro ⟨bytes, rfl, h⟩
    have hcomplete := (completes_loadZone (u := ())).2 ⟨h.toLoadable, rfl⟩
    have hdata := h.toLoadable.consistent_iff.2 ⟨h.typecnt_pos, h.names⟩
    exact ⟨_, ofFile_some.2 ⟨_, _, hcomplete, rfl⟩, Or.inr ⟨bytes, _, rfl, hcomplete, rfl, hdata,
      hdata.toLocalTime libc, hdata.fromLocalTime libc⟩⟩

/-- A file that is well formed. -/
theorem zoneFile_honest_utc : Honest Libc.posix .eightMiB (some (sampleFile 0)) :=
  (zoneFile_honest_iff _ _ _).2 ⟨_, rfl,
    { magic := by decide +kernel
      timecnt_nonneg := by decide +kernel
      charcnt_nonneg := by decide +kernel
      charcnt_le := by decide +kernel
      length_le := by decide +kernel
      types := by decide +kernel
      typecnt_pos := by decide +kernel
      names := by decide +kernel }⟩

/-- A file that cannot be opened gives a valid zone without local types, and one whose index is out
of range is used all the same. -/
theorem zoneFile_not_honest : ¬Honest Libc.posix .eightMiB none ∧
    ofFile .eightMiB none = .ok ⟨some .empty⟩ ∧ (TimeZone.mk (some .empty)).valid = true ∧
    toLocalTime Libc.posix ⟨some .empty⟩ 0 = .error .badAccess ∧
    ofFile .eightMiB (some (sampleFile 1)) = .error .badAccess := by
  refine ⟨?_, rfl, rfl, rfl, by decide +kernel⟩
  rintro ⟨tz, hload, hvalid | ⟨bytes, s, hfile, -⟩⟩
  · cases hload
    cases hvalid
  · cases hfile

end Fishnet.TimeZone

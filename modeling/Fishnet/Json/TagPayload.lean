import Fishnet.Json.JsonObjects

/-!
# Types and pointers

An object whose type is `kString`, `kArray` or `kObject` is meant to have its string, array or map.
`copy`, `operator[]` and `parse` set the type and the pointer together. `move` takes the pointer out
of the source but leaves the type there, so an object that was moved from has the type of what it no
longer has. The next `dump`, `get`, `operator[]` or copy of it follows a null pointer.

The assignments between an object and a part of it go wrong as well: see
`copyAssign_of_target_within` and `copyAssign_of_source_within`. `pointers_set_iff` says that there
is no other way.
-/

namespace Fishnet

open Branching List

namespace JsonCell

variable {c : JsonCell}

/-- The pointer that goes with the type is not null. -/
structure NonNull (c : JsonCell) : Prop where
  str : c.type = .kString → c.str.isSome
  array : c.type = .kArray → c.arrayPtr.isSome
  object : c.type = .kObject → c.objectPtr.isSome

theorem Sound.nonNull (h : c.Sound) : c.NonNull := by
  cases h with
  | plain hplain =>
    refine ⟨fun he ↦ ?_, fun he ↦ ?_, fun he ↦ ?_⟩ <;> cases he <;> cases hplain
  | string s => exact ⟨fun _ ↦ rfl, nofun, nofun⟩
  | array h => exact ⟨nofun, fun _ ↦ rfl, nofun⟩
  | object h => exact ⟨nofun, nofun, fun _ ↦ rfl⟩

theorem not_nonNull_plain {type : JsonType} (h : type.isOwner = true) (value : UInt64) :
    ¬(plain type value).NonNull := by
  intro hnonNull
  cases type with
  | kString => cases hnonNull.str rfl
  | kArray => cases hnonNull.array rfl
  | kObject => cases hnonNull.object rfl
  | _ => cases h

/-! ## Sound objects stay sound -/

theorem mem_of_mem_modify {f : JsonCell → JsonCell} {elements : List JsonCell} {i : ℕ}
    {d : JsonCell} (h : d ∈ elements.modify i f) : d ∈ elements ∨ ∃ c ∈ elements, f c = d := by
  obtain ⟨j, hj⟩ := mem_iff_getElem?.mp h
  rw [getElem?_modify] at hj
  obtain ⟨c, hc, hd⟩ := Option.map_eq_some_iff.mp hj
  split at hd
  · exact Or.inr ⟨c, mem_of_getElem? hc, hd⟩
  · exact Or.inl (hd ▸ mem_of_getElem? hc)

theorem Sound.modifyChild (hc : c.Sound) {f : JsonCell → JsonCell}
    (hf : ∀ d : JsonCell, d.Sound → (f d).Sound) (a : Selector) :
    (JsonCell.modifyChild f a c).Sound := by
  cases hc with
  | plain h => cases a <;> exact .plain h
  | string s => cases a <;> exact .string s
  | array helements =>
    cases a with
    | key k => exact .array helements
    | index i =>
      refine .array fun d hd ↦ ?_
      rcases mem_of_mem_modify hd with hd | ⟨e, he, rfl⟩
      · exact helements d hd
      · exact hf e (helements e he)
  | object hmembers =>
    cases a with
    | index i => exact .object hmembers
    | key k =>
      refine .object fun m hm ↦ ?_
      obtain ⟨n, hn, rfl⟩ := mem_map.mp hm
      split
      · exact hf _ (hmembers n hn)
      · exact hmembers n hn

theorem Sound.modifyAt {f : JsonCell → JsonCell} (hf : ∀ d : JsonCell, d.Sound → (f d).Sound)
    {r : List Selector} (hc : c.Sound) : (Branching.modifyAt f r c).Sound := by
  induction r generalizing c with
  | nil => exact hf c hc
  | cons a r ih => exact hc.modifyChild (fun _ hd ↦ ih hd) a

section

variable (hc : c.Sound)
include hc

theorem Sound.exists_subscript (key : Bytes) :
    ∃ c', c.subscript key = .ok c' ∧ c'.Sound := by
  cases hc with
  | @plain type value h =>
    cases type with
    | kNull =>
      refine ⟨_, rfl, .object fun m hm ↦ ?_⟩
      rw [mem_singleton.mp hm]
      exact sound_cleared
    | kBoolean => exact ⟨_, rfl, .plain h⟩
    | kNumber => exact ⟨_, rfl, .plain h⟩
    | _ => cases h
  | string s => exact ⟨_, rfl, .string s⟩
  | array h => exact ⟨_, rfl, .array h⟩
  | object h =>
    refine ⟨_, rfl, .object fun m hm ↦ ?_⟩
    rcases OrderedMap.mem_of_mem_emplace hm with rfl | hm
    · exact sound_cleared
    · exact h m hm

theorem Sound.access (type : JsonType) : c.access type = .ok () := by
  cases hc with
  | plain h =>
    refine if_neg ?_
    rintro ⟨rfl, howner⟩
    rw [h] at howner
    cases howner
  | _ => rfl

theorem Sound.exists_copy (mem : List ℕ → UInt64) :
    ∃ c', c.copy mem = .ok c' ∧ c'.Sound := by
  rcases copy_cases c mem with ⟨-, h⟩ | ⟨hno, -⟩
  · exact h
  · exact absurd hc hno

theorem Sound.get (type : JsonType) (mem : List ℕ → UInt64) :
    c.get type mem = .ok () := by
  obtain ⟨c', hc', -⟩ := hc.exists_copy mem
  rw [JsonCell.get, hc']
  split <;> rfl

theorem Sound.exists_read {N : Type} [DoubleBits N] :
    ∃ json : Json N, c.read = .ok json := by
  rcases read_cases (N := N) c with ⟨-, json, hjson, -⟩ | ⟨hno, -⟩
  · exact ⟨json, hjson⟩
  · exact absurd hc hno

end

theorem sound_init {N : Type} [DoubleBits N] (init : JsonInit N) (value : UInt64) :
    (init.cell value).Sound := by
  cases init with
  | cstring str => exact .string _
  | view sv => exact .string _
  | _ => exact .plain rfl

end JsonCell

/-! ## The objects of a program -/

namespace JsonObjects

variable {N X : Type} {s s' : JsonObjects X}

/-- **The tag and payload invariant.** Every object, at any depth, has the pointer that goes with
its type. -/
def PointersSet (s : JsonObjects X) : Prop := ∀ l c, s.get l = some c → c.NonNull

def AllSound (s : JsonObjects X) : Prop := ∀ x c, s.var x = some c → c.Sound

theorem AllSound.get (h : s.AllSound) {l : JsonLoc X} {c : JsonCell} (hc : s.get l = some c) :
    c.Sound := by
  obtain ⟨root, hroot, hc⟩ := Option.bind_eq_some_iff.mp hc
  exact (h _ _ hroot).descend hc

theorem AllSound.pointersSet (h : s.AllSound) : s.PointersSet := fun _ _ hc ↦ (h.get hc).nonNull

theorem allSound_empty : (empty : JsonObjects X).AllSound := fun _ _ h ↦ by cases h

/-- No object whose value is behind a pointer is moved from, and no object is assigned to or from a
part of itself. -/
def KeepsPointers (s : JsonObjects X) : JsonAction N X → Prop
  | .moveConstruct x src =>
    s.var x = none → ∀ c, s.get src = some c → c.type.isOwner = false
  | .copyAssign dst src _ =>
    (s.get dst).isSome → (s.get src).isSome → dst = src ∨ dst.Apart src
  | .moveAssign dst src => (s.get dst).isSome → ∀ c, s.get src = some c →
    dst = src ∨ ¬src.Within dst ∧ c.type.isOwner = false
  | _ => True

variable [DecidableEq X]

theorem AllSound.update (h : s.AllSound) {x : X} {o : Option JsonCell}
    (ho : ∀ c, o = some c → c.Sound) : (⟨Function.update s.var x o⟩ : JsonObjects X).AllSound := by
  refine (Function.forall_update_iff s.var fun _ o ↦ ∀ c, o = some c → c.Sound).mpr ⟨ho, ?_⟩
  exact fun y _ ↦ h y

theorem AllSound.put (h : s.AllSound) (x : X) {c : JsonCell} (hc : c.Sound) :
    (s.put x c).AllSound :=
  h.update fun _ he ↦ Option.some.inj he ▸ hc

theorem AllSound.set (h : s.AllSound) (l : JsonLoc X) {c : JsonCell} (hc : c.Sound) :
    (s.set l c).AllSound := by
  refine h.update fun d hd ↦ ?_
  obtain ⟨root, hroot, rfl⟩ := Option.map_eq_some_iff.mp hd
  exact JsonCell.Sound.modifyAt (fun _ _ ↦ hc) (h _ _ hroot)

/-- The action is not possible, or it leads to a state in order. -/
def Settles (r : Except Halt (JsonObjects X)) : Prop :=
  r = .error .disabled ∨ ∃ s', r = .ok s' ∧ s'.AllSound

omit [DecidableEq X] in
theorem settles_attempt {p : Prop} [Decidable p] {r : Checked (JsonObjects X)}
    (h : p → ∃ s', r = .ok s' ∧ s'.AllSound) : Settles (attempt p r) := by
  by_cases hp : p
  · obtain ⟨s', hs', hsound⟩ := h hp
    exact Or.inr ⟨s', attempt_eq_ok.mpr ⟨hp, hs'⟩, hsound⟩
  · exact Or.inl (attempt_of_not hp)

omit [DecidableEq X] in
theorem settles_guarded {p : Prop} [Decidable p] (h : p → s.AllSound) : Settles (guarded p s) :=
  settles_attempt fun hp ↦ ⟨s, rfl, h hp⟩

omit [DecidableEq X] in
theorem settles_reads {α : Type} (h : s.AllSound) (l : JsonLoc X) (f : JsonCell → Checked α)
    (hf : ∀ c : JsonCell, c.Sound → ∃ a, f c = .ok a) :
    Settles (attempt (s.get l).isSome (do let c ← s.deref l; let _ ← f c; return s)) := by
  refine settles_attempt fun hl ↦ ⟨s, ?_, h⟩
  obtain ⟨c, hc⟩ := Option.isSome_iff_exists.mp hl
  obtain ⟨a, ha⟩ := hf c (h.get hc)
  rw [deref_of_get hc, ok_bind, ha]
  rfl

theorem AllSound.moveAssign (h : s.AllSound) {dst src : JsonLoc X} (hdst : (s.get dst).isSome)
    {c : JsonCell} (hsrc : s.get src = some c)
    (hkeeps : dst = src ∨ ¬src.Within dst ∧ c.type.isOwner = false) :
    ∃ s', s.moveAssign dst src = .ok s' ∧ s'.AllSound := by
  by_cases hne : dst = src
  · refine ⟨s, ?_, h⟩
    rw [JsonObjects.moveAssign, if_pos hne]
    rfl
  · obtain ⟨hin, howner⟩ := hkeeps.resolve_left hne
    obtain ⟨v, -, hv, hok⟩ := moveAssign_of_ne hne hin hdst hsrc
    -- a source without a pointer is not above the target
    have hapart : dst.Apart src := by
      refine ⟨fun hin' ↦ ?_, hin⟩
      obtain ⟨-, -, -, howner', -⟩ := get_set_of_target_within hin' hne hdst hsrc .cleared
      rw [howner] at howner'
      cases howner'
    refine ⟨_, hok, (h.set dst ?_).set src (.plain howner)⟩
    rw [hv hapart]
    exact h.get hsrc

theorem AllSound.copyAssign (h : s.AllSound) {dst src : JsonLoc X} (hsrc : (s.get src).isSome)
    (hkeeps : dst = src ∨ dst.Apart src) (mem : List ℕ → UInt64) :
    ∃ s', s.copyAssign dst src mem = .ok s' ∧ s'.AllSound := by
  obtain ⟨v, hv⟩ := Option.isSome_iff_exists.mp hsrc
  rcases hkeeps with hself | hapart
  · refine ⟨s, ?_, h⟩
    rw [JsonObjects.copyAssign, if_pos hself]
    rfl
  · obtain ⟨c, hc, hsound⟩ := (h.get hv).exists_copy (Function.update mem [] 0)
    refine ⟨s.set dst c, ?_, h.set dst hsound⟩
    rw [copyAssign_of_apart hapart hv, hc]
    rfl

variable [Number N] [DoubleBits N]

theorem AllSound.parse (h : s.AllSound) (x : X) (text : Bytes) :
    (s.parse (N := N) x text).AllSound := by
  unfold JsonObjects.parse
  split
  · exact h.put x (JsonCell.sound_ofJson _)
  · exact h

/-- **An action that keeps the pointers** is not possible, or leads to a state in order. -/
theorem AllSound.settles_step {a : JsonAction N X} (h : s.AllSound) (ha : s.KeepsPointers a) :
    Settles (s.step a) := by
  cases a with
  | construct x init mem => exact settles_guarded fun _ ↦ h.put x (JsonCell.sound_init init mem)
  | copyConstruct x src mem =>
    refine settles_attempt ?_
    rintro ⟨-, hsrc⟩
    obtain ⟨v, hv⟩ := Option.isSome_iff_exists.mp hsrc
    obtain ⟨c, hc, hsound⟩ := (h.get hv).exists_copy mem
    refine ⟨s.put x c, ?_, h.put x hsound⟩
    rw [copyConstruct, deref_of_get hv, ok_bind, bind_of_ok hc]
    rfl
  | moveConstruct x src =>
    refine settles_attempt ?_
    rintro ⟨hx, hsrc⟩
    obtain ⟨v, hv⟩ := Option.isSome_iff_exists.mp hsrc
    -- the source keeps its type, which must not be that of an owner
    have howner := ha (Option.isNone_iff_eq_none.mp hx) v hv
    refine ⟨(s.put x v).set src (.plain v.type 0), ?_, (h.put x (h.get hv)).set src (.plain howner)⟩
    rw [moveConstruct, deref_of_get hv]
    rfl
  | copyAssign dst src mem =>
    exact settles_attempt fun hp ↦ h.copyAssign hp.2 (ha hp.1 hp.2) mem
  | moveAssign dst src =>
    refine settles_attempt ?_
    rintro ⟨hdst, hsrc⟩
    obtain ⟨v, hv⟩ := Option.isSome_iff_exists.mp hsrc
    exact h.moveAssign hdst hv (ha hdst v hv)
  | clear l => exact settles_guarded fun _ ↦ h.set l JsonCell.sound_cleared
  | element l => exact settles_reads h l _ fun c hc ↦ ⟨(), hc.access .kArray⟩
  | member l key =>
    refine settles_attempt fun hl ↦ ?_
    obtain ⟨c, hc⟩ := Option.isSome_iff_exists.mp hl
    obtain ⟨c', hc', hsound⟩ := (h.get hc).exists_subscript key
    refine ⟨s.set l c', ?_, h.set l hsound⟩
    rw [deref_of_get hc, ok_bind, hc']
    rfl
  | contain l => exact settles_reads h l _ fun c hc ↦ ⟨(), hc.access .kObject⟩
  | get l type mem => exact settles_reads h l _ fun c hc ↦ ⟨(), hc.get type mem⟩
  | dump l => exact settles_reads h l _ fun c hc ↦ hc.exists_read
  | parse x text => exact settles_guarded fun _ ↦ h.parse x text
  | destroy x => exact settles_guarded fun _ ↦ h.update nofun

/-- A move that leaves an object with its type and without its pointer. -/
theorem not_pointersSet_set {src : JsonLoc X} {c : JsonCell} (hsrc : s.get src = some c)
    {type : JsonType} (howner : type.isOwner = true) : ¬(s.set src (.plain type 0)).PointersSet :=
  fun h ↦ JsonCell.not_nonNull_plain howner 0 (h src _ (get_set_self hsrc _))

/-- **An action that does not keep the pointers** follows one that is missing, or leaves one
missing. -/
theorem breaks_of_not_keeps {a : JsonAction N X} (ha : ¬s.KeepsPointers a) :
    (∃ e, s.step a = .error e ∧ e = .fault .badAccess) ∨
      ∃ s', s.step a = .ok s' ∧ ¬s'.PointersSet := by
  cases a with
  | moveConstruct x src =>
    simp only [KeepsPointers, Classical.not_imp, not_forall, Bool.not_eq_false] at ha
    obtain ⟨hx, v, hv, howner⟩ := ha
    have hne : src.root ≠ x := by
      rintro rfl
      rw [get, hx] at hv
      cases hv
    refine Or.inr ⟨(s.put x v).set src (.plain v.type 0), attempt_eq_ok.mpr ⟨⟨?_, ?_⟩, ?_⟩, ?_⟩
    · rw [hx]
      rfl
    · rw [hv]
      rfl
    · rw [moveConstruct, deref_of_get hv]
      rfl
    · exact not_pointersSet_set (by rw [get_put_of_ne hne, hv]) howner
  | copyAssign dst src mem =>
    simp only [KeepsPointers, Classical.not_imp, not_or] at ha
    obtain ⟨hdst, hsrc, hne, hapart⟩ := ha
    obtain ⟨v, hv⟩ := Option.isSome_iff_exists.mp hsrc
    refine Or.inl ⟨_, attempt_eq_fault.mpr ⟨⟨hdst, hsrc⟩, ?_⟩, rfl⟩
    by_cases hin : dst.Within src
    · exact copyAssign_of_target_within hin hne hdst hv mem
    · exact copyAssign_of_source_within (by_contra fun hno ↦ hapart ⟨hin, hno⟩) hne mem
  | moveAssign dst src =>
    simp only [KeepsPointers, Classical.not_imp, not_forall, not_or, not_and,
      Bool.not_eq_false] at ha
    obtain ⟨hdst, v, hv, hne, howner⟩ := ha
    have hpossible : (s.get dst).isSome ∧ (s.get src).isSome := ⟨hdst, by rw [hv]; rfl⟩
    by_cases hin : src.Within dst
    · exact Or.inl ⟨_, attempt_eq_fault.mpr ⟨hpossible, moveAssign_of_source_within hin hne⟩, rfl⟩
    · obtain ⟨v', -, -, hok⟩ := moveAssign_of_ne hne hin hdst hv
      refine Or.inr ⟨_, attempt_eq_ok.mpr ⟨hpossible, hok⟩, ?_⟩
      -- the source is there, changed or not
      have hsrc : ∃ c, (s.set dst v').get src = some c := by
        by_cases hin' : dst.Within src
        · obtain ⟨c, hc, -⟩ := get_set_of_target_within hin' hne hdst hv v'
          exact ⟨c, hc⟩
        · exact ⟨v, by rw [get_set_of_apart hin hin', hv]⟩
      obtain ⟨c, hc⟩ := hsrc
      exact not_pointersSet_set hc (howner hin)
  | _ => exact absurd trivial ha

/-- **The exact condition for types and pointers to fit.** In every state of a run every object has
the pointer that goes with its type, and no operation follows a pointer that is null or reads an
object that is gone, exactly if the run keeps the pointers. -/
theorem pointers_set_iff (as : List (JsonAction N X)) :
    (∀ pre, pre <+: as → (∀ s', runAll step (empty : JsonObjects X) pre = .ok s' → s'.PointersSet) ∧
      ∀ e, runAll step (empty : JsonObjects X) pre = .error e → ¬e = .fault .badAccess) ↔
      Along step KeepsPointers (empty : JsonObjects X) as := by
  refine along_iff_of_prefixes (I := AllSound) (A := fun _ _ ↦ True)
    (fun _ h ↦ h.pointersSet) ?_ ?_ (fun _ _ _ _ ha ↦ breaks_of_not_keeps ha) allSound_empty
    (along_of_forall fun _ _ _ ↦ trivial)
  · intro s a s' h _ ha hs'
    rcases h.settles_step ha with herr | ⟨t, ht, hsound⟩
    · rw [herr] at hs'
      cases hs'
    · obtain rfl := Except.ok.inj (ht.symm.trans hs')
      exact hsound
  · intro s a e h _ ha he
    rcases h.settles_step ha with herr | ⟨t, ht, -⟩
    · rw [herr] at he
      cases he
      decide
    · rw [ht] at he
      cases he

section Examples

/-- The only number, for programs that do not use numbers. -/
instance : Number Unit := ⟨fun _ ↦ chars "0", fun _ ↦ (), fun _ ↦ false⟩

instance : DoubleBits Unit := ⟨fun _ ↦ 0, fun _ ↦ (), fun _ ↦ rfl⟩

/-- A string is made a member of an object, by a copy. -/
def copyIntoMember : List (JsonAction Unit Bool) :=
  [.construct false (.view [97]) 0, .construct true .default 0, .member ⟨true, []⟩ [98],
    .copyAssign ⟨true, [.key [98]]⟩ ⟨false, []⟩ fun _ ↦ 0]

theorem pointers_set_copyIntoMember : ∃ s : JsonObjects Bool,
    runAll step empty copyIntoMember = .ok s ∧
      s.get ⟨true, [.key [98]]⟩ = some (.string [97]) ∧ s.PointersSet := by
  have hkeeps : Along step KeepsPointers (empty : JsonObjects Bool) copyIntoMember := by
    refine ⟨trivial, fun s₁ _ ↦ ⟨trivial,
      fun s₂ _ ↦ ⟨trivial, fun s₃ _ ↦ ⟨fun _ _ ↦ ?_, fun _ _ ↦ trivial⟩⟩⟩⟩
    exact Or.inr (by decide)
  have hrun := (pointers_set_iff copyIntoMember).mpr hkeeps copyIntoMember (prefix_refl _)
  exact ⟨_, rfl, rfl, hrun.1 _ rfl⟩

/-- After a string was moved to a new variable, the old one has the type of a string and no string.
To dump it is to follow a null pointer. -/
theorem moved_from_string_is_null : ∃ s : JsonObjects Bool,
    runAll step empty [(.construct false (.view [97]) 0 : JsonAction Unit Bool),
      .moveConstruct true ⟨false, []⟩] = .ok s ∧
      s.get ⟨false, []⟩ = some (.plain .kString 0) ∧ ¬s.PointersSet ∧
      s.step (.dump ⟨false, []⟩ : JsonAction Unit Bool) = .error (.fault .badAccess) := by
  refine ⟨_, rfl, rfl, fun h ↦ ?_, rfl⟩
  exact JsonCell.not_nonNull_plain rfl 0 (h ⟨false, []⟩ _ rfl)

end Examples

end JsonObjects

end Fishnet

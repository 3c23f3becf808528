import Fishnet.Json.JsonObjects

/-!
# Copying a JSON object

A copy is meant to read as its source does. `copy` has no case for booleans, so the booleans of a
copy are what happened to be in its memory. The copy constructor does not initialise the union, and
`new Array(…)` and `new Object(…)` use the copy constructor for what is inside. The copy assignment
sets the union of the target itself to zero first, which makes a boolean `false`.

An assignment between an object and a part of it goes wrong in other ways. `clear()` destroys a
source that is below its target, and a copy of a source that is above its target runs into the
target half-way written.

`copy_preserves_iff` is the exact condition.
-/

namespace Fishnet

open Function List

/-! ## Booleans in values -/

namespace Json

variable {N : Type}

/-- There is a boolean in the value. -/
def HasBoolean (json : Json N) : Prop := ∃ b, .boolean b ∈ json.subvalues

theorem hasBoolean_array {elements : List (Json N)} :
    (Json.array elements).HasBoolean ↔ ∃ json ∈ elements, json.HasBoolean := by
  have hmem : ∀ b, .boolean b ∈ (Json.array elements).subvalues ↔
      ∃ json ∈ elements, .boolean b ∈ json.subvalues := by
    intro b
    rw [subvalues, subvaluesOfElements_eq, mem_cons, mem_flatMap]
    exact or_iff_right (by rintro ⟨⟩)
  simp only [HasBoolean, hmem]
  constructor
  · rintro ⟨b, json, hjson, hb⟩
    exact ⟨json, hjson, b, hb⟩
  · rintro ⟨json, hjson, b, hb⟩
    exact ⟨b, json, hjson, hb⟩

theorem hasBoolean_object {members : List (Bytes × Json N)} :
    (Json.object members).HasBoolean ↔ ∃ m ∈ members, m.2.HasBoolean := by
  have hmem : ∀ b, .boolean b ∈ (Json.object members).subvalues ↔
      ∃ m ∈ members, .boolean b ∈ m.2.subvalues := by
    intro b
    rw [subvalues, subvaluesOfMembers_eq, mem_cons, mem_flatMap]
    exact or_iff_right (by rintro ⟨⟩)
  simp only [HasBoolean, hmem]
  constructor
  · rintro ⟨b, m, hm, hb⟩
    exact ⟨m, hm, b, hb⟩
  · rintro ⟨m, hm, b, hb⟩
    exact ⟨b, m, hm, hb⟩

theorem hasBoolean_boolean (b : Bool) : (Json.boolean b : Json N).HasBoolean :=
  ⟨b, mem_singleton_self _⟩

/-! ### Values without booleans -/

theorem elementsWithBooleans_eq_self {elements : List (Json N)}
    (h : ∀ json ∈ elements, ∀ m, json.withBooleans m = json) (m : List ℕ → Bool) (i : ℕ) :
    elementsWithBooleans m i elements = elements := by
  induction elements generalizing i with
  | nil => rfl
  | cons json elements ih =>
    obtain ⟨hjson, helements⟩ := forall_mem_cons.mp h
    rw [elementsWithBooleans, hjson, ih helements]

theorem membersWithBooleans_eq_self {members : List (Bytes × Json N)}
    (h : ∀ m ∈ members, ∀ f, m.2.withBooleans f = m.2) (f : List ℕ → Bool) (i : ℕ) :
    membersWithBooleans f i members = members := by
  induction members generalizing i with
  | nil => rfl
  | cons m members ih =>
    obtain ⟨hm, hmembers⟩ := forall_mem_cons.mp h
    rw [membersWithBooleans, hm, ih hmembers]

theorem withBooleans_eq_self {json : Json N} (h : ¬json.HasBoolean) (m : List ℕ → Bool) :
    json.withBooleans m = json := by
  induction json using induct generalizing m with
  | null => rfl
  | boolean b => exact absurd (hasBoolean_boolean b) h
  | number n => rfl
  | string s => rfl
  | array elements ih =>
    rw [hasBoolean_array] at h
    rw [withBooleans, elementsWithBooleans_eq_self fun json hjson m ↦ ih json hjson
      (fun hb ↦ h ⟨json, hjson, hb⟩) m]
  | object members ih =>
    rw [hasBoolean_object] at h
    rw [withBooleans, membersWithBooleans_eq_self fun m hm f ↦ ih m hm (fun hb ↦ h ⟨m, hm, hb⟩) f]

/-! ### Values that survive -/

theorem forall_of_elementsWithBooleans {b : Bool} {elements : List (Json N)} {i : ℕ}
    (h : elementsWithBooleans (fun _ ↦ b) i elements = elements) :
    ∀ json ∈ elements, json.withBooleans (fun _ ↦ b) = json := by
  induction elements generalizing i with
  | nil => exact fun _ hjson ↦ absurd hjson not_mem_nil
  | cons json elements ih =>
    rw [elementsWithBooleans, List.cons.injEq] at h
    exact forall_mem_cons.mpr ⟨h.1, ih h.2⟩

theorem forall_of_membersWithBooleans {b : Bool} {members : List (Bytes × Json N)} {i : ℕ}
    (h : membersWithBooleans (fun _ ↦ b) i members = members) :
    ∀ m ∈ members, m.2.withBooleans (fun _ ↦ b) = m.2 := by
  induction members generalizing i with
  | nil => exact fun _ hm ↦ absurd hm not_mem_nil
  | cons m members ih =>
    rw [membersWithBooleans, List.cons.injEq] at h
    exact forall_mem_cons.mpr ⟨congrArg Prod.snd h.1, ih h.2⟩

/-- A value that stays the same when all booleans become `b` has no other boolean. -/
theorem eq_of_withBooleans_const {b b' : Bool} {json : Json N}
    (h : json.withBooleans (fun _ ↦ b) = json) (hb' : .boolean b' ∈ json.subvalues) : b' = b := by
  induction json using induct with
  | null => cases mem_singleton.mp hb'
  | boolean b'' =>
    cases mem_singleton.mp hb'
    exact (Json.boolean.inj h).symm
  | number n => cases mem_singleton.mp hb'
  | string s => cases mem_singleton.mp hb'
  | array elements ih =>
    rw [withBooleans, Json.array.injEq] at h
    rw [subvalues, subvaluesOfElements_eq, mem_cons, mem_flatMap] at hb'
    rcases hb' with hb' | ⟨json, hjson, hb'⟩
    · cases hb'
    · exact ih json hjson (forall_of_elementsWithBooleans h json hjson) hb'
  | object members ih =>
    rw [withBooleans, Json.object.injEq] at h
    rw [subvalues, subvaluesOfMembers_eq, mem_cons, mem_flatMap] at hb'
    rcases hb' with hb' | ⟨m, hm, hb'⟩
    · cases hb'
    · exact ih m hm (forall_of_membersWithBooleans h m hm) hb'

/-- A value stays the same whatever its booleans become exactly if it has none. -/
theorem withBooleans_eq_self_iff {json : Json N} :
    (∀ b, json.withBooleans (fun _ ↦ b) = json) ↔ ¬json.HasBoolean := by
  constructor
  · rintro h ⟨b, hb⟩
    have htrue := eq_of_withBooleans_const (h true) hb
    rw [htrue] at hb
    cases eq_of_withBooleans_const (h false) hb
  · exact fun h b ↦ withBooleans_eq_self h _

/-! ### What is inside a value -/

theorem elementsWithBooleans_congr {f g : List ℕ → Bool} (h : ∀ i p, f (i :: p) = g (i :: p))
    (i : ℕ)
    (elements : List (Json N)) :
    elementsWithBooleans f i elements = elementsWithBooleans g i elements := by
  induction elements generalizing i with
  | nil => rfl
  | cons json elements ih =>
    rw [elementsWithBooleans, elementsWithBooleans, ih, funext (h i)]

theorem membersWithBooleans_congr {f g : List ℕ → Bool} (h : ∀ i p, f (i :: p) = g (i :: p)) (i : ℕ)
    (members : List (Bytes × Json N)) :
    membersWithBooleans f i members = membersWithBooleans g i members := by
  induction members generalizing i with
  | nil => rfl
  | cons m members ih =>
    rw [membersWithBooleans, membersWithBooleans, ih, funext (h i)]

/-- What the memory of the object itself holds counts for a boolean only. -/
theorem withBooleans_congr {f g : List ℕ → Bool} (h : ∀ i p, f (i :: p) = g (i :: p))
    {json : Json N}
    (hjson : ∀ b, json ≠ .boolean b) : json.withBooleans f = json.withBooleans g := by
  cases json with
  | boolean b => exact absurd rfl (hjson b)
  | array elements => rw [withBooleans, withBooleans, elementsWithBooleans_congr h]
  | object members => rw [withBooleans, withBooleans, membersWithBooleans_congr h]
  | _ => rfl

end Json

/-! ## Copies -/

/-- What is made a copy of the source. -/
inductive CopyTarget (X : Type) where
  /-- A new variable, by the copy constructor. -/
  | construct (x : X)
  /-- An object, by the copy assignment. -/
  | assign (dst : JsonLoc X)

namespace CopyTarget

variable {N X : Type}

def loc : CopyTarget X → JsonLoc X
  | construct x => ⟨x, []⟩
  | assign dst => dst

/-- The variable is new, or the object exists. -/
def Ready (s : JsonObjects X) : CopyTarget X → Prop
  | construct x => s.var x = none
  | assign dst => (s.get dst).isSome

/-- The copy will read as the source does. -/
def Faithful (src : JsonLoc X) (json : Json N) : CopyTarget X → Prop
  | construct _ => ¬json.HasBoolean
  | assign dst => dst = src ∨ dst.Apart src ∧ (json = .boolean false ∨ ¬json.HasBoolean)

end CopyTarget

namespace JsonObjects

variable {N X : Type} [DoubleBits N] [DecidableEq X]

/-- Copy the source, to memory that holds `mem`. -/
def copyTo (s : JsonObjects X) (src : JsonLoc X) (mem : List ℕ → UInt64) :
    CopyTarget X → Checked (JsonObjects X)
  | .construct x => s.copyConstruct x src mem
  | .assign dst => s.copyAssign dst src mem

/-- What an object reads as, if it exists. -/
def value (N : Type) [DoubleBits N] (s : JsonObjects X) (l : JsonLoc X) :
    Option (Checked (Json N)) :=
  (s.get l).map JsonCell.read

/-- Whatever the memory holds, the copy reads as the source does, and the source is the same. -/
def Preserves (N : Type) [DoubleBits N] (s : JsonObjects X) (src : JsonLoc X)
    (target : CopyTarget X) : Prop :=
  ∀ mem, ∃ s', s.copyTo src mem target = .ok s' ∧ s'.value N target.loc = s.value N src ∧
    s'.get src = s.get src

variable {s : JsonObjects X} {src dst : JsonLoc X} {v : JsonCell} {json : Json N} {x : X}

omit [DecidableEq X] in
theorem exists_boolean (b : Bool) : ∃ value : UInt64, JsonCell.boolean value = b := by
  cases b with
  | false => exact ⟨0, rfl⟩
  | true => exact ⟨1, rfl⟩

theorem exists_copy (hjson : v.read = .ok json) (mem : List ℕ → UInt64) :
    ∃ c, v.copy mem = .ok c ∧
      c.read = .ok (json.withBooleans fun p ↦ JsonCell.boolean (mem p)) := by
  have hsound : v.Sound := by
    rcases JsonCell.read_cases (N := N) v with ⟨hsound, -⟩ | ⟨-, herr⟩
    · exact hsound
    · rw [hjson] at herr
      cases herr
  rcases JsonCell.copy_cases v mem with ⟨-, c, hc, -⟩ | ⟨hno, -⟩
  · refine ⟨c, hc, ?_⟩
    rw [JsonCell.read_copy hc, hjson]
    rfl
  · exact absurd hsound hno

theorem exists_preserved_iff {s' : JsonObjects X} {json' : Json N} {target : CopyTarget X}
    {mem : List ℕ → UInt64} (hvalue : s.value N src = some (.ok json))
    (hok : s.copyTo src mem target = .ok s') (hvalue' : s'.value N target.loc = some (.ok json'))
    (hsame : s'.get src = s.get src) :
    (∃ s'', s.copyTo src mem target = .ok s'' ∧ s''.value N target.loc = s.value N src ∧
      s''.get src = s.get src) ↔ json' = json := by
  rw [hvalue]
  constructor
  · rintro ⟨s'', hs'', hs''value, -⟩
    obtain rfl := Except.ok.inj (hok.symm.trans hs'')
    rw [hvalue'] at hs''value
    exact Except.ok.inj (Option.some.inj hs''value)
  · intro heq
    rw [heq] at hvalue'
    exact ⟨s', hok, hvalue', hsame⟩

omit [DoubleBits N] in
/-- Whatever memory holds, only a value without booleans stays the same. -/
theorem forall_withBooleans_iff :
    (∀ mem : List ℕ → UInt64, json.withBooleans (fun p ↦ JsonCell.boolean (mem p)) = json) ↔
      ¬json.HasBoolean := by
  rw [← Json.withBooleans_eq_self_iff]
  constructor
  · intro h b
    obtain ⟨w, hw⟩ := exists_boolean b
    have hconst := h fun _ ↦ w
    rwa [hw] at hconst
  · intro h mem
    exact Json.withBooleans_eq_self (Json.withBooleans_eq_self_iff.mp h) _

theorem construct_preserves_iff (hx : s.var x = none) (hsrc : s.get src = some v)
    (hjson : v.read = .ok json) : s.Preserves N src (.construct x) ↔ ¬json.HasBoolean := by
  have hne : src.root ≠ x := by
    rintro rfl
    rw [get, hx] at hsrc
    cases hsrc
  have hvalue : s.value N src = some (.ok json) := by rw [value, hsrc, Option.map_some, hjson]
  rw [← forall_withBooleans_iff]
  refine forall_congr' fun mem ↦ ?_
  obtain ⟨c, hc, hread⟩ := exists_copy hjson mem
  have hput : (s.put x c).value N ⟨x, []⟩ =
      some (.ok (json.withBooleans fun p ↦ JsonCell.boolean (mem p))) := by
    rw [value, get_put_self, Option.map_some, hread]
  exact exists_preserved_iff hvalue
    ((bind_of_ok (deref_of_get hsrc) _).trans (bind_of_ok hc _)) hput
    (get_put_of_ne hne c)

/-- The assignment of an object that is not a part of the target, nor the other way round. -/
theorem assign_preserves_iff (hdst : (s.get dst).isSome) (hsrc : s.get src = some v)
    (hjson : v.read = .ok json) (hapart : dst.Apart src) :
    s.Preserves N src (.assign dst) ↔ json = .boolean false ∨ ¬json.HasBoolean := by
  obtain ⟨t, ht⟩ := Option.isSome_iff_exists.mp hdst
  have hvalue : s.value N src = some (.ok json) := by rw [value, hsrc, Option.map_some, hjson]
  have hpreserves : s.Preserves N src (.assign dst) ↔
      ∀ mem, json.withBooleans (fun p ↦ JsonCell.boolean (update mem [] 0 p)) = json := by
    refine forall_congr' fun mem ↦ ?_
    obtain ⟨c, hc, hread⟩ := exists_copy hjson (update mem [] 0)
    have hok : s.copyTo src mem (.assign dst) = .ok (s.set dst c) := by
      rw [copyTo, copyAssign_of_apart hapart hsrc, hc]
      rfl
    have hset : (s.set dst c).value N dst =
        some (.ok (json.withBooleans fun p ↦ JsonCell.boolean (update mem [] 0 p))) := by
      rw [value, get_set_self ht, Option.map_some, hread]
    exact exists_preserved_iff hvalue hok hset (get_set_of_apart hapart.2 hapart.1 c)
  rw [hpreserves]
  by_cases hboolean : ∃ b, json = .boolean b
  · -- the union of the target is zero
    obtain ⟨b, rfl⟩ := hboolean
    rw [or_iff_left (not_not.mpr (Json.hasBoolean_boolean b))]
    have hzero : ∀ mem : List ℕ → UInt64, (Json.boolean b : Json N).withBooleans
        (fun p ↦ JsonCell.boolean (update mem [] 0 p)) = .boolean false := by
      intro mem
      rw [Json.withBooleans, update_self]
      rfl
    exact ⟨fun h ↦ (h fun _ ↦ 0).symm.trans (hzero _), fun h mem ↦ (hzero mem).trans h.symm⟩
  · -- the unions of the parts are what memory happens to hold
    have hinside : ∀ mem : List ℕ → UInt64,
        json.withBooleans (fun p ↦ JsonCell.boolean (update mem [] 0 p)) =
          json.withBooleans fun p ↦ JsonCell.boolean (mem p) :=
      fun mem ↦ Json.withBooleans_congr
        (fun i p ↦ by rw [update_of_ne (cons_ne_nil i p)])
        fun b hb ↦ hboolean ⟨b, hb⟩
    rw [or_iff_right fun h ↦ hboolean ⟨false, h⟩, ← forall_withBooleans_iff]
    exact forall_congr' fun mem ↦ by rw [hinside mem]

/-- **The exact condition for a faithful copy.** The copy constructor preserves the values without
booleans. The copy assignment preserves those and `false`, unless one of the two objects is a part
of the other. -/
theorem copy_preserves_iff {target : CopyTarget X} (hready : target.Ready s)
    (hsrc : s.get src = some v) (hjson : v.read = .ok json) :
    s.Preserves N src target ↔ target.Faithful src json := by
  cases target with
  | construct x => exact construct_preserves_iff hready hsrc hjson
  | assign dst =>
    by_cases hself : dst = src
    · refine iff_of_true (fun mem ↦ ⟨s, ?_, ?_, rfl⟩) (Or.inl hself)
      · rw [copyTo, copyAssign, if_pos hself]
        rfl
      · rw [CopyTarget.loc, hself]
    by_cases hapart : dst.Apart src
    · rw [assign_preserves_iff hready hsrc hjson hapart, CopyTarget.Faithful, or_iff_right hself,
        and_iff_right hapart]
    · have hfault : ∀ mem, s.copyAssign dst src mem = .error .badAccess := by
        intro mem
        by_cases hin : dst.Within src
        · exact copyAssign_of_target_within hin hself hready hsrc mem
        · have hin' : src.Within dst := by
            by_contra hno
            exact hapart ⟨hin, hno⟩
          exact copyAssign_of_source_within hin' hself mem
      refine iff_of_false (fun h ↦ ?_) fun h ↦ h.elim hself fun h ↦ hapart h.1
      obtain ⟨s', hs', -⟩ := h fun _ ↦ 0
      rw [copyTo, hfault] at hs'
      cases hs'

/-- A `double` given by its bytes. -/
instance : DoubleBits UInt64 := ⟨id, id, fun _ ↦ rfl⟩

/-- An array with a string and a number, copied to a new variable. -/
theorem copy_preserves_array : ∃ s : JsonObjects Bool,
    s.var false = some (.array [.string [65], .ofNumber (7 : UInt64)]) ∧
      s.Preserves UInt64 ⟨false, []⟩ (.construct true) := by
  set s : JsonObjects Bool :=
    empty.put false (.array [.string [65], .ofNumber (7 : UInt64)]) with hs
  have hready : CopyTarget.Ready s (.construct true) := rfl
  have hread : JsonCell.read (.array [.string [65], .ofNumber (7 : UInt64)]) =
      .ok (.array [.string [65], .number (7 : UInt64)]) := rfl
  refine ⟨s, rfl, (copy_preserves_iff hready (get_put_self _ _) hread).mpr ?_⟩
  simp [CopyTarget.Faithful, Json.HasBoolean, Json.subvalues, Json.subvaluesOfElements]

/-- The copy of `true` reads as `false` if that is what was in its memory. -/
theorem copy_of_true_reads_false : ∃ s s' : JsonObjects Bool,
    s.var false = some (.ofBoolean true 0) ∧
      s.copyTo ⟨false, []⟩ (fun _ ↦ 0) (.construct true) = .ok s' ∧
      s.value UInt64 ⟨false, []⟩ = some (.ok (.boolean true)) ∧
      s'.value UInt64 ⟨true, []⟩ = some (.ok (.boolean false)) :=
  ⟨empty.put false (.ofBoolean true 0), _, rfl, rfl, rfl, rfl⟩

end JsonObjects

end Fishnet

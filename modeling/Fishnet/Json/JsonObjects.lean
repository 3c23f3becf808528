import Fishnet.Library.Run
import Fishnet.Library.TreePath
import Fishnet.Json.JsonCell

/-!
# A program with JSON objects

The variables of type `zjson::Json` of a program, and what is below them. References into
a variable, as `operator[]` returns them, are paths: an object is addressed by its variable, and the
indices and keys that lead to it.

An action is one public operation on such objects. The two assignments are taken statement by
statement, since source and target may be parts of each other: `clear()` can destroy the source, and
the copy can run into its own target. An operation that throws changes nothing.

Access through a null pointer, or to an object that is no longer there, is the fault `badAccess`. An
action on an object that does not exist, or that constructs a variable which does, is not possible.

## Main results

* `JsonObjects.copyAssign_of_source_within` to `JsonObjects.moveAssign_of_ne`: what an assignment
  does, by how source and target lie.
-/

namespace Fishnet

open Branching Function List

/-! ## Paths -/

/-- One step down: `operator[](size_t)` or `operator[](const std::string &)`. -/
inductive Selector where
  | index (i : ℕ)
  | key (k : Bytes)
  deriving DecidableEq

namespace JsonCell

/-- The element or member. -/
def child : JsonCell → Selector → Option JsonCell
  | array elements, .index i => elements[i]?
  | object members, .key k => members.lookup k
  | _, _ => none

variable (f : JsonCell → JsonCell)

/-- Change an element or member. -/
def modifyChild : Selector → JsonCell → JsonCell
  | .index i, array elements => array (elements.modify i f)
  | .key k, object members => object (members.map fun m ↦ if k = m.1 then (m.1, f m.2) else m)
  | _, c => c

theorem lookup_map (k k' : Bytes) (members : List (Bytes × JsonCell)) :
    (members.map fun m ↦ if k = m.1 then (m.1, f m.2) else m).lookup k' =
      if k = k' then (members.lookup k').map f else members.lookup k' := by
  induction members with
  | nil => exact (ite_self none).symm
  | cons m members ih =>
    obtain ⟨key, value⟩ := m
    by_cases hkey : k' = key
    · subst hkey
      by_cases h : k = k' <;> simp [h]
    · have hbeq : (k' == key) = false := beq_eq_false_iff_ne.mpr hkey
      by_cases h : k = key
      · subst h
        simp [lookup_cons, hbeq, ih]
      · simp [lookup_cons, h, hbeq, ih]

instance : Branching Selector JsonCell where
  child := child
  modifyChild := modifyChild
  child_modifyChild_self f a c := by
    cases a with
    | index i =>
      cases c with
      | array elements => exact getElem?_modify_eq ..
      | _ => rfl
    | key k =>
      cases c with
      | object members => exact (lookup_map f k k members).trans (if_pos rfl)
      | _ => rfl
  child_modifyChild_of_ne f a b c hne := by
    cases a with
    | index i =>
      cases c with
      | array elements =>
        cases b with
        | index j => exact getElem?_modify_ne _ _ fun h ↦ hne (congrArg _ h)
        | key k => rfl
      | _ => rfl
    | key k =>
      cases c with
      | object members =>
        cases b with
        | index j => rfl
        | key k' =>
          exact (lookup_map f k k' members).trans (if_neg fun h ↦ hne (congrArg _ h))
      | _ => rfl
  modifyChild_modifyChild f g a c := by
    cases a with
    | index i =>
      cases c with
      | array elements => exact congrArg array (modify_modify_eq ..)
      | _ => rfl
    | key k =>
      cases c with
      | object members =>
        refine congrArg object ?_
        rw [map_map]
        refine map_congr_left fun m _ ↦ ?_
        by_cases h : k = m.1
        · simp [h]
        · simp [h]
      | _ => rfl

theorem type_modifyChild (a : Selector) (c : JsonCell) : (modifyChild f a c).type = c.type := by
  cases a <;> cases c <;> rfl

theorem type_modifyAt {r : List Selector} (hr : r ≠ []) (c : JsonCell) :
    (modifyAt f r c).type = c.type := by
  cases r with
  | nil => exact absurd rfl hr
  | cons a r => exact type_modifyChild _ a c

theorem isOwner_of_descend {r : List Selector} (hr : r ≠ []) {c d : JsonCell}
    (h : descend r c = some d) : c.type.isOwner = true := by
  cases r with
  | nil => exact absurd rfl hr
  | cons a r =>
    cases c with
    | plain type value =>
      cases a <;> cases h
    | string s => rfl
    | array elements => rfl
    | object members => rfl

theorem descend_plain {r : List Selector} (hr : r ≠ []) (type : JsonType) (value : UInt64) :
    descend r (plain type value) = none := by
  cases r with
  | nil => exact absurd rfl hr
  | cons a r => cases a <;> rfl

theorem mem_of_lookup {k : Bytes} {members : List (Bytes × JsonCell)} {d : JsonCell}
    (h : members.lookup k = some d) : (k, d) ∈ members := by
  induction members with
  | nil => cases h
  | cons m members ih =>
    obtain ⟨key, value⟩ := m
    rw [lookup_cons] at h
    split at h
    next hk =>
      cases h
      rw [eq_of_beq hk]
      exact mem_cons_self
    next => exact mem_cons_of_mem _ (ih h)

theorem Sound.child {c d : JsonCell} (hc : c.Sound) {a : Selector} (h : c.child a = some d) :
    d.Sound := by
  cases hc with
  | plain hp => cases a <;> cases h
  | string s => cases a <;> cases h
  | array helements =>
    cases a with
    | index i => exact helements d (mem_of_getElem? h)
    | key k => cases h
  | object hmembers =>
    cases a with
    | index i => cases h
    | key k => exact hmembers _ (mem_of_lookup h)

theorem Sound.descend {r : List Selector} {c d : JsonCell} (hc : c.Sound)
    (h : Branching.descend r c = some d) : d.Sound := by
  induction r generalizing c with
  | nil =>
    cases h
    exact hc
  | cons a r ih =>
    obtain ⟨e, he, h⟩ := Option.bind_eq_some_iff.mp h
    exact ih (hc.child he) h

/-! ## The operations on one object -/

/-- `operator[](const std::string &)`: the object it is called on, with the member. -/
def subscript (key : Bytes) : JsonCell → Checked JsonCell
  | plain .kNull _ => .ok (object [(key, cleared)])
  | plain .kObject _ => .error .badAccess
  | object members => .ok (object (OrderedMap.emplace key cleared members))
  -- `check_type` throws
  | c => .ok c

/-- `check_type(type)`, and then an access through the pointer, as in `operator[](size_t)` and
`contain`. -/
def access (type : JsonType) : JsonCell → Checked Unit
  | plain t _ => if t = type ∧ type.isOwner = true then .error .badAccess else .ok ()
  | _ => .ok ()

/-- `get<T>()`, for the type that goes with `T`: it returns a copy. -/
def get (type : JsonType) (mem : List ℕ → UInt64) (c : JsonCell) : Checked Unit :=
  if c.type = type then (c.copy mem).map fun _ ↦ () else .ok ()

end JsonCell

/-- The arguments of the constructors that do not take a `Json`. -/
inductive JsonInit (N : Type) where
  | default
  | number (n : N)
  | boolean (b : Bool)
  | cstring (str : Bytes)
  | view (sv : Bytes)

/-- The object that a constructor makes of memory that holds `value`. -/
def JsonInit.cell {N : Type} [DoubleBits N] (value : UInt64) : JsonInit N → JsonCell
  | default => .plain .kNull 0
  | number n => .ofNumber n
  | boolean b => .ofBoolean b value
  | cstring str => .string (cString str)
  | view sv => .string sv

/-! ## The objects of a program -/

/-- An object: a variable, or a part of what is in it. -/
structure JsonLoc (X : Type) where
  root : X
  path : List Selector
  deriving DecidableEq

/-- The object is `m` or below it. -/
def JsonLoc.Within {X : Type} (l m : JsonLoc X) : Prop := l.root = m.root ∧ m.path <+: l.path

instance {X : Type} [DecidableEq X] (l m : JsonLoc X) : Decidable (l.Within m) :=
  inferInstanceAs (Decidable (_ ∧ _))

/-- Neither object is a part of the other. -/
def JsonLoc.Apart {X : Type} (l m : JsonLoc X) : Prop := ¬l.Within m ∧ ¬m.Within l

instance {X : Type} [DecidableEq X] (l m : JsonLoc X) : Decidable (l.Apart m) :=
  inferInstanceAs (Decidable (_ ∧ _))

theorem JsonLoc.Apart.ne {X : Type} {l m : JsonLoc X} (h : l.Apart m) : l ≠ m := by
  rintro rfl
  exact h.1 ⟨rfl, prefix_refl _⟩

theorem JsonLoc.Within.exists_append {X : Type} {l m : JsonLoc X} (h : l.Within m) (hne : l ≠ m) :
    ∃ r, r ≠ [] ∧ l = ⟨m.root, m.path ++ r⟩ := by
  obtain ⟨x, p⟩ := l
  obtain ⟨y, q⟩ := m
  obtain ⟨hroot, r, hr⟩ := h
  obtain rfl : x = y := hroot
  obtain rfl : q ++ r = p := hr
  refine ⟨r, fun hnil ↦ hne ?_, rfl⟩
  rw [hnil, append_nil]

/-- The variables of a program: what they hold, if they exist. -/
structure JsonObjects (X : Type) where
  var : X → Option JsonCell

/-- A public operation. `mem` is what the memory held in which a new object is made. -/
inductive JsonAction (N X : Type) where
  | construct (x : X) (init : JsonInit N) (mem : UInt64)
  | copyConstruct (x : X) (src : JsonLoc X) (mem : List ℕ → UInt64)
  | moveConstruct (x : X) (src : JsonLoc X)
  | copyAssign (dst src : JsonLoc X) (mem : List ℕ → UInt64)
  | moveAssign (dst src : JsonLoc X)
  | clear (l : JsonLoc X)
  /-- `operator[](size_t)`. -/
  | element (l : JsonLoc X)
  /-- `operator[](const std::string &)`. -/
  | member (l : JsonLoc X) (key : Bytes)
  | contain (l : JsonLoc X)
  | get (l : JsonLoc X) (type : JsonType) (mem : List ℕ → UInt64)
  | dump (l : JsonLoc X)
  /-- A new variable for the result of `parse`. -/
  | parse (x : X) (text : Bytes)
  /-- The end of the life of a variable. -/
  | destroy (x : X)

namespace JsonObjects

variable {N X : Type}

/-- No variables. -/
def empty : JsonObjects X := ⟨fun _ ↦ none⟩

/-- The object, if it exists. -/
def get (s : JsonObjects X) (l : JsonLoc X) : Option JsonCell :=
  (s.var l.root).bind (descend l.path)

/-- Access to an object. -/
def deref (s : JsonObjects X) (l : JsonLoc X) : Checked JsonCell :=
  (s.get l).elim (.error .badAccess) .ok

section

variable [DecidableEq X] (s : JsonObjects X)

/-- A new variable. -/
def put (x : X) (c : JsonCell) : JsonObjects X := ⟨update s.var x (some c)⟩

/-- Write an object. -/
def set (l : JsonLoc X) (c : JsonCell) : JsonObjects X :=
  ⟨update s.var l.root ((s.var l.root).map (modifyAt (fun _ ↦ c) l.path))⟩

/-- `operator=(const Json &)`. -/
def copyAssign (dst src : JsonLoc X) (mem : List ℕ → UInt64) : Checked (JsonObjects X) :=
  if dst = src then pure s else do
    let s := s.set dst .cleared
    let other ← s.deref src
    let s := s.set dst (.plain other.type 0)
    -- the target has the type of the source now, also where it is a part of the source
    let other ← s.deref src
    let c ← other.copy (update mem [] 0)
    return s.set dst c

/-- `operator=(Json &&)`. -/
def moveAssign (dst src : JsonLoc X) : Checked (JsonObjects X) :=
  if dst = src then pure s else do
    let s := s.set dst .cleared
    let other ← s.deref src
    return (s.set dst other).set src (.plain other.type 0)

def copyConstruct (x : X) (src : JsonLoc X) (mem : List ℕ → UInt64) :
    Checked (JsonObjects X) := do
  let other ← s.deref src
  let c ← other.copy mem
  return s.put x c

def moveConstruct (x : X) (src : JsonLoc X) : Checked (JsonObjects X) := do
  let other ← s.deref src
  return (s.put x other).set src (.plain other.type 0)

end

variable [DecidableEq X] [Number N] [DoubleBits N] (s : JsonObjects X)

/-- `parse`: it throws unless the text is parsed. -/
def parse (x : X) (text : Bytes) : JsonObjects X :=
  match (Json.parse text : Except Stop (Json N)) with
  | .ok json => s.put x (.ofJson json)
  | .error _ => s

def step : JsonAction N X → Except Halt (JsonObjects X)
  | .construct x init mem => guarded (s.var x).isNone (s.put x (init.cell mem))
  | .copyConstruct x src mem =>
    attempt ((s.var x).isNone ∧ (s.get src).isSome) (s.copyConstruct x src mem)
  | .moveConstruct x src => attempt ((s.var x).isNone ∧ (s.get src).isSome) (s.moveConstruct x src)
  | .copyAssign dst src mem =>
    attempt ((s.get dst).isSome ∧ (s.get src).isSome) (s.copyAssign dst src mem)
  | .moveAssign dst src => attempt ((s.get dst).isSome ∧ (s.get src).isSome) (s.moveAssign dst src)
  | .clear l => guarded (s.get l).isSome (s.set l .cleared)
  | .element l => attempt (s.get l).isSome do
    let c ← s.deref l
    let _ ← c.access .kArray
    return s
  | .member l key => attempt (s.get l).isSome do
    let c ← s.deref l
    let c ← c.subscript key
    return s.set l c
  | .contain l => attempt (s.get l).isSome do
    let c ← s.deref l
    let _ ← c.access .kObject
    return s
  | .get l type mem => attempt (s.get l).isSome do
    let c ← s.deref l
    let _ ← c.get type mem
    return s
  | .dump l => attempt (s.get l).isSome do
    let c ← s.deref l
    let _ ← (c.read : Checked (Json N))
    return s
  | .parse x text => guarded (s.var x).isNone (s.parse (N := N) x text)
  | .destroy x => guarded (s.var x).isSome ⟨update s.var x none⟩

end JsonObjects

/-! ## Reading after writing -/

namespace JsonObjects

variable {X : Type} [DecidableEq X] {s : JsonObjects X} {l m : JsonLoc X} {c d : JsonCell}

theorem put_var_self (x : X) (c : JsonCell) : (s.put x c).var x = some c := update_self ..

theorem put_var_of_ne {x y : X} (hne : y ≠ x) (c : JsonCell) : (s.put x c).var y = s.var y :=
  update_of_ne hne ..

theorem set_var_self (l : JsonLoc X) (d : JsonCell) :
    (s.set l d).var l.root = (s.var l.root).map (modifyAt (fun _ ↦ d) l.path) :=
  update_self ..

theorem set_var_of_ne {x : X} (hne : x ≠ l.root) (d : JsonCell) : (s.set l d).var x = s.var x :=
  update_of_ne hne ..

theorem set_set (l : JsonLoc X) (c d : JsonCell) : (s.set l c).set l d = s.set l d := by
  have hvar : (s.set l c).var = update s.var l.root
      ((s.var l.root).map (modifyAt (fun _ ↦ c) l.path)) := rfl
  rw [set, set_var_self, Option.map_map, modifyAt_modifyAt, hvar, update_idem]
  rfl

theorem get_put_self (x : X) (c : JsonCell) : (s.put x c).get ⟨x, []⟩ = some c :=
  congrArg (·.bind (descend [])) (put_var_self x c)

theorem get_put_of_ne {x : X} (hne : l.root ≠ x) (c : JsonCell) : (s.put x c).get l = s.get l := by
  rw [get, put_var_of_ne hne, get]

theorem get_set_append (l : JsonLoc X) (r : List Selector) (d : JsonCell) :
    (s.set l d).get ⟨l.root, l.path ++ r⟩ = (s.get l).bind fun _ ↦ descend r d := by
  change ((s.set l d).var l.root).bind (descend (l.path ++ r)) = _
  rw [set_var_self, get]
  cases s.var l.root with
  | none => rfl
  | some c =>
    change descend (l.path ++ r) (modifyAt _ l.path c) = _
    rw [descend_append_modifyAt, Option.bind_map]
    rfl

theorem get_set_self (h : s.get l = some c) (d : JsonCell) : (s.set l d).get l = some d := by
  have happend := get_set_append (s := s) l [] d
  rwa [append_nil, h] at happend

theorem get_set_of_append (l : JsonLoc X) (r : List Selector) (d : JsonCell) :
    (s.set ⟨l.root, l.path ++ r⟩ d).get l = (s.get l).map (modifyAt (fun _ ↦ d) r) := by
  have hvar : (s.set ⟨l.root, l.path ++ r⟩ d).var l.root =
      (s.var l.root).map (modifyAt (fun _ ↦ d) (l.path ++ r)) :=
    set_var_self ⟨l.root, l.path ++ r⟩ d
  rw [get, hvar, get]
  cases s.var l.root with
  | none => rfl
  | some c => exact descend_modifyAt_append _ l.path r c

theorem get_set_of_apart (hlm : ¬m.Within l) (hml : ¬l.Within m) (d : JsonCell) :
    (s.set l d).get m = s.get m := by
  rw [get, get]
  by_cases hroot : m.root = l.root
  · rw [hroot, set_var_self]
    cases s.var l.root with
    | none => rfl
    | some c =>
      exact descend_modifyAt_of_incomparable _ (fun h ↦ hlm ⟨hroot, h⟩)
        (fun h ↦ hml ⟨hroot.symm, h⟩) c
  · rw [set_var_of_ne hroot]

omit [DecidableEq X] in
theorem deref_of_get (h : s.get l = some c) : s.deref l = .ok c := by
  rw [deref, h]
  rfl

omit [DecidableEq X] in
theorem deref_of_none (h : s.get l = none) : s.deref l = .error .badAccess := by
  rw [deref, h]
  rfl

/-! ## Assignments -/

variable {dst src : JsonLoc X} {v : JsonCell}

/-- An object below the target of an assignment is gone once the target is cleared. -/
theorem get_set_cleared_of_within (hin : src.Within dst) (hne : dst ≠ src) :
    (s.set dst .cleared).get src = none := by
  obtain ⟨r, hr, rfl⟩ := hin.exists_append (Ne.symm hne)
  rw [get_set_append]
  cases s.get dst with
  | none => rfl
  | some t => exact JsonCell.descend_plain hr _ _

/-- The source reads freed memory if it is below the target. -/
theorem copyAssign_of_source_within (hin : src.Within dst) (hne : dst ≠ src)
    (mem : List ℕ → UInt64) : s.copyAssign dst src mem = .error .badAccess := by
  rw [copyAssign, if_neg hne]
  exact bind_eq_error.mpr (Or.inl (deref_of_none (get_set_cleared_of_within hin hne)))

theorem moveAssign_of_source_within (hin : src.Within dst) (hne : dst ≠ src) :
    s.moveAssign dst src = .error .badAccess := by
  rw [moveAssign, if_neg hne]
  exact bind_eq_error.mpr (Or.inl (deref_of_none (get_set_cleared_of_within hin hne)))

/-- A source above the target, after the target was written. -/
theorem get_set_of_target_within (hin : dst.Within src) (hne : dst ≠ src)
    (hdst : (s.get dst).isSome)
    (hsrc : s.get src = some v) (d : JsonCell) :
    ∃ v', (s.set dst d).get src = some v' ∧ v'.type = v.type ∧ v.type.isOwner = true ∧
      ∃ r, descend r v' = some d := by
  obtain ⟨r, hr, rfl⟩ := hin.exists_append hne
  refine ⟨modifyAt (fun _ ↦ d) r v, ?_, JsonCell.type_modifyAt _ hr v, ?_, r, ?_⟩
  · rw [get_set_of_append, hsrc]
    rfl
  all_goals
    -- the target is below the source
    have htarget : s.get ⟨src.root, src.path ++ r⟩ = (s.get src).bind (descend r) := by
      simp only [get, descend_append, Option.bind_assoc]
    rw [htarget, hsrc] at hdst
    obtain ⟨t, ht⟩ := Option.isSome_iff_exists.mp hdst
  · exact JsonCell.isOwner_of_descend hr ht
  · rw [descend_modifyAt_self, show descend r v = some t from ht]
    rfl

/-- The copy runs into the target if that is below the source: the target has the type of the source
then, but no pointer yet. -/
theorem copyAssign_of_target_within (hin : dst.Within src) (hne : dst ≠ src)
    (hdst : (s.get dst).isSome) (hsrc : s.get src = some v) (mem : List ℕ → UInt64) :
    s.copyAssign dst src mem = .error .badAccess := by
  obtain ⟨t, ht⟩ := Option.isSome_iff_exists.mp hdst
  obtain ⟨v₁, hv₁, htype, howner, -⟩ := get_set_of_target_within hin hne hdst hsrc .cleared
  have hdst₁ : ((s.set dst .cleared).get dst).isSome := by
    rw [get_set_self ht]
    rfl
  obtain ⟨v₂, hv₂, -, -, r, hr⟩ :=
    get_set_of_target_within hin hne hdst₁ hv₁ (.plain v₁.type 0)
  have hbad : ¬v₂.Sound := by
    intro hsound
    have hplain := JsonCell.sound_plain_iff.mp (hsound.descend hr)
    rw [htype, howner] at hplain
    cases hplain
  have hcopy : v₂.copy (update mem [] 0) = .error .badAccess := by
    rcases JsonCell.copy_cases v₂ (update mem [] 0) with ⟨hsound, -⟩ | ⟨-, herr⟩
    · exact absurd hsound hbad
    · exact herr
  rw [copyAssign, if_neg hne]
  refine bind_eq_error.mpr (Or.inr ⟨v₁, deref_of_get hv₁, ?_⟩)
  refine bind_eq_error.mpr (Or.inr ⟨v₂, deref_of_get hv₂, ?_⟩)
  exact bind_eq_error.mpr (Or.inl hcopy)

theorem copyAssign_of_apart (h : dst.Apart src) (hsrc : s.get src = some v)
    (mem : List ℕ → UInt64) :
    s.copyAssign dst src mem = (v.copy (update mem [] 0)).map (s.set dst) := by
  have hget : ∀ (s' : JsonObjects X) (d : JsonCell), s'.get src = some v →
      (s'.set dst d).deref src = .ok v :=
    fun s' d hv ↦ deref_of_get (by rw [get_set_of_apart h.2 h.1, hv])
  have hsrc₁ : (s.set dst .cleared).get src = some v := by rw [get_set_of_apart h.2 h.1, hsrc]
  rw [copyAssign, if_neg h.ne]
  refine (bind_of_ok (hget s .cleared hsrc) _).trans ?_
  refine (bind_of_ok (hget _ (.plain v.type 0) hsrc₁) _).trans ?_
  cases v.copy (update mem [] 0) with
  | error e => rfl
  | ok c =>
    refine congrArg Except.ok ?_
    rw [set_set, set_set]

/-- A move leaves the source with its type, and without its value. -/
theorem moveAssign_of_ne (hne : dst ≠ src) (hin : ¬src.Within dst) (hdst : (s.get dst).isSome)
    (hsrc : s.get src = some v) :
    ∃ v', v'.type = v.type ∧ (dst.Apart src → v' = v) ∧
      s.moveAssign dst src = .ok ((s.set dst v').set src (.plain v.type 0)) := by
  have hsource : ∃ v', (s.set dst .cleared).get src = some v' ∧ v'.type = v.type ∧
      (dst.Apart src → v' = v) := by
    by_cases hin' : dst.Within src
    · obtain ⟨v', hv', htype, -⟩ := get_set_of_target_within hin' hne hdst hsrc .cleared
      exact ⟨v', hv', htype, fun h ↦ absurd hin' h.1⟩
    · exact ⟨v, by rw [get_set_of_apart hin hin', hsrc], rfl, fun _ ↦ rfl⟩
  obtain ⟨v', hv', htype, hapart⟩ := hsource
  refine ⟨v', htype, hapart, ?_⟩
  rw [moveAssign, if_neg hne]
  refine (bind_of_ok (deref_of_get hv') _).trans ?_
  rw [set_set, htype]
  rfl

end JsonObjects

end Fishnet

import Fishnet.Json.JsonTree

/-!
# JSON objects in memory

A `zjson::Json` is a type, `type_`, and a union of eight bytes, `value_`. Strings, arrays and
objects are behind a pointer in the union. The two are written separately, so they need not fit. A
`JsonCell` with a pointer owns what it points to, and has the type that goes with it. In a *plain*
one the union holds a number, a boolean, a null pointer or bytes that nobody has written.

`read` follows the pointers, as `dump` does, and gives the value that the cell stands for. A pointer
that is missing is a fault.

## Copying

`copy` writes `type_`, and then `value_` in a case distinction that has no case for booleans. What
the union of a new cell holds before is not known. It is given by `mem`, for a cell and those below
it: `mem []` is the union of the cell itself, and `mem (i :: p)` that of the cell at `p` below its
`i`-th element or member.

## Main results

* `JsonCell.copy_cases`: a cell can be copied exactly if no pointer is missing in it.
* `JsonCell.read_copy`: a copy has the booleans that its memory happens to hold.
-/

namespace Fishnet

open List

/-- `zjson::Type`. -/
inductive JsonType where
  | kNull
  | kBoolean
  | kNumber
  | kString
  | kArray
  | kObject
  deriving DecidableEq, Repr

/-- The types whose values are behind a pointer. -/
def JsonType.isOwner : JsonType → Bool
  | kString => true
  | kArray => true
  | kObject => true
  | _ => false

/-- A `double` in eight bytes. -/
class DoubleBits (N : Type) where
  toBits : N → UInt64
  ofBits : UInt64 → N
  ofBits_toBits : ∀ n, ofBits (toBits n) = n

/-- A `zjson::Json`: `type_` and `value_`. -/
inductive JsonCell where
  /-- `value_` holds no pointer to anything. -/
  | plain (type : JsonType) (value : UInt64)
  | string (s : Bytes)
  | array (elements : List JsonCell)
  | object (members : List (Bytes × JsonCell))

namespace JsonCell

variable {N : Type}

/-- `type_`. -/
def type : JsonCell → JsonType
  | plain type _ => type
  | string _ => .kString
  | array _ => .kArray
  | object _ => .kObject

/-- `value_.str`, or nothing if it is null. -/
def str : JsonCell → Option Bytes
  | string s => some s
  | _ => none

/-- `value_.array`, or nothing if it is null. -/
def arrayPtr : JsonCell → Option (List JsonCell)
  | array elements => some elements
  | _ => none

/-- `value_.object`, or nothing if it is null. -/
def objectPtr : JsonCell → Option (List (Bytes × JsonCell))
  | object members => some members
  | _ => none

/-- `value_.boolean`, the first byte of the union. -/
def boolean (value : UInt64) : Bool := value.toUInt8 != 0

/-- `value_.boolean = b`: the other bytes stay. -/
def setBoolean (b : Bool) (value : UInt64) : UInt64 := value &&& ~~~0xFF ||| b.toUInt64

/-- The cell after `clear()`: what a pointer points to is deleted, the union is set to zero. -/
def cleared : JsonCell := plain .kNull 0

/-! ## The constructors -/

/-- `Json(Boolean)`, in memory that holds `value`. -/
def ofBoolean (b : Bool) (value : UInt64) : JsonCell := plain .kBoolean (setBoolean b value)

/-- `Json(Number)`. -/
def ofNumber [DoubleBits N] (n : N) : JsonCell := plain .kNumber (DoubleBits.toBits n)

mutual

/-- `copy(other)`, into memory that holds `mem`. -/
def copy (mem : List ℕ → UInt64) : JsonCell → Checked JsonCell
  | .plain .kNumber value => .ok (.plain .kNumber value)
  | .plain .kString _ => .error .badAccess
  | .plain .kArray _ => .error .badAccess
  | .plain .kObject _ => .error .badAccess
  -- there is no case for the other types: the union stays as it is
  | .plain type _ => .ok (.plain type (mem []))
  | .string s => .ok (.string s)
  | .array elements => (copyElements mem 0 elements).map .array
  | .object members => (copyMembers mem 0 members).map .object

/-- The copy constructor of `std::vector<Json>`, from the `i`-th element on. -/
def copyElements (mem : List ℕ → UInt64) (i : ℕ) : List JsonCell → Checked (List JsonCell)
  | [] => .ok []
  | c :: elements => do
    let c' ← copy (fun p ↦ mem (i :: p)) c
    let elements' ← copyElements mem (i + 1) elements
    return c' :: elements'

/-- The copy constructor of `std::map<String, Json>`, from the `i`-th member on. -/
def copyMembers (mem : List ℕ → UInt64) (i : ℕ) :
    List (Bytes × JsonCell) → Checked (List (Bytes × JsonCell))
  | [] => .ok []
  | (key, c) :: members => do
    let c' ← copy (fun p ↦ mem (i :: p)) c
    let members' ← copyMembers mem (i + 1) members
    return (key, c') :: members'

end

mutual

/-- The value, with the pointers followed. -/
def read [DoubleBits N] : JsonCell → Checked (Json N)
  | .plain .kNull _ => .ok .null
  | .plain .kBoolean value => .ok (.boolean (boolean value))
  | .plain .kNumber value => .ok (.number (DoubleBits.ofBits value))
  | .plain _ _ => .error .badAccess
  | .string s => .ok (.string s)
  | .array elements => (readElements elements).map .array
  | .object members => (readMembers members).map .object

def readElements [DoubleBits N] : List JsonCell → Checked (List (Json N))
  | [] => .ok []
  | c :: elements => do
    let json ← read c
    let elements ← readElements elements
    return json :: elements

def readMembers [DoubleBits N] : List (Bytes × JsonCell) → Checked (List (Bytes × Json N))
  | [] => .ok []
  | (key, c) :: members => do
    let json ← read c
    let members ← readMembers members
    return (key, json) :: members

end

mutual

/-- The cell that a parse leaves. -/
def ofJson [DoubleBits N] : Json N → JsonCell
  | .null => .plain .kNull 0
  | .boolean b => ofBoolean b 0
  | .number n => ofNumber n
  | .string s => .string s
  | .array elements => .array (ofElements elements)
  | .object members => .object (ofMembers members)

def ofElements [DoubleBits N] : List (Json N) → List JsonCell
  | [] => []
  | json :: elements => ofJson json :: ofElements elements

def ofMembers [DoubleBits N] : List (Bytes × Json N) → List (Bytes × JsonCell)
  | [] => []
  | (key, json) :: members => (key, ofJson json) :: ofMembers members

end

end JsonCell

/-! ## Booleans by chance -/

namespace Json

variable {N : Type}

mutual

/-- The value with its booleans replaced by those that `m` has in their places. -/
def withBooleans (m : List ℕ → Bool) : Json N → Json N
  | .boolean _ => .boolean (m [])
  | .array elements => .array (elementsWithBooleans m 0 elements)
  | .object members => .object (membersWithBooleans m 0 members)
  | json => json

def elementsWithBooleans (m : List ℕ → Bool) (i : ℕ) : List (Json N) → List (Json N)
  | [] => []
  | json :: elements =>
    withBooleans (fun p ↦ m (i :: p)) json :: elementsWithBooleans m (i + 1) elements

def membersWithBooleans (m : List ℕ → Bool) (i : ℕ) : List (Bytes × Json N) → List (Bytes × Json N)
  | [] => []
  | (key, json) :: members =>
    (key, withBooleans (fun p ↦ m (i :: p)) json) :: membersWithBooleans m (i + 1) members

end

end Json

namespace JsonCell

variable {N : Type}

/-! ## Induction -/

/-- What holds of a cell whenever it holds of the cells below it holds of all cells. -/
theorem induct {motive : JsonCell → Prop} (plain : ∀ type value, motive (.plain type value))
    (string : ∀ s, motive (.string s))
    (array : ∀ elements, (∀ c ∈ elements, motive c) → motive (.array elements))
    (object : ∀ members, (∀ m ∈ members, motive m.2) → motive (.object members)) : ∀ c, motive c :=
  @JsonCell.rec motive (fun elements ↦ ∀ c ∈ elements, motive c)
    (fun members ↦ ∀ m ∈ members, motive m.2) (fun m ↦ motive m.2) plain string array object
    (fun _ hc ↦ absurd hc not_mem_nil)
    (fun _ _ hc helements ↦ forall_mem_cons.mpr ⟨hc, helements⟩)
    (fun _ hm ↦ absurd hm not_mem_nil)
    (fun _ _ hm hmembers ↦ forall_mem_cons.mpr ⟨hm, hmembers⟩)
    fun _ _ hc ↦ hc

/-! ## Pointers -/

/-- No pointer is missing in the cell or below it. -/
inductive Sound : JsonCell → Prop
  | plain {type : JsonType} {value : UInt64} (h : type.isOwner = false) : Sound (.plain type value)
  | string (s : Bytes) : Sound (.string s)
  | array {elements : List JsonCell} (h : ∀ c ∈ elements, Sound c) : Sound (.array elements)
  | object {members : List (Bytes × JsonCell)} (h : ∀ m ∈ members, Sound m.2) :
      Sound (.object members)

theorem sound_plain_iff {type : JsonType} {value : UInt64} :
    Sound (.plain type value) ↔ type.isOwner = false :=
  ⟨fun h ↦ by cases h; assumption, .plain⟩

theorem sound_array_iff {elements : List JsonCell} :
    Sound (.array elements) ↔ ∀ c ∈ elements, Sound c :=
  ⟨fun h ↦ by cases h; assumption, .array⟩

theorem sound_object_iff {members : List (Bytes × JsonCell)} :
    Sound (.object members) ↔ ∀ m ∈ members, Sound m.2 :=
  ⟨fun h ↦ by cases h; assumption, .object⟩

theorem sound_cleared : Sound cleared := .plain rfl

mutual

theorem sound_ofJson [DoubleBits N] : ∀ json : Json N, Sound (ofJson json)
  | .null => .plain rfl
  | .boolean _ => .plain rfl
  | .number _ => .plain rfl
  | .string s => .string s
  | .array elements => .array (sound_ofElements elements)
  | .object members => .object (sound_ofMembers members)

theorem sound_ofElements [DoubleBits N] :
    ∀ elements : List (Json N), ∀ c ∈ ofElements elements, Sound c
  | [] => fun _ hc ↦ absurd hc not_mem_nil
  | json :: elements => forall_mem_cons.mpr ⟨sound_ofJson json, sound_ofElements elements⟩

theorem sound_ofMembers [DoubleBits N] :
    ∀ members : List (Bytes × Json N), ∀ m ∈ ofMembers members, Sound m.2
  | [] => fun _ hm ↦ absurd hm not_mem_nil
  | (_, json) :: members => forall_mem_cons.mpr ⟨sound_ofJson json, sound_ofMembers members⟩

end

/-! ## Following the pointers -/

/-- The computation goes through exactly if `P` holds, and finds a missing pointer otherwise. -/
def Follows {α : Type} (P : Prop) (r : Checked α) (Q : α → Prop) : Prop :=
  (P ∧ ∃ a, r = .ok a ∧ Q a) ∨ (¬P ∧ r = .error .badAccess)

namespace Follows

variable {α β γ : Type} {P P' : Prop} {r : Checked α} {r' : Checked β} {Q : α → Prop}
  {Q' : β → Prop} {R : γ → Prop}

theorem of_ok {a : α} (hP : P) (hQ : Q a) : Follows P (.ok a) Q := Or.inl ⟨hP, a, rfl, hQ⟩

theorem map (h : Follows P r Q) {f : α → γ} (hf : ∀ a, Q a → R (f a)) : Follows P (r.map f) R := by
  rcases h with ⟨hP, a, ha, hQ⟩ | ⟨hP, herr⟩
  · rw [ha]
    exact of_ok hP (hf a hQ)
  · rw [herr]
    exact Or.inr ⟨hP, rfl⟩

theorem pair (h : Follows P r Q) (h' : Follows P' r' Q') {f : α → β → γ}
    (hf : ∀ a b, Q a → Q' b → R (f a b)) :
    Follows (P ∧ P') (r >>= fun a ↦ r' >>= fun b ↦ pure (f a b)) R := by
  rcases h with ⟨hP, a, ha, hQ⟩ | ⟨hP, herr⟩
  · rw [bind_of_ok ha]
    rcases h' with ⟨hP', b, hb, hQ'⟩ | ⟨hP', herr⟩
    · rw [bind_of_ok hb]
      exact of_ok ⟨hP, hP'⟩ (hf a b hQ hQ')
    · rw [herr]
      exact Or.inr ⟨fun h ↦ hP' h.2, rfl⟩
  · rw [herr]
    exact Or.inr ⟨fun h ↦ hP h.1, rfl⟩

end Follows

theorem copyElements_cases {elements : List JsonCell}
    (ih : ∀ c ∈ elements, ∀ mem, Follows (Sound c) (copy mem c) Sound) (mem : List ℕ → UInt64)
    (i : ℕ) :
    Follows (∀ c ∈ elements, Sound c) (copyElements mem i elements) fun elements' ↦
      ∀ c ∈ elements', Sound c := by
  induction elements generalizing i with
  | nil => exact .of_ok (fun _ hc ↦ absurd hc not_mem_nil) fun _ hc ↦
      absurd hc not_mem_nil
  | cons c elements ihe =>
    obtain ⟨hc, helements⟩ := forall_mem_cons.mp ih
    rw [copyElements, forall_mem_cons]
    exact (hc _).pair (ihe helements (i + 1)) fun _ _ h h' ↦ forall_mem_cons.mpr ⟨h, h'⟩

theorem copyMembers_cases {members : List (Bytes × JsonCell)}
    (ih : ∀ m ∈ members, ∀ mem, Follows (Sound m.2) (copy mem m.2) Sound) (mem : List ℕ → UInt64)
    (i : ℕ) :
    Follows (∀ m ∈ members, Sound m.2) (copyMembers mem i members) fun members' ↦
      ∀ m ∈ members', Sound m.2 := by
  induction members generalizing i with
  | nil => exact .of_ok (fun _ hm ↦ absurd hm not_mem_nil) fun _ hm ↦
      absurd hm not_mem_nil
  | cons m members ihm =>
    obtain ⟨hm, hmembers⟩ := forall_mem_cons.mp ih
    rw [copyMembers, forall_mem_cons]
    exact (hm _).pair (ihm hmembers (i + 1)) fun _ _ h h' ↦ forall_mem_cons.mpr ⟨h, h'⟩

/-- **Copying.** A cell can be copied exactly if no pointer is missing in it, and then none is
missing in the copy. -/
theorem copy_cases (c : JsonCell) (mem : List ℕ → UInt64) :
    Follows (Sound c) (copy mem c) Sound := by
  induction c using induct generalizing mem with
  | plain type value =>
    rw [sound_plain_iff]
    cases type with
    | kString => exact Or.inr ⟨by decide, rfl⟩
    | kArray => exact Or.inr ⟨by decide, rfl⟩
    | kObject => exact Or.inr ⟨by decide, rfl⟩
    | _ => exact .of_ok rfl (.plain rfl)
  | string s => exact .of_ok (.string s) (.string s)
  | array elements ih =>
    rw [copy, sound_array_iff]
    exact (copyElements_cases ih mem 0).map fun _ h ↦ .array h
  | object members ih =>
    rw [copy, sound_object_iff]
    exact (copyMembers_cases ih mem 0).map fun _ h ↦ .object h

theorem readElements_cases [DoubleBits N] {elements : List JsonCell}
    (ih : ∀ c ∈ elements, Follows (Sound c) (read c : Checked (Json N)) fun _ ↦ True) :
    Follows (∀ c ∈ elements, Sound c) (readElements elements : Checked (List (Json N)))
      fun _ ↦ True := by
  induction elements with
  | nil => exact .of_ok (fun _ hc ↦ absurd hc not_mem_nil) trivial
  | cons c elements ihe =>
    obtain ⟨hc, helements⟩ := forall_mem_cons.mp ih
    rw [readElements, forall_mem_cons]
    exact hc.pair (ihe helements) fun _ _ _ _ ↦ trivial

theorem readMembers_cases [DoubleBits N] {members : List (Bytes × JsonCell)}
    (ih : ∀ m ∈ members, Follows (Sound m.2) (read m.2 : Checked (Json N)) fun _ ↦ True) :
    Follows (∀ m ∈ members, Sound m.2) (readMembers members : Checked (List (Bytes × Json N)))
      fun _ ↦ True := by
  induction members with
  | nil => exact .of_ok (fun _ hm ↦ absurd hm not_mem_nil) trivial
  | cons m members ihm =>
    obtain ⟨hm, hmembers⟩ := forall_mem_cons.mp ih
    rw [readMembers, forall_mem_cons]
    exact hm.pair (ihm hmembers) fun _ _ _ _ ↦ trivial

/-- A cell can be read exactly if no pointer is missing in it. -/
theorem read_cases [DoubleBits N] (c : JsonCell) :
    Follows (Sound c) (read c : Checked (Json N)) fun _ ↦ True := by
  induction c using induct with
  | plain type value =>
    rw [sound_plain_iff]
    cases type with
    | kString => exact Or.inr ⟨by decide, rfl⟩
    | kArray => exact Or.inr ⟨by decide, rfl⟩
    | kObject => exact Or.inr ⟨by decide, rfl⟩
    | _ => exact .of_ok rfl trivial
  | string s => exact .of_ok (.string s) trivial
  | array elements ih =>
    rw [read, sound_array_iff]
    exact (readElements_cases ih).map fun _ _ ↦ trivial
  | object members ih =>
    rw [read, sound_object_iff]
    exact (readMembers_cases ih).map fun _ _ ↦ trivial

/-! ## What a copy reads as -/

theorem readElements_copyElements [DoubleBits N] {elements : List JsonCell}
    (ih : ∀ c ∈ elements, ∀ mem c', copy mem c = .ok c' →
      (read c' : Checked (Json N)) = (read c).map (·.withBooleans fun p ↦ boolean (mem p)))
    {mem : List ℕ → UInt64} {i : ℕ} {elements' : List JsonCell}
    (h : copyElements mem i elements = .ok elements') :
    (readElements elements' : Checked (List (Json N))) =
      (readElements elements).map (Json.elementsWithBooleans (fun p ↦ boolean (mem p)) i) := by
  induction elements generalizing i elements' with
  | nil =>
    cases h
    rfl
  | cons c elements ihe =>
    obtain ⟨hc, helements⟩ := forall_mem_cons.mp ih
    obtain ⟨c', hcopy, h⟩ := bind_eq_ok.mp h
    obtain ⟨rest, hrest, h⟩ := bind_eq_ok.mp h
    cases h
    rw [readElements, readElements, hc _ _ hcopy, ihe helements hrest]
    cases (read c : Checked (Json N)) with
    | error e => rfl
    | ok json => cases (readElements elements : Checked (List (Json N))) <;> rfl

theorem readMembers_copyMembers [DoubleBits N] {members : List (Bytes × JsonCell)}
    (ih : ∀ m ∈ members, ∀ mem c', copy mem m.2 = .ok c' →
      (read c' : Checked (Json N)) = (read m.2).map (·.withBooleans fun p ↦ boolean (mem p)))
    {mem : List ℕ → UInt64} {i : ℕ} {members' : List (Bytes × JsonCell)}
    (h : copyMembers mem i members = .ok members') :
    (readMembers members' : Checked (List (Bytes × Json N))) =
      (readMembers members).map (Json.membersWithBooleans (fun p ↦ boolean (mem p)) i) := by
  induction members generalizing i members' with
  | nil =>
    cases h
    rfl
  | cons m members ihm =>
    obtain ⟨hm, hmembers⟩ := forall_mem_cons.mp ih
    obtain ⟨c', hcopy, h⟩ := bind_eq_ok.mp h
    obtain ⟨rest, hrest, h⟩ := bind_eq_ok.mp h
    cases h
    rw [readMembers, readMembers, hm _ _ hcopy, ihm hmembers hrest]
    cases (read m.2 : Checked (Json N)) with
    | error e => rfl
    | ok json => cases (readMembers members : Checked (List (Bytes × Json N))) <;> rfl

/-- **What a copy reads as.** Everything is the same but the booleans: they are what the memory of
the copy holds. -/
theorem read_copy [DoubleBits N] {c c' : JsonCell} {mem : List ℕ → UInt64}
    (h : copy mem c = .ok c') :
    (read c' : Checked (Json N)) = (read c).map (·.withBooleans fun p ↦ boolean (mem p)) := by
  induction c using induct generalizing mem c' with
  | plain type value =>
    cases type <;> cases h <;> rfl
  | string s =>
    cases h
    rfl
  | array elements ih =>
    rw [copy, map_eq_ok] at h
    obtain ⟨elements', helements, rfl⟩ := h
    rw [read, read, readElements_copyElements (fun c hc mem c' ↦ ih c hc) helements]
    cases (readElements elements : Checked (List (Json N))) <;> rfl
  | object members ih =>
    rw [copy, map_eq_ok] at h
    obtain ⟨members', hmembers, rfl⟩ := h
    rw [read, read, readMembers_copyMembers (fun m hm mem c' ↦ ih m hm) hmembers]
    cases (readMembers members : Checked (List (Bytes × Json N))) <;> rfl

end JsonCell

end Fishnet

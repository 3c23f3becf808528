import Fishnet.Json.Zjson

/-!
# JSON values as trees

What the round trip says about a value concerns the strings in it, at any depth, and the sizes of
its objects. `subvalues` lists the value and everything below it, and `strings` and `objectSizes`
are read off that list.

`Valid` describes the values that can be built from finite numbers and well-formed UTF-8. The
members of an object are in the order of their keys, as `std::map` keeps them.

`remap f` replaces every string and every key by its image under `f`. The members of an object are
put into a new map, where two keys with the same image collide.

## Main results

* `Json.remap_eq_self_iff`: if `f` does nothing the second time, a value is unchanged exactly if all
  its strings are.
-/

namespace Fishnet

open List

namespace Json

variable {N : Type}

/-! ## Induction -/

/-- What holds of a value whenever it holds of the values below it holds of all values. -/
theorem induct {motive : Json N → Prop} (null : motive .null) (boolean : ∀ b, motive (.boolean b))
    (number : ∀ n, motive (.number n)) (string : ∀ s, motive (.string s))
    (array : ∀ elements, (∀ json ∈ elements, motive json) → motive (.array elements))
    (object : ∀ members, (∀ m ∈ members, motive m.2) → motive (.object members)) :
    ∀ json, motive json :=
  @Json.rec N motive (fun elements ↦ ∀ json ∈ elements, motive json)
    (fun members ↦ ∀ m ∈ members, motive m.2) (fun m ↦ motive m.2)
    null boolean number string array object
    (fun _ hjson ↦ absurd hjson not_mem_nil)
    (fun _ _ hjson helements ↦ forall_mem_cons.mpr ⟨hjson, helements⟩)
    (fun _ hm ↦ absurd hm not_mem_nil)
    (fun _ _ hm hmembers ↦ forall_mem_cons.mpr ⟨hm, hmembers⟩)
    fun _ _ hjson ↦ hjson

/-! ## Subvalues -/

mutual

/-- The value and all values below it. -/
def subvalues : Json N → List (Json N)
  | .array elements => .array elements :: subvaluesOfElements elements
  | .object members => .object members :: subvaluesOfMembers members
  | json => [json]

def subvaluesOfElements : List (Json N) → List (Json N)
  | [] => []
  | json :: elements => subvalues json ++ subvaluesOfElements elements

def subvaluesOfMembers : List (Bytes × Json N) → List (Json N)
  | [] => []
  | (_, json) :: members => subvalues json ++ subvaluesOfMembers members

end

theorem subvaluesOfElements_eq (elements : List (Json N)) :
    subvaluesOfElements elements = elements.flatMap subvalues := by
  induction elements with
  | nil => rfl
  | cons json elements ih => rw [subvaluesOfElements, ih, flatMap_cons]

theorem subvaluesOfMembers_eq (members : List (Bytes × Json N)) :
    subvaluesOfMembers members = members.flatMap fun m ↦ subvalues m.2 := by
  induction members with
  | nil => rfl
  | cons m members ih => rw [subvaluesOfMembers, ih, flatMap_cons]

/-- The string, or the keys, of the value itself. -/
def ownStrings : Json N → List Bytes
  | .string s => [s]
  | .object members => members.map Prod.fst
  | _ => []

/-- The strings and the keys in a value. -/
def strings (json : Json N) : List Bytes := json.subvalues.flatMap ownStrings

/-- The number of members, if the value is an object. -/
def ownSize : Json N → List ℕ
  | .object members => [members.length]
  | _ => []

/-- The numbers of members of the objects in a value. -/
def objectSizes (json : Json N) : List ℕ := json.subvalues.flatMap ownSize

theorem strings_array (elements : List (Json N)) :
    (Json.array elements).strings = elements.flatMap strings := by
  rw [strings, subvalues, subvaluesOfElements_eq, flatMap_cons, flatMap_assoc]
  rfl

theorem strings_object (members : List (Bytes × Json N)) : (Json.object members).strings =
    members.map Prod.fst ++ members.flatMap fun m ↦ m.2.strings := by
  rw [strings, subvalues, subvaluesOfMembers_eq, flatMap_cons, flatMap_assoc]
  rfl

theorem objectSizes_array (elements : List (Json N)) :
    (Json.array elements).objectSizes = elements.flatMap objectSizes := by
  rw [objectSizes, subvalues, subvaluesOfElements_eq, flatMap_cons, flatMap_assoc]
  rfl

theorem objectSizes_object (members : List (Bytes × Json N)) : (Json.object members).objectSizes =
    members.length :: members.flatMap fun m ↦ m.2.objectSizes := by
  rw [objectSizes, subvalues, subvaluesOfMembers_eq, flatMap_cons, flatMap_assoc]
  rfl

/-! ## Valid values -/

/-- A value built from finite numbers and from strings and keys that are well-formed UTF-8. -/
inductive Valid (finite : N → Prop) : Json N → Prop
  | null : Valid finite .null
  | boolean (b : Bool) : Valid finite (.boolean b)
  | number {n : N} (h : finite n) : Valid finite (.number n)
  | string (cs : List Char) : Valid finite (.string (utf8 cs))
  | array {elements : List (Json N)} (h : ∀ json ∈ elements, Valid finite json) :
      Valid finite (.array elements)
  | object {members : List (Bytes × Json N)} (hsorted : OrderedMap.KeysSorted members)
      (hkeys : ∀ m ∈ members, ∃ cs, m.1 = utf8 cs) (h : ∀ m ∈ members, Valid finite m.2) :
      Valid finite (.object members)

theorem Valid.exists_utf8 {finite : N → Prop} {json : Json N} (hjson : Valid finite json) :
    ∀ s ∈ json.strings, ∃ cs, s = utf8 cs := by
  induction hjson with
  | null => exact fun s hs ↦ absurd hs not_mem_nil
  | boolean b => exact fun s hs ↦ absurd hs not_mem_nil
  | number h => exact fun s hs ↦ absurd hs not_mem_nil
  | string cs => exact fun s hs ↦ ⟨cs, mem_singleton.mp hs⟩
  | array h ih =>
    rw [strings_array, forall_mem_flatMap]
    exact ih
  | object hsorted hkeys h ih =>
    rw [strings_object, forall_mem_append, forall_mem_map, forall_mem_flatMap]
    exact ⟨hkeys, ih⟩

/-! ## Replacing the strings -/

mutual

/-- Replace every string and every key. -/
def remap (f : Bytes → Bytes) : Json N → Json N
  | .string s => .string (f s)
  | .array elements => .array (remapElements f elements)
  | .object members => .object (OrderedMap.ofList (remapMembers f members))
  | json => json

def remapElements (f : Bytes → Bytes) : List (Json N) → List (Json N)
  | [] => []
  | json :: elements => remap f json :: remapElements f elements

def remapMembers (f : Bytes → Bytes) : List (Bytes × Json N) → List (Bytes × Json N)
  | [] => []
  | (key, json) :: members => (f key, remap f json) :: remapMembers f members

end

section

variable (f : Bytes → Bytes)
include f

theorem remapElements_eq (elements : List (Json N)) :
    remapElements f elements = elements.map (remap f) := by
  induction elements with
  | nil => rfl
  | cons json elements ih => rw [remapElements, ih, map_cons]

theorem remapMembers_eq (members : List (Bytes × Json N)) :
    remapMembers f members = members.map fun m ↦ (f m.1, remap f m.2) := by
  induction members with
  | nil => rfl
  | cons m members ih => rw [remapMembers, ih, map_cons]

theorem remap_array (elements : List (Json N)) :
    (Json.array elements).remap f = .array (elements.map (remap f)) := by
  rw [remap, remapElements_eq]

theorem remap_object (members : List (Bytes × Json N)) :
    (Json.object members).remap f =
      .object (OrderedMap.ofList (members.map fun m ↦ (f m.1, m.2.remap f))) := by
  rw [remap, remapMembers_eq]

end

/-- **Unchanged values.** -/
theorem remap_eq_self_iff {finite : N → Prop} {f : Bytes → Bytes}
    (hf : ∀ cs, f (f (utf8 cs)) = f (utf8 cs)) {json : Json N} (hjson : Valid finite json) :
    json.remap f = json ↔ ∀ s ∈ json.strings, f s = s := by
  induction hjson with
  | null => exact ⟨fun _ s hs ↦ absurd hs not_mem_nil, fun _ ↦ rfl⟩
  | boolean b => exact ⟨fun _ s hs ↦ absurd hs not_mem_nil, fun _ ↦ rfl⟩
  | number h => exact ⟨fun _ s hs ↦ absurd hs not_mem_nil, fun _ ↦ rfl⟩
  | string cs =>
    have hstrings : (Json.string (utf8 cs) : Json N).strings = [utf8 cs] := rfl
    rw [remap, Json.string.injEq, hstrings, forall_mem_singleton]
  | @array elements h ih =>
    rw [remap_array, Json.array.injEq, strings_array, forall_mem_flatMap]
    calc elements.map (remap f) = elements
        ↔ ∀ json ∈ elements, json.remap f = json := by
          conv_lhs => rw [← map_id elements]
          rw [map_map, map_inj_left]
          rfl
      _ ↔ _ := forall₂_congr ih
  | @object members hsorted hkeys h ih =>
    have hidem : ∀ m ∈ members, f (f m.1) = f m.1 := by
      intro m hm
      obtain ⟨cs, hcs⟩ := hkeys m hm
      rw [hcs, hf]
    rw [remap_object, Json.object.injEq, OrderedMap.ofList_map_eq_self_iff hsorted hidem,
      strings_object, forall_mem_append, forall_mem_map, forall_mem_flatMap]
    rw [← forall₂_congr ih]
    exact forall₂_and

end Json

end Fishnet

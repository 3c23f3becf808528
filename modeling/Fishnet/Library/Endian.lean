import Mathlib.Data.Nat.Digits.Lemmas
import Mathlib.Tactic

/-!
# Byte orders

The object representation of an `n`-byte unsigned integer on a little-endian host is the list of its
base-`256` digits, lowest first, padded to length `n`. Reading an object back is `Nat.ofDigits`, so
the theory of digits does most of the work; what is added is the fixed length.

`byteSwap` is defined through the representation: read the reversed bytes. That is what `htobe` and
`betoh` compute, and it makes the big-endian encoding of a number the little-endian representation
of its byte swap, `leBytes_byteSwap`.
-/

open List

/-- The object representation of `x` in `n` bytes on a little-endian host. -/
def leBytes (n x : ℕ) : List UInt8 :=
  (List.range n).map fun i ↦ UInt8.ofNat (x / 256 ^ i)

/-- The big-endian encoding of `x` in `n` bytes. -/
def beBytes (n x : ℕ) : List UInt8 := (leBytes n x).reverse

/-- The number with the given object representation. -/
def ofLeBytes (l : List UInt8) : ℕ := Nat.ofDigits 256 (l.map UInt8.toNat)

/-- Reverse the `n` bytes of `x`. -/
def byteSwap (n x : ℕ) : ℕ := ofLeBytes (beBytes n x)

@[simp] theorem length_leBytes (n x : ℕ) : (leBytes n x).length = n := by
  rw [leBytes, length_map, length_range]

@[simp] theorem length_beBytes (n x : ℕ) : (beBytes n x).length = n := by
  rw [beBytes, length_reverse, length_leBytes]

theorem leBytes_succ (n x : ℕ) : leBytes (n + 1) x = UInt8.ofNat x :: leBytes n (x / 256) := by
  rw [leBytes, range_succ_eq_map, map_cons, map_map, pow_zero, Nat.div_one]
  congr 1
  apply map_congr_left
  intro i _
  simp only [Function.comp_apply]
  rw [Nat.div_div_eq_div_mul, pow_succ']

@[simp] theorem ofLeBytes_cons (a : UInt8) (l : List UInt8) :
    ofLeBytes (a :: l) = a.toNat + 256 * ofLeBytes l := by
  rw [ofLeBytes, map_cons, Nat.ofDigits_cons]
  rfl

theorem ofLeBytes_lt (l : List UInt8) : ofLeBytes l < 256 ^ l.length := by
  have h := Nat.ofDigits_lt_base_pow_length (b := 256) (l := l.map UInt8.toNat) (by norm_num)
    (fun d hd ↦ by
      obtain ⟨a, -, rfl⟩ := mem_map.mp hd
      exact a.toNat_lt)
  rwa [length_map] at h

/-- Reading a representation back loses exactly what did not fit. -/
theorem ofLeBytes_leBytes (n x : ℕ) : ofLeBytes (leBytes n x) = x % 256 ^ n := by
  induction n generalizing x with
  | zero => simp [leBytes, ofLeBytes, Nat.mod_one]
  | succ n ih =>
    rw [leBytes_succ, ofLeBytes_cons, ih, UInt8.toNat_ofNat', pow_succ' 256 n, Nat.mod_mul]

theorem leBytes_ofLeBytes (l : List UInt8) : leBytes l.length (ofLeBytes l) = l := by
  induction l with
  | nil => rfl
  | cons a l ih =>
    have ha : a.toNat < 256 := a.toNat_lt
    rw [length_cons, leBytes_succ, ofLeBytes_cons]
    congr 1
    · apply UInt8.toNat_inj.mp
      rw [UInt8.toNat_ofNat']
      omega
    · rw [show (a.toNat + 256 * ofLeBytes l) / 256 = ofLeBytes l from by omega, ih]

theorem byteSwap_lt (n x : ℕ) : byteSwap n x < 256 ^ n := by
  have h := ofLeBytes_lt (beBytes n x)
  rwa [length_beBytes] at h

/-- Storing the byte swap of `x` writes the big-endian encoding of `x`. -/
theorem leBytes_byteSwap (n x : ℕ) : leBytes n (byteSwap n x) = beBytes n x := by
  have h := leBytes_ofLeBytes (beBytes n x)
  rwa [length_beBytes] at h

/-- Loading a big-endian encoding and swapping gives the number encoded. -/
theorem byteSwap_ofLeBytes_beBytes (n x : ℕ) :
    byteSwap n (ofLeBytes (beBytes n x)) = x % 256 ^ n := by
  have h := leBytes_byteSwap n x
  rw [byteSwap] at h
  rw [byteSwap, beBytes, h, beBytes, reverse_reverse, ofLeBytes_leBytes]

theorem beBytes_inj {n x y : ℕ} (hx : x < 256 ^ n) (hy : y < 256 ^ n) :
    beBytes n x = beBytes n y ↔ x = y := by
  rw [beBytes, beBytes, reverse_inj]
  constructor
  · intro h
    have hread := congrArg ofLeBytes h
    rwa [ofLeBytes_leBytes, ofLeBytes_leBytes, Nat.mod_eq_of_lt hx, Nat.mod_eq_of_lt hy] at hread
  · rintro rfl
    rfl

theorem leBytes_add_of_lt {m n x : ℕ} (h : x < 256 ^ m) :
    leBytes (m + n) x = leBytes m x ++ List.replicate n 0 := by
  rw [leBytes, range_add, map_append, map_map]
  congr 1
  rw [eq_replicate_iff, length_map, length_range]
  refine ⟨rfl, fun a ha ↦ ?_⟩
  obtain ⟨i, -, rfl⟩ := mem_map.mp ha
  simp only [Function.comp_apply]
  rw [Nat.div_eq_of_lt (h.trans_le (Nat.pow_le_pow_right (by norm_num) (Nat.le_add_right m i)))]
  rfl

@[simp] theorem leBytes_zero (n : ℕ) : leBytes n 0 = List.replicate n 0 := by
  rw [eq_replicate_iff, length_leBytes]
  refine ⟨rfl, fun a ha ↦ ?_⟩
  obtain ⟨i, -, rfl⟩ := mem_map.mp ha
  rw [Nat.zero_div]
  rfl

theorem eq_zero_of_leBytes {n x : ℕ} (hx : x < 256 ^ n) (h : ∀ a ∈ leBytes n x, a = 0) : x = 0 := by
  have hrep : leBytes n x = leBytes n 0 := by
    rw [eq_replicate_of_mem h, length_leBytes, leBytes_zero]
  have hx' := ofLeBytes_leBytes n x
  rw [hrep, ofLeBytes_leBytes, Nat.zero_mod, Nat.mod_eq_of_lt hx] at hx'
  exact hx'.symm

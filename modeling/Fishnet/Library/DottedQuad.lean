import Mathlib.Tactic

/-!
# Dotted decimal notation

An IPv4 address is written as its four bytes in decimal notation, with dots in between. There are no
leading zeros, so every address has one text, and `inet_pton` accepts these texts only; it is the
inverse of `inet_ntop`. What is used of the texts is that they are short and have no colon.
-/

open List

/-- The bytes in decimal notation, with dots in between: `inet_ntop`. -/
def dotted (q : List UInt8) : List Char :=
  ['.'].intercalate (q.map fun b ↦ Nat.toDigits 10 b.toNat)

/-- The four bytes that have the given text: `inet_pton`. -/
def parseDotted (t : List Char) : Option (List UInt8) :=
  let q := (t.splitOn '.').map fun part ↦ UInt8.ofNat (Nat.ofDigitChars 10 part 0)
  if q.length = 4 ∧ dotted q = t then some q else none

theorem notMem_toDigits {c : Char} (hc : c.isDigit = false) (n : ℕ) : c ∉ Nat.toDigits 10 n := by
  intro h
  rw [Nat.isDigit_of_mem_toDigits (by norm_num) (by norm_num) h] at hc
  cases hc

variable {q q' : List UInt8} {t : List Char}

theorem splitOn_dotted (h : q ≠ []) :
    (dotted q).splitOn '.' = q.map fun b ↦ Nat.toDigits 10 b.toNat := by
  refine splitOn_intercalate '.' (fun part hpart ↦ ?_) (by simpa using h)
  obtain ⟨b, -, rfl⟩ := mem_map.1 hpart
  exact notMem_toDigits (by decide) _

theorem map_ofDigitChars_dotted (h : q ≠ []) : ((dotted q).splitOn '.').map
    (fun part ↦ UInt8.ofNat (Nat.ofDigitChars 10 part 0)) = q := by
  rw [splitOn_dotted h, map_map]
  have hid : (fun part ↦ UInt8.ofNat (Nat.ofDigitChars 10 part 0)) ∘
      (fun b : UInt8 ↦ Nat.toDigits 10 b.toNat) = id := by
    funext b
    simp [Nat.ofDigitChars_ten_toDigits]
  rw [hid, map_id]

theorem parseDotted_dotted (h : q.length = 4) : parseDotted (dotted q) = some q := by
  have hne : q ≠ [] := by
    rintro rfl
    cases h
  rw [parseDotted, map_ofDigitChars_dotted hne]
  exact if_pos ⟨h, rfl⟩

theorem dotted_of_parseDotted (h : parseDotted t = some q) : q.length = 4 ∧ dotted q = t := by
  simp only [parseDotted] at h
  split_ifs at h with hq
  rw [← Option.some.inj h]
  exact hq

theorem dotted_inj (h : q.length = 4) (h' : q'.length = 4) : dotted q = dotted q' ↔ q = q' := by
  constructor
  · intro heq
    have hparse := parseDotted_dotted h
    rw [heq, parseDotted_dotted h', Option.some.injEq] at hparse
    exact hparse.symm
  · rintro rfl
    rfl

theorem dotted_cons_cons (a b : UInt8) (q : List UInt8) :
    dotted (a :: b :: q) = Nat.toDigits 10 a.toNat ++ '.' :: dotted (b :: q) := by
  simp [dotted, List.intercalate]

theorem dotted_singleton (a : UInt8) : dotted [a] = Nat.toDigits 10 a.toNat := by
  simp [dotted, List.intercalate]

theorem notMem_dotted {c : Char} (hc : c.isDigit = false) (hdot : c ≠ '.') : c ∉ dotted q := by
  induction q with
  | nil => simp [dotted]
  | cons a q ih =>
    cases q with
    | nil =>
      rw [dotted_singleton]
      exact notMem_toDigits hc _
    | cons b q =>
      rw [dotted_cons_cons, mem_append, mem_cons]
      rintro (h | h | h)
      · exact notMem_toDigits hc _ h
      · exact hdot h
      · exact ih h

theorem length_toDigits_byte (a : UInt8) : (Nat.toDigits 10 a.toNat).length ≤ 3 := by
  rw [Nat.length_toDigits_le_iff (by norm_num) (by norm_num)]
  exact a.toNat_lt.trans (by norm_num)

theorem length_dotted_le : (dotted q).length ≤ 4 * q.length := by
  induction q with
  | nil => simp [dotted]
  | cons a q ih =>
    have ha := length_toDigits_byte a
    cases q with
    | nil =>
      rw [dotted_singleton]
      exact ha.trans (by norm_num)
    | cons b q =>
      rw [dotted_cons_cons, length_append, length_cons]
      simp only [length_cons] at ih ⊢
      omega

import Fishnet.Library.ArrayWrite
import Fishnet.Library.MachineInt

/-!
# Integers as text

`convert` and `convertHex` write an integer into a character array of the caller. The loop writes
the last digit first; the sign follows the digits, and `std::reverse` puts all of it in order. A
negative number is never negated, since the most negative one has no negative: its remainders are
negative too, and they index a table that is mirrored at its middle.

The texts themselves, `decimalText` and `hexText`, are those of `Nat.toDigits`.

## Main results

* `convertLoop_eq`: the digits the loop leaves, for both radices.
* `convert_eq`, `convertHex_eq`: what is left in the array, and the length returned.
-/

namespace Fishnet

open List

/-! ## The model -/

/-- A character of the basic character set as a `char`. -/
def byteOf (c : Char) : UInt8 := UInt8.ofNat c.toNat

/-- The characters of a string literal, without the terminator. -/
def literal (s : String) : Bytes := s.toList.map byteOf

namespace IntegerText

def digits : Bytes := literal "9876543210123456789"

def digitsHex : Bytes := literal "0123456789ABCDEF"

/-- `table[i]`. -/
def entry (table : Bytes) (i : ℤ) : Checked UInt8 :=
  if i < 0 then .error .badAccess
  else match table[i.toNat]? with
    | some c => .ok c
    | none => .error .badAccess

/-- `zero[lsd]`, where `zero` points at the middle of `digits`. -/
def zero (lsd : ℤ) : Checked UInt8 := entry digits (9 + lsd)

/-- `int`. -/
def int : IntType := ⟨32, true⟩

/-- The `do` loop. A round divides by the radix, so there are at most as many rounds as the type has
bits. -/
def convertLoop (T : IntType) (radix : ℤ) (digit : ℤ → Checked UInt8) :
    ℕ → Bytes → ℕ → ℤ → Checked (Bytes × ℕ)
  | 0, mem, p, _ => .ok (mem, p)
  | fuel + 1, mem, p, i => do
    let remainder ← T.fit (i.tmod radix)
    let lsd ← int.fit remainder
    let i ← T.fit (i.tdiv radix)
    let c ← digit lsd
    let mem ← store mem p [c]
    if i ≠ 0 then convertLoop T radix digit fuel mem (p + 1) i else .ok (mem, p + 1)

/-- What follows the digits: the terminator, the reversal and the length. -/
def finish (mem : Bytes) (buf p : ℕ) : Checked (Bytes × ℕ) := do
  let mem ← store mem p [0]
  .ok (reverseRange mem buf p, p - buf)

/-- `convert<T>(buf, value)`: the array and the length returned. -/
def convert (T : IntType) (mem : Bytes) (buf : ℕ) (value : ℤ) :
    Checked (Bytes × ℕ) := do
  let (mem, p) ← convertLoop T 10 zero T.bits mem buf value
  if value < 0 then
    let mem ← store mem p [byteOf '-']
    finish mem buf (p + 1)
  else
    finish mem buf p

/-- `uintptr_t`. -/
def uintptr : IntType := ⟨64, false⟩

/-- `convertHex(buf, value)`. -/
def convertHex (mem : Bytes) (buf : ℕ) (value : BitVec 64) :
    Checked (Bytes × ℕ) := do
  let (mem, p) ← convertLoop uintptr 16 (entry digitsHex) uintptr.bits mem buf value.toNat
  finish mem buf p

/-! ## The texts -/

/-- The decimal representation: a sign if the number is negative, and the digits. -/
def decimalText (v : ℤ) : Bytes :=
  (if v < 0 then [byteOf '-'] else []) ++ (Nat.toDigits 10 v.natAbs).map byteOf

/-- A hexadecimal digit in upper case. -/
def upper (c : Char) : UInt8 := byteOf c.toUpper

/-- The hexadecimal representation in upper case. -/
def hexText (v : ℕ) : Bytes := (Nat.toDigits 16 v).map upper

/-- No zero stands in front of other digits. -/
def NoLeadingZero (text : Bytes) : Prop :=
  text.head? = some (byteOf '0') → text = [byteOf '0']

/-- The text of a positive number starts with a positive digit. -/
theorem head_toDigits {b n : ℕ} (hb : 1 < b) (hn : 0 < n) :
    ∃ d, 0 < d ∧ d < b ∧ (Nat.toDigits b n).head? = some (Nat.digitChar d) := by
  induction n using Nat.strongRecOn with
  | _ n ih =>
    rw [Nat.toDigits_eq_if hb]
    split_ifs with hlt
    · exact ⟨n, hn, hlt, rfl⟩
    · obtain ⟨d, hpos, hd, hhead⟩ := ih (n / b) (Nat.div_lt_self hn hb)
        (Nat.div_pos (not_lt.1 hlt) (by omega))
      refine ⟨d, hpos, hd, ?_⟩
      rw [head?_append, hhead, Option.some_or]

theorem noLeadingZero_toDigits {b : ℕ} (hb : 1 < b) {glyph : Char → UInt8}
    (h0 : glyph '0' = byteOf '0')
    (hglyph : ∀ d < b, 0 < d → glyph (Nat.digitChar d) ≠ byteOf '0') (n : ℕ) :
    NoLeadingZero ((Nat.toDigits b n).map glyph) := by
  intro hhead
  rcases Nat.eq_zero_or_pos n with rfl | hn
  · rw [Nat.toDigits_zero, map_singleton, h0]
  · obtain ⟨d, hpos, hd, heq⟩ := head_toDigits hb hn
    rw [head?_map, heq] at hhead
    exact absurd (Option.some.inj hhead) (hglyph d hd hpos)

/-! ## One round -/

/-- The mirrored table has the digit of a remainder at either side of its middle. -/
theorem zero_eq {r : ℤ} (h : r.natAbs < 10) : zero r = .ok (byteOf (Nat.digitChar r.natAbs)) := by
  obtain ⟨hlow, hhigh⟩ : -9 ≤ r ∧ r ≤ 9 := by omega
  interval_cases r <;> rfl

theorem entry_digitsHex {r : ℤ} (h0 : 0 ≤ r) (h : r.natAbs < 16) :
    entry digitsHex r = .ok (upper (Nat.digitChar r.natAbs)) := by
  obtain ⟨hlow, hhigh⟩ : 0 ≤ r ∧ r ≤ 15 := by omega
  interval_cases r <;> rfl

theorem int_fit {x : ℤ} (h : x.natAbs < 100) : int.fit x = .ok x := by
  refine IntType.fit_of_holds (CInt.fits32.2 ?_)
  omega

section Loop

variable {T : IntType} {b : ℕ} {digit : ℤ → Checked UInt8} {glyph : Char → UInt8}
  {mem : Bytes} {p fuel : ℕ} {i : ℤ} (hb : 1 < b) (hb' : b ≤ 100)
  (hdigit : ∀ r, T.Holds r → r.natAbs < b → digit r = .ok (glyph (Nat.digitChar r.natAbs)))
  (hi : T.Holds i)
include hb hb' hdigit hi

/-- **One round.** The last digit is written, and the loop goes on with the others. -/
theorem convertLoop_succ (hp : p < mem.length) :
    convertLoop T b digit (fuel + 1) mem p i =
      let mem' := writeAt mem p [glyph (Nat.digitChar (i.natAbs % b))]
      if i.natAbs < b then .ok (mem', p + 1)
      else convertLoop T b digit fuel mem' (p + 1) (i.tdiv b) := by
  have hmod : (i.tmod b).natAbs = i.natAbs % b := by rw [Int.natAbs_tmod, Int.natAbs_natCast]
  have hlt : (i.tmod b).natAbs < b := by
    rw [hmod]
    exact Nat.mod_lt _ (by omega)
  have hglyph : digit (i.tmod b) = .ok (glyph (Nat.digitChar (i.natAbs % b))) := by
    rw [hdigit _ (hi.tmod _) hlt, hmod]
  have hstop : i.tdiv b ≠ 0 ↔ ¬i.natAbs < b := by
    rw [← Int.natAbs_ne_zero, Int.natAbs_tdiv, Int.natAbs_natCast]
    exact (Nat.div_eq_zero_iff_lt (by omega)).not
  rw [convertLoop, IntType.fit_of_holds (hi.tmod _), ok_bind, int_fit (by omega),
    ok_bind, IntType.fit_of_holds (hi.tdiv (by omega)), ok_bind, hglyph,
    ok_bind, store_of_le (by simpa using hp), ok_bind]
  simp only [hstop, ite_not]

theorem convertLoop_last (hlt : i.natAbs < b)
    (hroom : p + (Nat.toDigits b i.natAbs).length ≤ mem.length) :
    convertLoop T b digit (fuel + 1) mem p i =
      .ok (writeAt mem p ((Nat.toDigits b i.natAbs).map glyph).reverse,
        p + (Nat.toDigits b i.natAbs).length) := by
  rw [Nat.toDigits_of_lt_base hlt] at hroom ⊢
  rw [convertLoop_succ hb hb' hdigit hi (by simpa using hroom), if_pos hlt, Nat.mod_eq_of_lt hlt]
  rfl

/-- **The digits of the loop.** They stand in the array last digit first. -/
theorem convertLoop_eq (hfuel : i.natAbs < b ^ (fuel + 1))
    (hroom : p + (Nat.toDigits b i.natAbs).length ≤ mem.length) :
    convertLoop T b digit (fuel + 1) mem p i =
      .ok (writeAt mem p ((Nat.toDigits b i.natAbs).map glyph).reverse,
        p + (Nat.toDigits b i.natAbs).length) := by
  induction fuel generalizing i mem p with
  | zero => exact convertLoop_last hb hb' hdigit hi (by rwa [pow_one] at hfuel) hroom
  | succ fuel ih =>
    by_cases hlt : i.natAbs < b
    · exact convertLoop_last hb hb' hdigit hi hlt hroom
    · -- the text is that of the quotient, followed by the last digit
      have hdiv : (i.tdiv b).natAbs = i.natAbs / b := by
        rw [Int.natAbs_tdiv, Int.natAbs_natCast]
        rfl
      have htext := Nat.toDigits_eq_if hb (n := i.natAbs)
      rw [if_neg hlt, ← hdiv] at htext
      set c := glyph (Nat.digitChar (i.natAbs % b)) with hc
      set front := Nat.toDigits b (i.tdiv b).natAbs with hfront
      rw [htext, length_append, length_singleton] at hroom
      have hquot : (i.tdiv b).natAbs < b ^ (fuel + 1) := by
        rw [hdiv]
        exact Nat.div_lt_of_lt_mul (by rwa [← pow_succ'])
      have hlen : (writeAt mem p [c]).length = mem.length :=
        length_writeAt (by rw [length_singleton]; omega)
      have hwrite : writeAt (writeAt mem p [c]) (p + 1) (front.map glyph).reverse =
          writeAt mem p ([c] ++ (front.map glyph).reverse) := by
        refine writeAt_writeAt_append (d := [c]) ?_
        rw [length_append, length_singleton, length_reverse, length_map]
        omega
      have hrest := @ih (writeAt mem p [c]) (p + 1) (i.tdiv b) (hi.tdiv (by omega)) hquot
        (by rw [hlen, ← hfront]; omega)
      rw [convertLoop_succ hb hb' hdigit hi (by omega), if_neg hlt, ← hc, hrest, ← hfront, hwrite,
        htext, map_append, reverse_append, length_append, length_singleton,
        Nat.add_assoc, Nat.add_comm 1]
      rfl

end Loop

/-! ## The whole conversion -/

theorem finish_eq {mem : Bytes} {buf : ℕ} (text : Bytes)
    (hroom : buf + text.length < mem.length) :
    finish (writeAt mem buf text.reverse) buf (buf + text.length) =
      .ok (writeAt mem buf (text ++ [0]), text.length) := by
  have hlen : buf + (text.reverse ++ [0]).length ≤ mem.length := by
    rw [length_append, length_reverse, length_singleton]
    omega
  have hrange := reverseRange_writeAt hlen
  have hstore := store_writeAt hlen
  rw [length_reverse] at hrange hstore
  rw [finish, hstore, ok_bind, hrange, reverse_reverse, Nat.add_sub_cancel_left]

theorem length_decimalText (v : ℤ) :
    (decimalText v).length = (if v < 0 then 1 else 0) + (Nat.toDigits 10 v.natAbs).length := by
  rw [decimalText, length_append, length_map]
  split_ifs <;> rfl

/-- A value of an integer type is smaller than a power of two. -/
theorem natAbs_le_of_holds {T : IntType} {v : ℤ} (h : T.Holds v) : v.natAbs ≤ 2 ^ T.bits := by
  have hpow : (2 : ℤ) ^ (T.bits - 1) ≤ 2 ^ T.bits := pow_le_pow_right₀ (by norm_num) (by omega)
  have hcast : ((2 ^ T.bits : ℕ) : ℤ) = 2 ^ T.bits := by push_cast; rfl
  unfold IntType.Holds CInt.Fits at h
  split_ifs at h <;> omega

theorem length_decimalText_le {T : IntType} (hT : T.bits = 32 ∨ T.bits = 64) {v : ℤ}
    (h : T.Holds v) : (decimalText v).length ≤ 20 := by
  have hlong : v.natAbs < 10 ^ 20 := by
    refine (natAbs_le_of_holds h).trans_lt ?_
    rcases hT with hT | hT <;> rw [hT] <;> norm_num
  have hneg : v < 0 → v.natAbs < 10 ^ 19 := by
    intro hlt
    unfold IntType.Holds CInt.Fits at h
    rcases hT with hT | hT <;> rw [hT] at h <;> split_ifs at h <;> norm_num at h <;> omega
  rw [length_decimalText]
  split_ifs with hlt
  · have := (Nat.length_toDigits_le_iff (b := 10) (by norm_num) (by norm_num)).2 (hneg hlt)
    omega
  · have := (Nat.length_toDigits_le_iff (b := 10) (by norm_num) (by norm_num)).2 hlong
    omega

section Whole

variable {T : IntType} {v : ℤ} (mem : Bytes) (buf : ℕ)

theorem convertLoop_ten (hT : 0 < T.bits) (h : T.Holds v)
    (hroom : buf + ((Nat.toDigits 10 v.natAbs).map byteOf).length ≤ mem.length) :
    convertLoop T 10 zero T.bits mem buf v =
      .ok (writeAt mem buf ((Nat.toDigits 10 v.natAbs).map byteOf).reverse,
        buf + ((Nat.toDigits 10 v.natAbs).map byteOf).length) := by
  obtain ⟨fuel, hfuel⟩ : ∃ fuel, T.bits = fuel + 1 := ⟨T.bits - 1, by omega⟩
  have hlt : v.natAbs < 10 ^ (fuel + 1) := by
    rw [← hfuel]
    exact (natAbs_le_of_holds h).trans_lt (Nat.pow_lt_pow_left (by norm_num) (by omega))
  rw [length_map] at hroom ⊢
  rw [hfuel]
  exact convertLoop_eq (by norm_num) (by norm_num) (fun r _ hr ↦ zero_eq hr) h hlt hroom

/-- **`convert`.** The text and its terminator are written at `buf`, and nothing else. -/
theorem convert_eq (hT : 0 < T.bits) (h : T.Holds v)
    (hroom : buf + (decimalText v).length < mem.length) :
    convert T mem buf v = .ok (writeAt mem buf (decimalText v ++ [0]), (decimalText v).length) := by
  have hlen : ((Nat.toDigits 10 v.natAbs).map byteOf).length ≤ (decimalText v).length := by
    rw [decimalText, length_append]
    omega
  refine (bind_of_ok (convertLoop_ten mem buf hT h (by omega)) _).trans ?_
  rw [decimalText] at hroom ⊢
  by_cases hneg : v < 0
  · -- the sign is written behind the digits, and the reversal puts it in front
    rw [if_pos hneg, singleton_append] at *
    rw [← finish_eq _ hroom, reverse_cons]
    refine (if_pos hneg).trans (bind_of_ok ?_ _)
    have hstore := store_writeAt (m := mem) (i := buf)
      (d := ((Nat.toDigits 10 v.natAbs).map byteOf).reverse) (e := [byteOf '-'])
      (by rw [← reverse_cons, length_reverse]; exact hroom.le)
    rwa [length_reverse] at hstore
  · rw [if_neg hneg, nil_append] at *
    rw [← finish_eq _ hroom]
    exact if_neg hneg

/-- **`convertHex`.** -/
theorem convertHex_eq (w : BitVec 64) (hroom : buf + (hexText w.toNat).length < mem.length) :
    convertHex mem buf w =
      .ok (writeAt mem buf (hexText w.toNat ++ [0]), (hexText w.toNat).length) := by
  have hw := w.isLt
  have hholds : uintptr.Holds w.toNat := by
    refine ⟨by omega, ?_⟩
    exact_mod_cast hw
  have hlt : (w.toNat : ℤ).natAbs < 16 ^ (63 + 1) := by
    rw [Int.natAbs_natCast]
    exact hw.trans (by norm_num)
  have hlen : (Nat.toDigits 16 w.toNat).length = (hexText w.toNat).length := by
    rw [hexText, length_map]
  have hloop := convertLoop_eq (T := uintptr) (by norm_num) (by norm_num)
    (fun r hr hr' ↦ entry_digitsHex hr.1 hr') hholds hlt
    (show buf + _ ≤ mem.length by rw [Int.natAbs_natCast, hlen]; omega)
  rw [Int.natAbs_natCast, hlen] at hloop
  rw [← finish_eq _ hroom]
  exact bind_of_ok hloop _

theorem length_hexText_le (w : BitVec 64) : (hexText w.toNat).length ≤ 16 := by
  rw [hexText, length_map]
  exact (Nat.length_toDigits_le_iff (by norm_num) (by norm_num)).2 (w.isLt.trans_eq (by norm_num))

/-- **Integers are written exactly.** For every value of a signed or unsigned type of 32 or 64 bits
the decimal representation and a terminator are written: a sign exactly if the value is negative,
digits without a leading zero, at most twenty characters. For every `uintptr_t` the hexadecimal
representation is written, at most sixteen characters. No table is left and nothing overflows, since
each would be a fault. -/
theorem convert_exact (hT : T.bits = 32 ∨ T.bits = 64) (hv : T.Holds v) (w : BitVec 64)
    (hroom : buf + (decimalText v).length < mem.length)
    (hhex : buf + (hexText w.toNat).length < mem.length) :
    (convert T mem buf v =
        .ok (writeAt mem buf (decimalText v ++ [0]), (decimalText v).length) ∧
      (decimalText v).length ≤ 20 ∧
      ∃ ds, decimalText v = (if v < 0 then [byteOf '-'] else []) ++ ds ∧
        ds = (Nat.toDigits 10 v.natAbs).map byteOf ∧ NoLeadingZero ds) ∧
    (convertHex mem buf w =
        .ok (writeAt mem buf (hexText w.toNat ++ [0]), (hexText w.toNat).length) ∧
      (hexText w.toNat).length ≤ 16 ∧ NoLeadingZero (hexText w.toNat)) := by
  have hten : ∀ d < 10, 0 < d → byteOf (Nat.digitChar d) ≠ byteOf '0' := by decide
  have hsixteen : ∀ d < 16, 0 < d → upper (Nat.digitChar d) ≠ byteOf '0' := by decide
  refine ⟨⟨convert_eq mem buf (by omega) hv hroom, length_decimalText_le hT hv, _, rfl, rfl, ?_⟩,
    convertHex_eq mem buf w hhex, length_hexText_le w, ?_⟩
  · exact noLeadingZero_toDigits (b := 10) (by norm_num) rfl hten _
  · exact noLeadingZero_toDigits (b := 16) (by norm_num) (show upper '0' = _ from rfl) hsixteen _

/-- The most negative number of 64 bits, and the largest pointer. -/
theorem convert_exact_min :
    convert ⟨64, true⟩ (List.replicate 21 0) 0 (-9223372036854775808) =
      .ok (literal "-9223372036854775808" ++ [0], 20) ∧
    convertHex (List.replicate 21 0) 0 (BitVec.ofNat 64 18446744073709551615) =
      .ok (literal "FFFFFFFFFFFFFFFF" ++ [0, 0, 0, 0, 0], 16) := by
  have h := convert_exact (T := ⟨64, true⟩) (v := -9223372036854775808) (List.replicate 21 0) 0
    (Or.inr rfl) (by decide) (BitVec.ofNat 64 18446744073709551615) (by decide +kernel)
    (by decide +kernel)
  refine ⟨h.1.1.trans ?_, h.2.1.trans ?_⟩
  · decide +kernel
  · decide +kernel

end Whole

end IntegerText

end Fishnet

import Fishnet.Json.ParseSafe

/-!
# What is read to print a string

The loop of `stringify_string_raw` goes through the string by rounds. A round takes one byte, or,
where `stringify_utf8` is called, as many as the first of them announces. The loop does not compare
that number with what is left of the string.

## The bytes that are missing

Going through the string by rounds, the last of them may come to the end before it has all of its
bytes. `missing` is the number of bytes that are not there. The first of them is the terminator,
which may be read. With two or three, the round reads behind it. The position after the last round
is the length of the string and this number, and has to fit an `int`.

The rounds follow each other without a gap, so that every byte is taken by exactly one of them.

## Main results

* `Json.printsInside_iff`: the strings whose printing stays inside.
-/

namespace Fishnet

open List

namespace Json

/-! ## The rounds -/

/-- A round of the loop: the `count` bytes from `pos` on that it reads, and what it pushes. -/
structure PrintRound where
  pos : ℕ
  count : ℕ
  text : Bytes
  deriving DecidableEq, Repr

/-- The round reads the byte at index `i`. -/
def PrintRound.Takes (r : PrintRound) (i : ℕ) : Prop := r.pos ≤ i ∧ i < r.pos + r.count

instance (r : PrintRound) (i : ℕ) : Decidable (r.Takes i) := inferInstanceAs (Decidable (_ ∧ _))

/-- The rounds of the loop of `stringify_string_raw`. -/
def printRounds (str : Bytes) (len : ℤ) : ℕ → ℕ → Checked (List PrintRound)
  | 0, _ => .ok []
  | fuel + 1, pos =>
    if (pos : ℤ) < len then do
      let r ← stringifyChar (str.drop pos)
      let next ← addInt pos r.2
      let rest ← printRounds str len fuel next
      return ⟨pos, r.2, r.1⟩ :: rest
    else .ok []

variable {str s t : Bytes} {len : ℤ} {fuel pos last i : ℕ} {c : UInt8} {r : PrintRound}
  {rs : List PrintRound}

/-- The loop pushes what its rounds push. -/
theorem stringifyChars_eq_rounds (str : Bytes) (len : ℤ) (fuel pos : ℕ) :
    stringifyChars str len fuel pos =
      (printRounds str len fuel pos).map fun rs ↦ rs.flatMap PrintRound.text := by
  induction fuel generalizing pos with
  | zero => rfl
  | succ fuel ih =>
    rw [stringifyChars, printRounds]
    split_ifs
    · rw [except_map_bind]
      refine bind_congr fun r ↦ ?_
      rw [except_map_bind]
      refine bind_congr fun next ↦ ?_
      rw [except_map_bind, ih]
      cases printRounds str len fuel next with
      | error f => rfl
      | ok rest => rfl
    · rfl

/-- Printing the string reads no byte behind the terminator, and takes every byte of the string in
exactly one round. -/
def PrintsInside (s : Bytes) : Prop :=
  ∃ rs, printRounds (s ++ [0]) (toInt s.length) s.length 0 = .ok rs ∧
    (∀ r ∈ rs, ∀ i, r.Takes i → i ≤ s.length) ∧
    ∀ i < s.length, rs.countP (fun r ↦ r.Takes i) = 1

/-! ## One round -/

/-- The number of bytes that a round takes, from the first one. -/
def roundLength (c : UInt8) : ℕ :=
  if shortEscape c = none ∧ c.toInt8.toInt < 0x20 then sequenceLength c else 1

theorem sequenceLength_bounds (c : UInt8) : 1 ≤ sequenceLength c ∧ sequenceLength c ≤ 4 := by
  rw [sequenceLength]
  split_ifs <;> omega

theorem roundLength_bounds (c : UInt8) : 1 ≤ roundLength c ∧ roundLength c ≤ 4 := by
  rw [roundLength]
  split_ifs
  · exact sequenceLength_bounds c
  · omega

theorem continueCode_spec (count code : ℕ) (str : Bytes) :
    (count ≤ str.length → ∃ code', continueCode count code str = .ok code') ∧
      (str.length < count → continueCode count code str = .error .badAccess) := by
  induction count generalizing code str with
  | zero => exact ⟨fun _ ↦ ⟨code, rfl⟩, fun h ↦ absurd h (Nat.not_lt_zero _)⟩
  | succ count ih =>
    cases str with
    | nil => exact ⟨fun h ↦ absurd h (Nat.not_succ_le_zero _), fun _ ↦ rfl⟩
    | cons c str =>
      obtain ⟨hok, herror⟩ := ih ((code <<< 6) + (c.toNat &&& 0x3F)) str
      exact ⟨fun h ↦ hok (Nat.le_of_succ_le_succ h), fun h ↦ herror (Nat.lt_of_succ_lt_succ h)⟩

theorem stringifyUtf8_spec (c : UInt8) (str : Bytes) :
    (sequenceLength c ≤ str.length + 1 →
        ∃ text, stringifyUtf8 (c :: str) = .ok (text, sequenceLength c)) ∧
      (str.length + 1 < sequenceLength c → stringifyUtf8 (c :: str) = .error .badAccess) := by
  have hbounds := sequenceLength_bounds c
  obtain ⟨hok, herror⟩ := continueCode_spec (sequenceLength c - 1)
    (((c.toNat <<< sequenceLength c) &&& 0xFF) >>> sequenceLength c) str
  refine ⟨fun h ↦ ?_, fun h ↦ ?_⟩
  · obtain ⟨code, hcode⟩ := hok (by omega)
    exact ⟨_, bind_of_ok hcode _⟩
  · have hcode := herror (by omega)
    change (continueCode _ _ str >>= fun code ↦ _) = _
    rw [hcode]
    rfl

theorem stringifyChar_cons (c : UInt8) (str : Bytes) :
    stringifyChar (c :: str) = match shortEscape c with
      | some text => .ok (text, 1)
      | none => if c.toInt8.toInt < 0x20 then stringifyUtf8 (c :: str) else .ok ([c], 1) :=
  rfl

/-- A round goes through if all of its bytes are there. -/
theorem stringifyChar_spec (c : UInt8) (str : Bytes) :
    (roundLength c ≤ str.length + 1 →
        ∃ text, stringifyChar (c :: str) = .ok (text, roundLength c)) ∧
      (str.length + 1 < roundLength c → stringifyChar (c :: str) = .error .badAccess) := by
  rw [stringifyChar_cons, roundLength]
  cases hshort : shortEscape c with
  | some text =>
    rw [if_neg fun h ↦ Option.some_ne_none text h.1]
    exact ⟨fun _ ↦ ⟨text, rfl⟩, fun h ↦ absurd h (by omega)⟩
  | none =>
    by_cases hc : c.toInt8.toInt < 0x20
    · rw [if_pos ⟨rfl, hc⟩, if_pos hc]
      exact stringifyUtf8_spec c str
    · rw [if_neg fun h ↦ hc h.2, if_neg hc]
      exact ⟨fun _ ↦ ⟨[c], rfl⟩, fun h ↦ absurd h (by omega)⟩

/-! ## The bytes that are missing -/

/-- The number of bytes that the last round does not find, where `skip` more bytes belong to the
round before. -/
def missing : ℕ → Bytes → ℕ
  | skip, [] => skip
  | 0, c :: s => missing (roundLength c - 1) s
  | skip + 1, _ :: s => missing skip s

theorem missing_of_le {skip : ℕ} (h : skip ≤ s.length) :
    missing skip s = missing 0 (s.drop skip) := by
  induction s generalizing skip with
  | nil =>
    obtain rfl : skip = 0 := Nat.le_zero.mp h
    rfl
  | cons c s ih =>
    cases skip with
    | zero => rfl
    | succ skip => exact ih (Nat.le_of_succ_le_succ h)

theorem missing_of_ge {skip : ℕ} (h : s.length ≤ skip) : missing skip s = skip - s.length := by
  induction s generalizing skip with
  | nil => rfl
  | cons c s ih =>
    cases skip with
    | zero => exact absurd h (Nat.not_succ_le_zero _)
    | succ skip =>
      rw [missing, ih (Nat.le_of_succ_le_succ h), length_cons]
      omega

/-! ## Rounds in sequence -/

/-- The rounds follow each other without a gap, from `pos` to `last`. -/
def Consecutive (last : ℕ) : ℕ → List PrintRound → Prop
  | pos, [] => pos = last
  | pos, r :: rs => r.pos = pos ∧ Consecutive last (pos + r.count) rs

section

variable (h : Consecutive last pos rs)
include h

theorem Consecutive.le : pos ≤ last := by
  induction rs generalizing pos with
  | nil => exact h.le
  | cons r rs ih => exact (Nat.le_add_right _ _).trans (ih h.2)

theorem Consecutive.lt_of_takes (hr : r ∈ rs) (hi : r.Takes i) :
    pos ≤ i ∧ i < last := by
  induction rs generalizing pos with
  | nil => cases hr
  | cons r' rs ih =>
    obtain ⟨rfl, hrest⟩ := h
    rcases mem_cons.mp hr with rfl | hr
    · exact ⟨hi.1, hi.2.trans_le hrest.le⟩
    · obtain ⟨hle, hlt⟩ := ih hrest hr
      exact ⟨by omega, hlt⟩

/-- Every byte between the ends is taken once. -/
theorem Consecutive.countP_eq (hle : pos ≤ i) (hlt : i < last) :
    rs.countP (fun r ↦ r.Takes i) = 1 := by
  induction rs generalizing pos with
  | nil =>
    obtain rfl : pos = last := h
    omega
  | cons r rs ih =>
    obtain ⟨hpos, hrest⟩ := h
    by_cases htakes : i < pos + r.count
    · -- the rounds that come later start behind `i`
      have hlater : rs.countP (fun r ↦ r.Takes i) = 0 := by
        rw [countP_eq_zero]
        intro r' hr' htakes'
        have hbehind := (hrest.lt_of_takes hr' (of_decide_eq_true htakes')).1
        omega
      rw [countP_cons_of_pos, hlater]
      exact decide_eq_true ⟨by omega, by omega⟩
    · rw [countP_cons_of_neg, ih hrest (by omega)]
      rw [decide_eq_true_eq]
      rintro ⟨-, hlt'⟩
      omega

end

/-! ## The loop -/

theorem printRounds_of_le (h : len ≤ pos) : printRounds str len fuel pos = .ok [] := by
  cases fuel with
  | zero => rfl
  | succ fuel => exact if_neg (by omega)

theorem printRounds_succ (h : (pos : ℤ) < len) : printRounds str len (fuel + 1) pos =
    stringifyChar (str.drop pos) >>= fun r ↦ addInt pos r.2 >>= fun next ↦
      printRounds str len fuel next >>= fun rest ↦ .ok (⟨pos, r.2, r.1⟩ :: rest) :=
  if_pos h

theorem addInt_of_lt {a b : ℕ} (h : a + b < 2 ^ 31) : addInt a b = .ok (a + b) := if_pos h

theorem addInt_of_ge {a b : ℕ} (h : 2 ^ 31 ≤ a + b) : addInt a b = .error .overflow :=
  if_neg (by omega)

/-- The rounds that are left at `pos`. Either they are consecutive up to what is missing, or the
loop stops with a fault. -/
theorem printRounds_spec (hlen : s.length < 2 ^ 31) (hpos : pos ≤ s.length)
    (hfuel : s.length ≤ fuel + pos) :
    (missing 0 (s.drop pos) ≤ 1 ∧ s.length + missing 0 (s.drop pos) < 2 ^ 31 →
        ∃ rs, printRounds (s ++ [0]) s.length fuel pos = .ok rs ∧
          Consecutive (s.length + missing 0 (s.drop pos)) pos rs) ∧
      (¬(missing 0 (s.drop pos) ≤ 1 ∧ s.length + missing 0 (s.drop pos) < 2 ^ 31) →
        ∃ f, printRounds (s ++ [0]) s.length fuel pos = .error f) := by
  induction fuel generalizing pos with
  | zero =>
    obtain rfl : pos = s.length := by omega
    rw [drop_length]
    exact ⟨fun _ ↦ ⟨[], rfl, rfl⟩, fun h ↦ absurd ⟨Nat.zero_le 1, hlen⟩ h⟩
  | succ fuel ih =>
    rcases hpos.eq_or_lt with rfl | hlt
    · rw [drop_length, printRounds_of_le le_rfl]
      exact ⟨fun _ ↦ ⟨[], rfl, rfl⟩, fun h ↦ absurd ⟨Nat.zero_le 1, hlen⟩ h⟩
    rw [printRounds_succ (by exact_mod_cast hlt), drop_append_of_le_length hpos]
    obtain ⟨c, t, ht⟩ : ∃ c t, s.drop pos = c :: t := ⟨_, _, drop_eq_getElem_cons hlt⟩
    have hlength : t.length + 1 = s.length - pos := by
      rw [← length_drop, ht, length_cons]
    have hbounds := roundLength_bounds c
    obtain ⟨hok, herror⟩ := stringifyChar_spec c (t ++ [0])
    rw [length_append, length_singleton] at hok herror
    rw [ht, cons_append, missing]
    by_cases hinside : roundLength c - 1 ≤ t.length
    · -- the next round starts inside the string, or at its end
      obtain ⟨text, htext⟩ := hok (by omega)
      have hnext : s.drop (pos + roundLength c) = t.drop (roundLength c - 1) := by
        rw [← drop_drop, ht]
        obtain ⟨n, hn⟩ := Nat.exists_eq_add_of_le' hbounds.1
        rw [hn]
        rfl
      obtain ⟨hrest, hfault⟩ := ih (show pos + roundLength c ≤ s.length by omega) (by omega)
      rw [htext, ok_bind, addInt_of_lt (by omega), ok_bind, missing_of_le hinside,
        ← hnext]
      refine ⟨fun h ↦ ?_, fun h ↦ ?_⟩
      · obtain ⟨rs, hrs, hconsecutive⟩ := hrest h
        rw [hrs]
        exact ⟨_, rfl, rfl, hconsecutive⟩
      · obtain ⟨f, hf⟩ := hfault h
        rw [hf]
        exact ⟨f, rfl⟩
    · rw [missing_of_ge (by omega)]
      have hend : pos + roundLength c = s.length + (roundLength c - 1 - t.length) := by omega
      by_cases hterminator : roundLength c ≤ t.length + 1 + 1
      · obtain ⟨text, htext⟩ := hok hterminator
        rw [htext, ok_bind]
        by_cases hint : pos + roundLength c < 2 ^ 31
        · rw [addInt_of_lt hint, ok_bind, printRounds_of_le (by omega)]
          exact ⟨fun _ ↦ ⟨_, rfl, rfl, hend⟩, fun h ↦ absurd ⟨by omega, by omega⟩ h⟩
        · rw [addInt_of_ge (by omega)]
          exact ⟨fun h ↦ absurd h.2 (by omega), fun _ ↦ ⟨_, rfl⟩⟩
      · rw [herror (by omega)]
        exact ⟨fun h ↦ absurd h.1 (by omega), fun _ ↦ ⟨_, rfl⟩⟩

/-- A round starts below the length that the loop was given. -/
theorem pos_lt_of_mem_printRounds (h : printRounds str len fuel pos = .ok rs) (hr : r ∈ rs) :
    (r.pos : ℤ) < len ∧ r.count ≤ 4 := by
  induction fuel generalizing pos rs with
  | zero =>
    cases h
    cases hr
  | succ fuel ih =>
    by_cases hlt : (pos : ℤ) < len
    · rw [printRounds_succ hlt] at h
      obtain ⟨⟨text, count⟩, hchar, h⟩ := bind_eq_ok.mp h
      obtain ⟨next, -, h⟩ := bind_eq_ok.mp h
      obtain ⟨rest, hrest, h⟩ := bind_eq_ok.mp h
      cases h
      rcases mem_cons.mp hr with rfl | hr
      · refine ⟨hlt, ?_⟩
        cases hstr : str.drop pos with
        | nil =>
          rw [hstr] at hchar
          cases hchar
        | cons c t =>
          rw [hstr] at hchar
          obtain ⟨hok, herror⟩ := stringifyChar_spec c t
          by_cases hcount : roundLength c ≤ t.length + 1
          · obtain ⟨text', htext'⟩ := hok hcount
            rw [htext'] at hchar
            cases hchar
            exact (roundLength_bounds c).2
          · rw [herror (by omega)] at hchar
            cases hchar
      · exact ih hrest hr
    · rw [printRounds_of_le (by omega)] at h
      cases h
      cases hr

/-- **What is read to print a string.** The loop stays inside the string and takes every byte once,
exactly if at most one byte is missing and the position after the last round fits an `int`. -/
theorem printsInside_iff (s : Bytes) :
    PrintsInside s ↔ missing 0 s ≤ 1 ∧ s.length + missing 0 s < 2 ^ 31 := by
  by_cases hlen : s.length < 2 ^ 31
  · obtain ⟨hok, hfault⟩ := printRounds_spec hlen (Nat.zero_le _)
      (show s.length ≤ s.length + 0 from le_rfl)
    rw [drop_zero] at hok hfault
    constructor
    · rintro ⟨rs, hrs, -⟩
      by_contra h
      obtain ⟨f, hf⟩ := hfault h
      rw [toInt_of_lt hlen, hf] at hrs
      cases hrs
    · intro h
      obtain ⟨rs, hrs, hconsecutive⟩ := hok h
      rw [PrintsInside, toInt_of_lt hlen]
      refine ⟨rs, hrs, fun r hr i hi ↦ ?_, fun i hi ↦ ?_⟩
      · have hlt := (hconsecutive.lt_of_takes hr hi).2
        omega
      · exact hconsecutive.countP_eq (Nat.zero_le i) (by omega)
  · refine iff_of_false ?_ fun h ↦ hlen (by omega)
    rintro ⟨rs, hrs, -, honce⟩
    -- the length that the loop is given is too small, so that the last byte is not taken
    have hlast := honce (s.length - 1) (by omega)
    have hpositive : 0 < rs.countP (fun r ↦ r.Takes (s.length - 1)) := by omega
    obtain ⟨r, hr, htakes⟩ := countP_pos_iff.mp hpositive
    obtain ⟨hpos, hcount⟩ := pos_lt_of_mem_printRounds hrs hr
    have htakes' : r.Takes (s.length - 1) := of_decide_eq_true htakes
    have hlt := htakes'.2
    rw [toInt] at hpos
    split_ifs at hpos
    · omega
    · omega

/-- A Euro sign between two letters, and a character whose last byte is cut off. -/
theorem printsInside_samples :
    PrintsInside [97, 0xE2, 0x82, 0xAC, 98] ∧ PrintsInside [97, 0xE2, 0x82] :=
  ⟨(printsInside_iff _).mpr (by decide), (printsInside_iff _).mpr (by decide)⟩

/-- The first byte of a character of three bytes, alone in a string. The parser accepts it. Printing
it reads behind the terminator. -/
theorem printsOutside_first_byte :
    (parse [34, 0xE2, 34, 0] : Except Stop (Json ℤ)) = .ok (.string [0xE2]) ∧
      stringifyStringRaw [0xE2] = .error .badAccess ∧ ¬PrintsInside [0xE2] := by
  refine ⟨rfl, by decide, ?_⟩
  rintro ⟨rs, hrs, -⟩
  have hfault : printRounds ([0xE2] ++ [0]) (toInt 1) 1 0 = .error .badAccess := by decide
  exact absurd (hfault.symm.trans hrs) nofun

end Json

end Fishnet

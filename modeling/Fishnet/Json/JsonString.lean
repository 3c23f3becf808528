import Fishnet.Json.Zjson

/-!
# Strings, printed and parsed

`stringify_string_raw` escapes every character outside printable ASCII. It decodes the UTF-8 of the
string itself and prints `\uXXXX`, or two of them for a code point from U+10000 on. There it keeps
the low 16 bits of the code point where it should subtract `0x10000`. That is the same in plane 1,
and moves the characters of the other planes into plane 1: the parser, which reads surrogate pairs
correctly, returns `foldPlane c` for `c`.

The length of a string is converted to `int`. A string of `2 ^ 31` bytes or more is cut: the loop
prints the characters that start below the converted length (`kept`), or the position overflows.

`echo` is what a string becomes when it is printed and parsed.

## Main results

* `Json.stringifyStringRaw_utf8`, `Json.parseString_quoted`: the two directions.
* `Json.echo_eq_self_iff`: the strings that come back unchanged.
-/

namespace Fishnet

open List

namespace Json

/-! ## Characters of planes other than 1 -/

/-- The character that is read back for `c`. -/
def foldPlane (c : Char) : Char :=
  if c.toNat < 0x10000 then c else Char.ofNat (0x10000 + c.toNat % 0x10000)

variable {c : Char} {cs : List Char} {rest stack : Bytes} {fuel : ℕ}

theorem foldPlane_of_lt (h : c.toNat < 0x10000) : foldPlane c = c := if_pos h

theorem toNat_foldPlane (h : 0x10000 ≤ c.toNat) :
    (foldPlane c).toNat = 0x10000 + c.toNat % 0x10000 := by
  have hvalid : Nat.isValidChar (0x10000 + c.toNat % 0x10000) := by
    refine Or.inr ⟨?_, ?_⟩ <;> omega
  rw [foldPlane, if_neg (Nat.not_lt.mpr h), Char.toNat_ofNat_of_isValidChar hvalid]

theorem toNat_foldPlane_lt (c : Char) : (foldPlane c).toNat < 0x20000 := by
  by_cases h : c.toNat < 0x10000
  · rw [foldPlane_of_lt h]
    omega
  · rw [toNat_foldPlane (Nat.not_lt.mp h)]
    omega

theorem foldPlane_eq_self_iff : foldPlane c = c ↔ c.toNat < 0x20000 := by
  constructor
  · intro h
    rw [← h]
    exact toNat_foldPlane_lt c
  · intro h
    by_cases hlt : c.toNat < 0x10000
    · exact foldPlane_of_lt hlt
    · apply Char.toNat_inj.mp
      rw [toNat_foldPlane (Nat.not_lt.mp hlt)]
      omega

theorem utf8Size_foldPlane (c : Char) : (foldPlane c).utf8Size = c.utf8Size := by
  by_cases h : c.toNat < 0x10000
  · rw [foldPlane_of_lt h]
  · have h' := toNat_foldPlane (Nat.not_lt.mp h)
    rw [← String.length_utf8EncodeChar, ← String.length_utf8EncodeChar,
      utf8EncodeChar_four (by omega), utf8EncodeChar_four (Nat.not_lt.mp h)]
    rfl

theorem map_foldPlane_eq_self_iff : cs.map foldPlane = cs ↔ ∀ c ∈ cs, c.toNat < 0x20000 := by
  induction cs with
  | nil => simp
  | cons c cs ih =>
    rw [map_cons, List.cons.injEq, ih, foldPlane_eq_self_iff, forall_mem_cons]

/-! ## Printing a character -/

section Bytes

theorem toNat_ofNat_byte {n : ℕ} (hn : n < 256) : (UInt8.ofNat n).toNat = n :=
  UInt8.toNat_ofNat_of_lt hn

theorem shortEscape_of_ge {n : ℕ} (h : 0x80 ≤ n) (hn : n < 256) :
    shortEscape (UInt8.ofNat n) = none := by
  have hall : ∀ n < 256, 0x80 ≤ n → shortEscape (UInt8.ofNat n) = none := by decide +kernel
  exact hall n hn h

/-- A `char` is below a space if it is a control character, or negative. -/
theorem toInt8_lt_iff {n : ℕ} (hn : n < 256) :
    (UInt8.ofNat n).toInt8.toInt < 0x20 ↔ n < 0x20 ∨ 0x80 ≤ n := by
  have hint : (UInt8.ofNat n).toInt8.toInt = if 2 * n < 256 then (n : ℤ) else n - 256 := by
    have hcond := BitVec.toInt_eq_toNat_cond (UInt8.ofNat n).toBitVec
    rwa [UInt8.toNat_toBitVec, toNat_ofNat_byte hn] at hcond
  rw [hint]
  split_ifs <;> omega

theorem sequenceLength_ofNat {n : ℕ} (hn : n < 256) :
    sequenceLength (UInt8.ofNat n) =
      if n < 0xC0 then 1 else if n < 0xE0 then 2 else if n < 0xF0 then 3 else 4 := by
  have hall : ∀ n < 256, sequenceLength (UInt8.ofNat n) =
      if n < 0xC0 then 1 else if n < 0xE0 then 2 else if n < 0xF0 then 3 else 4 := by decide +kernel
  exact hall n hn

theorem shift_marker {n k : ℕ} (hk : k < 5) : ((n <<< k) &&& 0xFF) >>> k = n % 2 ^ (8 - k) := by
  have hpow : 2 ^ 8 = 2 ^ (8 - k) * 2 ^ k := by rw [← pow_add, Nat.sub_add_cancel (by omega)]
  rw [Nat.shiftLeft_eq, Nat.shiftRight_eq_div_pow, Nat.and_two_pow_sub_one_eq_mod _ 8, hpow,
    Nat.mul_mod_mul_right, Nat.mul_div_cancel _ (by positivity)]

end Bytes

theorem continueCode_cons {count code n : ℕ} (hn : n < 256) :
    continueCode (count + 1) code (UInt8.ofNat n :: rest) =
      continueCode count (code * 64 + n % 64) rest := by
  have hand : n &&& 0x3F = n % 64 := Nat.and_two_pow_sub_one_eq_mod n 6
  rw [continueCode, charAt]
  change continueCode count ((code <<< 6) + ((UInt8.ofNat n).toNat &&& 0x3F)) rest = _
  rw [toNat_ofNat_byte hn, hand, Nat.shiftLeft_eq]

theorem stringifyUtf8_cons {n k : ℕ} (hn : n < 256) (hk : k < 5)
    (hlen : sequenceLength (UInt8.ofNat n) = k) :
    stringifyUtf8 (UInt8.ofNat n :: rest) =
      continueCode (k - 1) (n % 2 ^ (8 - k)) rest >>= fun code ↦ .ok (pushCode code, k) := by
  rw [stringifyUtf8, charAt]
  change (continueCode (sequenceLength (UInt8.ofNat n) - 1) _ rest >>= _) = _
  rw [hlen, toNat_ofNat_byte hn, shift_marker hk]
  rfl

/-- `stringify_utf8` reads the code point of the character it stands on. -/
theorem stringifyUtf8_utf8 (c : Char) (rest : Bytes) :
    stringifyUtf8 (String.utf8EncodeChar c ++ rest) = .ok (pushCode c.toNat, c.utf8Size) := by
  -- one case for each length of the encoding
  have hmax := c.toNat_lt
  rw [← String.length_utf8EncodeChar]
  rcases lt_or_ge c.toNat 0x80 with h₁ | h₁
  · have hlen : sequenceLength (UInt8.ofNat c.toNat) = 1 := by
      rw [sequenceLength_ofNat (by omega), if_pos (by omega)]
    rw [utf8EncodeChar_one h₁, singleton_append,
      stringifyUtf8_cons (by omega) (by decide) hlen,
      show c.toNat % 2 ^ (8 - 1) = c.toNat from Nat.mod_eq_of_lt h₁]
    rfl
  rcases lt_or_ge c.toNat 0x800 with h₂ | h₂
  · have hlen : sequenceLength (UInt8.ofNat (c.toNat / 64 % 32 + 0xC0)) = 2 := by
      rw [sequenceLength_ofNat (by omega), if_neg (by omega), if_pos (by omega)]
    rw [utf8EncodeChar_two h₁ h₂, cons_append, stringifyUtf8_cons (by omega) (by decide) hlen,
      cons_append, continueCode_cons (by omega), continueCode]
    have hcode : (c.toNat / 64 % 32 + 0xC0) % 2 ^ (8 - 2) * 64 + (c.toNat % 64 + 0x80) % 64 =
        c.toNat := by
      omega
    rw [hcode]
    rfl
  rcases lt_or_ge c.toNat 0x10000 with h₃ | h₃
  · have hlen : sequenceLength (UInt8.ofNat (c.toNat / 4096 % 16 + 0xE0)) = 3 := by
      rw [sequenceLength_ofNat (by omega), if_neg (by omega), if_neg (by omega), if_pos (by omega)]
    rw [utf8EncodeChar_three h₂ h₃, cons_append,
      stringifyUtf8_cons (by omega) (by decide) hlen,
      cons_append, continueCode_cons (by omega), cons_append,
      continueCode_cons (by omega), continueCode]
    have hcode : ((c.toNat / 4096 % 16 + 0xE0) % 2 ^ (8 - 3) * 64 +
        (c.toNat / 64 % 64 + 0x80) % 64) * 64 + (c.toNat % 64 + 0x80) % 64 = c.toNat := by
      omega
    rw [hcode]
    rfl
  · have hlen : sequenceLength (UInt8.ofNat (c.toNat / 262144 % 8 + 0xF0)) = 4 := by
      rw [sequenceLength_ofNat (by omega), if_neg (by omega), if_neg (by omega), if_neg (by omega)]
    rw [utf8EncodeChar_four h₃, cons_append, stringifyUtf8_cons (by omega) (by decide) hlen,
      cons_append, continueCode_cons (by omega), cons_append,
      continueCode_cons (by omega), cons_append, continueCode_cons (by omega), continueCode]
    have hcode : (((c.toNat / 262144 % 8 + 0xF0) % 2 ^ (8 - 4) * 64 +
        (c.toNat / 4096 % 64 + 0x80) % 64) * 64 + (c.toNat / 64 % 64 + 0x80) % 64) * 64 +
        (c.toNat % 64 + 0x80) % 64 = c.toNat := by
      omega
    rw [hcode]
    rfl

/-- The first byte of a character. Only ASCII characters start with an ASCII byte. -/
theorem exists_head_utf8 (c : Char) : ∃ n < 256, ∃ str,
    String.utf8EncodeChar c = UInt8.ofNat n :: str ∧
      (c.toNat < 0x80 ∧ n = c.toNat ∧ str = [] ∨ 0x80 ≤ c.toNat ∧ 0x80 ≤ n) := by
  rcases lt_or_ge c.toNat 0x80 with h₁ | h₁
  · exact ⟨c.toNat, by omega, [], utf8EncodeChar_one h₁, Or.inl ⟨h₁, rfl, rfl⟩⟩
  rcases lt_or_ge c.toNat 0x800 with h₂ | h₂
  · exact ⟨_, by omega, _, utf8EncodeChar_two h₁ h₂, Or.inr ⟨h₁, by omega⟩⟩
  rcases lt_or_ge c.toNat 0x10000 with h₃ | h₃
  · exact ⟨_, by omega, _, utf8EncodeChar_three h₂ h₃, Or.inr ⟨h₁, by omega⟩⟩
  · exact ⟨_, by omega, _, utf8EncodeChar_four h₃, Or.inr ⟨h₁, by omega⟩⟩

/-- The text printed for a character. -/
def printed (c : Char) : Bytes :=
  if c.toNat < 0x80 then
    match shortEscape (UInt8.ofNat c.toNat) with
    | some text => text
    | none => if c.toNat < 0x20 then pushCode c.toNat else [UInt8.ofNat c.toNat]
  else pushCode c.toNat

/-- One round of `stringify_string_raw` prints one character. -/
theorem stringifyChar_utf8 (c : Char) (rest : Bytes) :
    stringifyChar (String.utf8EncodeChar c ++ rest) = .ok (printed c, c.utf8Size) := by
  have hutf8 := stringifyUtf8_utf8 c rest
  obtain ⟨n, hn, str, hc, hcase⟩ := exists_head_utf8 c
  have hsize : c.utf8Size = str.length + 1 := by
    rw [← String.length_utf8EncodeChar, hc, length_cons]
  rw [hc] at hutf8 ⊢
  rw [cons_append] at hutf8 ⊢
  unfold stringifyChar
  rw [charAt]
  change (match shortEscape (UInt8.ofNat n) with | some text => _ | none => _) = _
  rcases hcase with ⟨hlt, rfl, rfl⟩ | ⟨hge, hge'⟩
  · rw [printed, if_pos hlt]
    cases hshort : shortEscape (UInt8.ofNat c.toNat) with
    | some text =>
      rw [hsize]
      rfl
    | none =>
      simp only [toInt8_lt_iff hn]
      by_cases hctrl : c.toNat < 0x20
      · rw [if_pos (Or.inl hctrl), if_pos hctrl, hutf8]
      · rw [if_neg (by omega), if_neg hctrl, hsize]
        rfl
  · have hprinted : printed c = pushCode c.toNat := if_neg (Nat.not_lt.mpr hge)
    rw [shortEscape_of_ge hge' hn, hprinted]
    simp only [toInt8_lt_iff hn]
    rw [if_pos (Or.inr hge'), hutf8]

/-! ## Printing a string -/

/-- The characters that start below the byte offset `len`. -/
def charsBelow : ℤ → List Char → List Char
  | _, [] => []
  | len, c :: cs => if 0 < len then c :: charsBelow (len - c.utf8Size) cs else []

theorem utf8_concat_length (pre : List Char) (c : Char) :
    (utf8 (pre ++ [c])).length = (utf8 pre).length + c.utf8Size := by
  rw [utf8_append, utf8_cons, utf8_nil, append_nil, length_append,
    String.length_utf8EncodeChar]

/-- The loop prints the characters that start below the length it is given, unless the position
overflows. -/
theorem stringifyChars_utf8 {len : ℤ} (pre : List Char) {cs : List Char} (hfuel : cs.length ≤ fuel)
    (hlen : len ≤ (utf8 (pre ++ cs)).length) (hpre : (utf8 pre).length < 2 ^ 31) :
    stringifyChars (utf8 (pre ++ cs) ++ [0]) len fuel (utf8 pre).length =
      if (utf8 (pre ++ charsBelow (len - (utf8 pre).length) cs)).length < 2 ^ 31 then
        .ok ((charsBelow (len - (utf8 pre).length) cs).flatMap printed)
      else .error .overflow := by
  induction cs generalizing pre fuel with
  | nil =>
    have hdone : stringifyChars (utf8 (pre ++ []) ++ [0]) len fuel (utf8 pre).length = .ok [] := by
      rw [append_nil] at hlen
      cases fuel with
      | zero => rfl
      | succ fuel => rw [stringifyChars, if_neg (not_lt.mpr hlen)]
    rw [hdone, charsBelow, append_nil, if_pos hpre]
    rfl
  | cons c cs ih =>
    cases fuel with
    | zero => exact absurd hfuel (Nat.not_succ_le_zero _)
    | succ fuel =>
      have happend (cs : List Char) : pre ++ c :: cs = (pre ++ [c]) ++ cs := by
        rw [append_assoc]
        rfl
      have hdrop : (utf8 (pre ++ c :: cs) ++ [0]).drop (utf8 pre).length =
          String.utf8EncodeChar c ++ (utf8 cs ++ [0]) := by
        rw [utf8_append, append_assoc, drop_left, utf8_cons, append_assoc]
      rw [stringifyChars, charsBelow]
      by_cases hlt : ((utf8 pre).length : ℤ) < len
      · -- the loop stands on `c`; what it has printed moves from `cs` to `pre`
        rw [if_pos hlt, if_pos (sub_pos.mpr hlt), hdrop, stringifyChar_utf8]
        change (addInt (utf8 pre).length c.utf8Size >>= fun pos ↦
          stringifyChars _ len fuel pos >>= fun rest ↦ .ok (printed c ++ rest)) = _
        rw [addInt, ← utf8_concat_length, sub_sub, ← Nat.cast_add, ← utf8_concat_length, happend cs,
          happend (charsBelow _ cs)]
        by_cases hpos : (utf8 (pre ++ [c])).length < 2 ^ 31
        · have hrest := ih (pre ++ [c]) (Nat.le_of_succ_le_succ hfuel) (by rwa [← happend]) hpos
          rw [if_pos hpos]
          change (stringifyChars _ len fuel (utf8 (pre ++ [c])).length >>= _) = _
          rw [hrest]
          split_ifs <;> rfl
        · have hover : ¬(utf8 (pre ++ [c] ++
              charsBelow (len - (utf8 (pre ++ [c])).length) cs)).length < 2 ^ 31 := by
            rw [utf8_append, length_append]
            omega
          rw [if_neg hpos, if_neg hover]
          rfl
      · rw [if_neg hlt, if_neg (fun h ↦ hlt (sub_pos.mp h)), append_nil, if_pos hpre]
        rfl

theorem toInt_le (n : ℕ) : toInt n ≤ n := by
  rw [toInt]
  split_ifs <;> omega

theorem toInt_of_lt {n : ℕ} (h : n < 2 ^ 31) : toInt n = n := by
  rw [toInt]
  split_ifs <;> omega

/-- A text in quotation marks. -/
def quoted (cs : List Char) : Bytes := chars "\"" ++ cs.flatMap printed ++ chars "\""

/-- The characters of the string that are printed. -/
def kept (cs : List Char) : List Char := charsBelow (toInt (utf8 cs).length) cs

theorem stringifyStringRaw_utf8 (cs : List Char) :
    stringifyStringRaw (utf8 cs) =
      if (utf8 (kept cs)).length < 2 ^ 31 then .ok (quoted (kept cs)) else .error .overflow := by
  have hloop := stringifyChars_utf8 [] (length_le_length_utf8 cs) (toInt_le (utf8 cs).length)
    (by decide)
  rw [nil_append, nil_append, utf8_nil, length_nil, Nat.cast_zero, sub_zero] at hloop
  rw [stringifyStringRaw, hloop, kept]
  split_ifs <;> rfl

/-! ## Parsing a character -/

theorem ch2hex_hexDigit {x : ℕ} (hx : x < 16) : ch2hex (hexDigit x) = some x := by
  have hall : ∀ x < 16, ch2hex (hexDigit x) = some x := by decide
  exact hall x hx

theorem parseHex_succ (i code : ℕ) (ch : UInt8) :
    parseHex (i + 1) code (ch :: rest) = match ch2hex ch with
      | none => .ok (none, rest)
      | some hex => parseHex i ((code <<< 4) + hex) rest :=
  rfl

theorem parseHex_cons {i code x : ℕ} {ch : UInt8} (hch : ch2hex ch = some x) :
    parseHex (i + 1) code (ch :: rest) = parseHex i (code * 16 + x) rest := by
  rw [parseHex_succ, hch]
  change parseHex i ((code <<< 4) + x) rest = _
  rw [Nat.shiftLeft_eq]

theorem parseHex4_cons {c₁ c₂ c₃ c₄ : UInt8} {x₁ x₂ x₃ x₄ : ℕ} (h₁ : ch2hex c₁ = some x₁)
    (h₂ : ch2hex c₂ = some x₂) (h₃ : ch2hex c₃ = some x₃) (h₄ : ch2hex c₄ = some x₄) :
    parseHex4 (c₁ :: c₂ :: c₃ :: c₄ :: rest) =
      .ok (some (((x₁ * 16 + x₂) * 16 + x₃) * 16 + x₄), rest) := by
  rw [parseHex4, parseHex_cons h₁, parseHex_cons h₂, parseHex_cons h₃, parseHex_cons h₄, parseHex,
    Nat.zero_mul, Nat.zero_add]

theorem parseHex4_stringifyHex4 {code : ℕ} (h : code < 0x10000) :
    parseHex4 (stringifyHex4 code ++ rest) = .ok (some code, rest) := by
  have hcode : ((code / 16 / 16 / 16 % 16 * 16 + code / 16 / 16 % 16) * 16 + code / 16 % 16) * 16 +
      code % 16 = code := by
    omega
  have hdigit (x : ℕ) : ch2hex (hexDigit (x % 16)) = some (x % 16) :=
    ch2hex_hexDigit (Nat.mod_lt x (by decide))
  have hparse : parseHex4 (stringifyHex4 code ++ rest) = _ :=
    parseHex4_cons (hdigit _) (hdigit _) (hdigit _) (hdigit _)
  rwa [hcode] at hparse

theorem or_mask (a k x : ℕ) : 2 ^ k * a ||| ((2 ^ k - 1) &&& x) = x % 2 ^ k + 2 ^ k * a := by
  rw [Nat.and_comm, Nat.and_two_pow_sub_one_eq_mod,
    ← Nat.two_pow_add_eq_or_of_lt (Nat.mod_lt _ (Nat.two_pow_pos k)), Nat.add_comm]

/-- `encode_utf8` pushes the UTF-8 of the code point it has read. -/
theorem pushUtf8_toNat (h : c.toNat < 0x10FFFF) :
    pushUtf8 c.toNat = .ok (String.utf8EncodeChar c) := by
  have hlead₂ : ∀ x, 0xC0 ||| (0x1F &&& x) = x % 32 + 0xC0 := or_mask 6 5
  have hlead₃ : ∀ x, 0xE0 ||| (0x0F &&& x) = x % 16 + 0xE0 := or_mask 14 4
  have hlead₄ : ∀ x, 0xF0 ||| (0x07 &&& x) = x % 8 + 0xF0 := or_mask 30 3
  have htail : ∀ x, 0x80 ||| (0x3F &&& x) = x % 64 + 0x80 := or_mask 2 6
  rw [pushUtf8]
  simp only [hlead₂, hlead₃, hlead₄, htail, Nat.shiftRight_eq_div_pow]
  split_ifs with h₁ h₂ h₃
  · rw [utf8EncodeChar_one h₁]
  · rw [utf8EncodeChar_two (by omega) h₂]
  · rw [utf8EncodeChar_three (by omega) h₃]
  · rw [utf8EncodeChar_four (by omega)]

theorem parseSurrogate_backslash (code : ℕ) (text : Bytes) :
    parseSurrogate code (chars "\\u" ++ text) =
      parseHex4 text >>= fun r ↦
        match r.1 with
        | none => fail .invalidUnicodeSurrogate
        | some surrogate =>
          if 0xDC00 ≤ surrogate ∧ surrogate < 0xE000 then
            .ok (0x10000 + (code - 0xD800) * 0x400 + (surrogate - 0xDC00), r.2)
          else fail .invalidUnicodeSurrogate :=
  rfl

theorem parseSurrogate_chars {code low : ℕ} {text : Bytes}
    (h : parseHex4 text = .ok (some low, rest)) :
    parseSurrogate code (chars "\\u" ++ text) =
      if 0xDC00 ≤ low ∧ low < 0xE000 then
        .ok (0x10000 + (code - 0xD800) * 0x400 + (low - 0xDC00), rest)
      else fail .invalidUnicodeSurrogate := by
  rw [parseSurrogate_backslash, h]
  rfl

theorem encodeUtf8_of_hex4 {code : ℕ} {text : Bytes} (h : parseHex4 text = .ok (some code, rest)) :
    encodeUtf8 text =
      (if 0xD800 ≤ code ∧ code < 0xDC00 then parseSurrogate code rest else .ok (code, rest)) >>=
        fun r ↦ pushUtf8 r.1 >>= fun bytes ↦ .ok (bytes, r.2) := by
  rw [encodeUtf8, h]
  change (if 0xD800 ≤ code ∧ code < 0xDC00 then
      parseSurrogate code rest >>= fun r ↦ pushUtf8 r.1 >>= fun bytes ↦ .ok (bytes, r.2)
    else pushUtf8 code >>= fun bytes ↦ .ok (bytes, rest)) = _
  split_ifs <;> rfl

/-- An escaped code point is read back, folded into plane 1. -/
theorem encodeUtf8_pushCode (c : Char) (rest : Bytes) : ∃ text,
    pushCode c.toNat ++ rest = chars "\\u" ++ text ∧
      encodeUtf8 text = .ok (String.utf8EncodeChar (foldPlane c), rest) := by
  have hmax := c.toNat_lt
  by_cases h : c.toNat < 0x10000
  · refine ⟨stringifyHex4 c.toNat ++ rest, ?_, ?_⟩
    · rw [pushCode, if_pos h, append_assoc]
    · have hs := c.not_surrogate
      rw [encodeUtf8_of_hex4 (parseHex4_stringifyHex4 h), if_neg (by omega), foldPlane_of_lt h]
      change (pushUtf8 c.toNat >>= _) = _
      rw [pushUtf8_toNat (by omega)]
      rfl
  · -- The high half is `code & 0xFFFF`; the surrogate pair of the code point has `code - 0x10000`.
    have hand : c.toNat &&& 0xFFFF = c.toNat % 0x10000 := Nat.and_two_pow_sub_one_eq_mod c.toNat 16
    have hfold := toNat_foldPlane (Nat.not_lt.mp h)
    refine ⟨stringifyHex4 (c.toNat % 0x10000 / 0x400 + 0xD800) ++
      (chars "\\u" ++ (stringifyHex4 (c.toNat % 0x10000 % 0x400 + 0xDC00) ++ rest)), ?_, ?_⟩
    · rw [pushCode, if_neg h]
      simp only [hand, append_assoc]
    · have hcode : 0x10000 + (c.toNat % 0x10000 / 0x400 + 0xD800 - 0xD800) * 0x400 +
          (c.toNat % 0x10000 % 0x400 + 0xDC00 - 0xDC00) = (foldPlane c).toNat := by
        omega
      rw [encodeUtf8_of_hex4 (parseHex4_stringifyHex4 (by omega)), if_pos (by omega),
        parseSurrogate_chars (parseHex4_stringifyHex4 (by omega)), if_pos (by omega), hcode]
      change (pushUtf8 (foldPlane c).toNat >>= _) = _
      rw [pushUtf8_toNat (by omega)]
      rfl

/-! ## Parsing a string -/

theorem parseChars_backslash (e : UInt8) :
    parseChars (fuel + 1) (chr '\\' :: e :: rest) stack = match unescape e with
      | some c => parseChars fuel rest (stack ++ [c])
      | none =>
        if e = chr 'u' then encodeUtf8 rest >>= fun r ↦ parseChars fuel r.2 (stack ++ r.1)
        else fail .invalidStringEscape :=
  rfl

theorem parseChars_escape {e c : UInt8} (he : unescape e = some c) :
    parseChars (fuel + 1) (chr '\\' :: e :: rest) stack = parseChars fuel rest (stack ++ [c]) := by
  rw [parseChars_backslash, he]

theorem parseChars_unicode {text bytes : Bytes} (h : encodeUtf8 text = .ok (bytes, rest)) :
    parseChars (fuel + 1) (chars "\\u" ++ text) stack = parseChars fuel rest (stack ++ bytes) := by
  rw [parseChars]
  change (encodeUtf8 text >>= fun r ↦ parseChars fuel r.2 (stack ++ r.1)) = _
  rw [h]
  rfl

/-- A printable ASCII character stands for itself. -/
theorem parseChars_plain {b : UInt8} (h₀ : ¬(b = 0 ∨ b = chr '\"')) (h₁ : b ≠ chr '\\')
    (h₂ : ¬b < 0x20) :
    parseChars (fuel + 1) (b :: rest) stack = parseChars fuel rest (stack ++ [b]) := by
  rw [parseChars]
  change (if b = 0 ∨ b = chr '\"' then _ else _) = _
  rw [if_neg h₀, if_neg h₁, if_neg h₂]
  rfl

/-- The ways in which the byte of an ASCII character is printed. -/
inductive AsciiCase (b : UInt8) : Option Bytes → Prop
  | escape (e : UInt8) (he : unescape e = some b) : AsciiCase b (some [chr '\\', e])
  | plain (h₀ : ¬(b = 0 ∨ b = chr '\"')) (h₁ : b ≠ chr '\\') (h₂ : ¬b < 0x20) :
      AsciiCase b (some [b])
  | other (h : 0x20 ≤ b → ¬(b = 0 ∨ b = chr '\"') ∧ b ≠ chr '\\') : AsciiCase b none

theorem shortEscape_cases (b : UInt8) : AsciiCase b (shortEscape b) := by
  unfold shortEscape
  split_ifs with h₁ h₂ h₃ h₄ h₅ h₆ h₇ h₈
  · subst h₁
    exact .escape (chr 'b') (by decide)
  · subst h₂
    exact .escape (chr 'f') (by decide)
  · subst h₃
    exact .escape (chr 'n') (by decide)
  · subst h₄
    exact .escape (chr 'r') (by decide)
  · subst h₅
    exact .escape (chr 't') (by decide)
  · subst h₆
    exact .plain (by decide) (by decide) (by decide)
  · subst h₇
    exact .escape (chr '\"') (by decide)
  · subst h₈
    exact .escape (chr '\\') (by decide)
  · refine .other fun h ↦ ⟨?_, h₈⟩
    rintro (rfl | hq)
    · exact absurd h (by decide)
    · exact h₇ hq

/-- One round of `parse_string_raw` reads back one character. -/
theorem parseChars_printed (c : Char) (rest stack : Bytes) :
    parseChars (fuel + 1) (printed c ++ rest) stack =
      parseChars fuel rest (stack ++ String.utf8EncodeChar (foldPlane c)) := by
  obtain ⟨text, htext, hencode⟩ := encodeUtf8_pushCode c rest
  by_cases hascii : c.toNat < 0x80
  · rw [printed, if_pos hascii]
    have hfold : String.utf8EncodeChar (foldPlane c) = [UInt8.ofNat c.toNat] := by
      rw [foldPlane_of_lt (by omega), utf8EncodeChar_one hascii]
    have hbyte : UInt8.ofNat c.toNat < 0x20 ↔ c.toNat < 0x20 := by
      rw [UInt8.lt_iff_toNat_lt, toNat_ofNat_byte (by omega)]
      rfl
    generalize hshort : shortEscape (UInt8.ofNat c.toNat) = short
    have hcase := shortEscape_cases (UInt8.ofNat c.toNat)
    rw [hshort] at hcase
    cases hcase with
    | escape e he =>
      rw [hfold]
      exact parseChars_escape he
    | plain h₀ h₁ h₂ =>
      rw [hfold]
      exact parseChars_plain h₀ h₁ h₂
    | other h =>
      by_cases hctrl : c.toNat < 0x20
      · simp only [if_pos hctrl]
        rw [htext, parseChars_unicode hencode]
      · have hge : ¬UInt8.ofNat c.toNat < 0x20 := hbyte.not.mpr hctrl
        obtain ⟨h₀, h₁⟩ := h (not_lt.mp hge)
        simp only [if_neg hctrl]
        rw [hfold]
        exact parseChars_plain h₀ h₁ hge
  · have hprinted : printed c = pushCode c.toNat := if_neg hascii
    rw [hprinted, htext, parseChars_unicode hencode]

/-- The loop of `parse_string_raw` reads back a printed text, up to the quotation mark. -/
theorem parseChars_flatMap (cs : List Char) (hfuel : cs.length < fuel) :
    parseChars fuel (cs.flatMap printed ++ (chars "\"" ++ rest)) stack =
      .ok (stack ++ utf8 (cs.map foldPlane), chars "\"" ++ rest) := by
  induction cs generalizing fuel stack with
  | nil =>
    cases fuel with
    | zero => exact absurd hfuel (Nat.not_lt_zero _)
    | succ fuel =>
      rw [map_nil, utf8_nil, append_nil]
      rfl
  | cons c cs ih =>
    cases fuel with
    | zero => exact absurd hfuel (Nat.not_lt_zero _)
    | succ fuel =>
      rw [flatMap_cons, append_assoc, parseChars_printed,
        ih (Nat.lt_of_succ_lt_succ hfuel), map_cons, utf8_cons, append_assoc]

/-! ## The bytes of a printed text -/

theorem zero_notMem_stringifyHex4 (code : ℕ) : 0 ∉ stringifyHex4 code := by
  have hdigit : ∀ x < 16, (0 : UInt8) ≠ hexDigit x := by decide
  have hmod : ∀ x, (0 : UInt8) ≠ hexDigit (x % 16) := fun x ↦ hdigit _ (Nat.mod_lt _ (by decide))
  rw [stringifyHex4]
  simp only [mem_cons, not_mem_nil, or_false, not_or]
  exact ⟨hmod _, hmod _, hmod _, hmod _⟩

theorem zero_notMem_pushCode (code : ℕ) : 0 ∉ pushCode code := by
  have hu : 0 ∉ chars "\\u" := by decide
  rw [pushCode]
  split_ifs
  · rw [mem_append, not_or]
    exact ⟨hu, zero_notMem_stringifyHex4 _⟩
  · simp only [mem_append, not_or]
    exact ⟨⟨hu, zero_notMem_stringifyHex4 _⟩, hu, zero_notMem_stringifyHex4 _⟩

theorem pushCode_ne_nil (code : ℕ) : pushCode code ≠ [] := by
  rw [pushCode]
  split_ifs
  · exact cons_ne_nil _ _
  · exact cons_ne_nil _ _

/-- The text of a character is not empty and has no NUL. -/
theorem printed_spec (c : Char) : printed c ≠ [] ∧ 0 ∉ printed c := by
  have hpush : pushCode c.toNat ≠ [] ∧ 0 ∉ pushCode c.toNat :=
    ⟨pushCode_ne_nil _, zero_notMem_pushCode _⟩
  by_cases hascii : c.toNat < 0x80
  · rw [printed, if_pos hascii]
    generalize hshort : shortEscape (UInt8.ofNat c.toNat) = short
    have hcase := shortEscape_cases (UInt8.ofNat c.toNat)
    rw [hshort] at hcase
    cases hcase with
    | escape e he =>
      refine ⟨cons_ne_nil _ _, fun h ↦ ?_⟩
      rcases mem_cons.mp h with h | h
      · exact absurd h (by decide)
      · have hzero : unescape 0 = none := by decide
        rw [← mem_singleton.mp h, hzero] at he
        cases he
    | plain h₀ h₁ h₂ =>
      exact ⟨cons_ne_nil _ _, fun h ↦ h₀ (Or.inl (mem_singleton.mp h).symm)⟩
    | other h =>
      by_cases hctrl : c.toNat < 0x20
      · simp only [if_pos hctrl]
        exact hpush
      · simp only [if_neg hctrl]
        refine ⟨cons_ne_nil _ _, fun h ↦ ?_⟩
        have hzero : (UInt8.ofNat c.toNat).toNat = 0 := by
          rw [← mem_singleton.mp h]
          rfl
        rw [toNat_ofNat_byte (by omega)] at hzero
        omega
  · have hprinted : printed c = pushCode c.toNat := if_neg hascii
    rw [hprinted]
    exact hpush

theorem zero_notMem_quoted (cs : List Char) : 0 ∉ quoted cs := by
  have hquote : 0 ∉ chars "\"" := by decide
  rw [quoted, mem_append, mem_append, not_or, not_or]
  refine ⟨⟨hquote, fun h ↦ ?_⟩, hquote⟩
  obtain ⟨c, -, hc⟩ := mem_flatMap.mp h
  exact (printed_spec c).2 hc

theorem length_le_length_flatMap_printed (cs : List Char) :
    cs.length ≤ (cs.flatMap printed).length := by
  induction cs with
  | nil => exact le_rfl
  | cons c cs ih =>
    have hpos := length_pos_of_ne_nil (printed_spec c).1
    rw [flatMap_cons, length_append, length_cons]
    omega

/-- **Printed text, parsed.** The characters come back, folded into planes 0 and 1. -/
theorem parseString_quoted (cs : List Char) (rest : Bytes) :
    parseString (quoted cs ++ rest) = .ok (utf8 (cs.map foldPlane), rest) := by
  have htail : (quoted cs ++ rest).tail = cs.flatMap printed ++ (chars "\"" ++ rest) := by
    rw [quoted, append_assoc, append_assoc]
    rfl
  have hfuel : cs.length < (cs.flatMap printed ++ (chars "\"" ++ rest)).length := by
    have hle := length_le_length_flatMap_printed cs
    rw [length_append]
    change _ < _ + (rest.length + 1)
    omega
  rw [parseString, parseStringRaw, htail, parseChars_flatMap cs hfuel, nil_append]
  rfl

/-! ## Printed and parsed -/

/-- What a string becomes when it is printed and parsed. -/
def echo (s : Bytes) : Bytes :=
  match stringifyStringRaw s with
  | .error _ => []
  | .ok text =>
    match parseString (text ++ [0]) with
    | .error _ => []
    | .ok r => r.1

theorem echo_utf8 (cs : List Char) : echo (utf8 cs) =
    if (utf8 (kept cs)).length < 2 ^ 31 then utf8 ((kept cs).map foldPlane) else [] := by
  rw [echo, stringifyStringRaw_utf8]
  by_cases hlt : (utf8 (kept cs)).length < 2 ^ 31
  · rw [if_pos hlt, if_pos hlt]
    change (match parseString (quoted (kept cs) ++ [0]) with | .error _ => [] | .ok r => r.1) = _
    rw [parseString_quoted]
  · rw [if_neg hlt, if_neg hlt]

/-- The text that is printed for a string is read as its echo. -/
theorem quoted_of_stringifyStringRaw {text : Bytes} (h : stringifyStringRaw (utf8 cs) = .ok text) :
    ∃ cs', text = quoted cs' ∧ utf8 (cs'.map foldPlane) = echo (utf8 cs) := by
  rw [stringifyStringRaw_utf8] at h
  rw [echo_utf8]
  split_ifs at h ⊢
  cases h
  exact ⟨kept cs, rfl, rfl⟩

theorem charsBelow_length (cs : List Char) : charsBelow (utf8 cs).length cs = cs := by
  induction cs with
  | nil => rfl
  | cons c cs ih =>
    have hlength : ((utf8 (c :: cs)).length : ℤ) = c.utf8Size + (utf8 cs).length := by
      rw [utf8_cons, length_append, String.length_utf8EncodeChar, Nat.cast_add]
    have hpos := c.utf8Size_pos
    rw [charsBelow, if_pos (by omega), hlength, add_sub_cancel_left, ih]

theorem kept_of_lt (h : (utf8 cs).length < 2 ^ 31) : kept cs = cs := by
  rw [kept, toInt_of_lt h, charsBelow_length]

theorem stringifyStringRaw_of_lt (h : (utf8 cs).length < 2 ^ 31) :
    stringifyStringRaw (utf8 cs) = .ok (quoted cs) := by
  rw [stringifyStringRaw_utf8, kept_of_lt h, if_pos h]

theorem length_map_foldPlane (cs : List Char) :
    (utf8 (cs.map foldPlane)).length = (utf8 cs).length := by
  induction cs with
  | nil => rfl
  | cons c cs ih =>
    rw [map_cons, utf8_cons, utf8_cons, length_append, length_append, ih,
      String.length_utf8EncodeChar, String.length_utf8EncodeChar, utf8Size_foldPlane]

theorem echo_of_lt (h : (utf8 cs).length < 2 ^ 31) : echo (utf8 cs) = utf8 (cs.map foldPlane) := by
  rw [echo_utf8, kept_of_lt h, if_pos h]

theorem length_echo_lt (cs : List Char) : (echo (utf8 cs)).length < 2 ^ 31 := by
  rw [echo_utf8]
  split_ifs with hlt
  · rwa [length_map_foldPlane]
  · decide

/-- **The strings that come back.** They have fewer than `2 ^ 31` bytes and no character from
U+20000 on. -/
theorem echo_eq_self_iff (cs : List Char) :
    echo (utf8 cs) = utf8 cs ↔ (utf8 cs).length < 2 ^ 31 ∧ ∀ c ∈ cs, c.toNat < 0x20000 := by
  constructor
  · intro h
    have hlt := length_echo_lt cs
    rw [h] at hlt
    rw [echo_of_lt hlt] at h
    exact ⟨hlt, map_foldPlane_eq_self_iff.mp (utf8_injective h)⟩
  · rintro ⟨hlt, hplane⟩
    rw [echo_of_lt hlt, map_foldPlane_eq_self_iff.mpr hplane]

/-- A string that was printed and parsed does not change any more. -/
theorem echo_echo (cs : List Char) : echo (echo (utf8 cs)) = echo (utf8 cs) := by
  have hlt := length_echo_lt cs
  rw [echo_utf8] at hlt ⊢
  split_ifs at hlt ⊢ with hfits
  · refine (echo_eq_self_iff _).mpr ⟨hlt, fun c hc ↦ ?_⟩
    obtain ⟨d, -, rfl⟩ := mem_map.mp hc
    exact toNat_foldPlane_lt d
  · decide

end Json

end Fishnet

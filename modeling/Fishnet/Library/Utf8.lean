import Mathlib.Tactic

/-!
# UTF-8

A byte string is a list of `UInt8`, compared as `memcmp` does, by unsigned bytes. It is well-formed
UTF-8 when it is `utf8 cs` for some list of characters; `Char` is the type of Unicode scalar values,
and `String.utf8EncodeChar` is their encoding. `utf8Decode` goes back.

For arithmetic on the encoded bytes there is one equation for each of the four lengths.
-/

/-- Bytes are ordered as unsigned numbers. -/
instance instLinearOrderByte : LinearOrder UInt8 where
  le_refl _ := UInt8.le_refl _
  le_trans _ _ _ := UInt8.le_trans
  le_antisymm _ _ := UInt8.le_antisymm
  le_total := UInt8.le_total
  lt_iff_le_not_ge a b := by
    rw [UInt8.lt_iff_toNat_lt, UInt8.le_iff_toNat_le, UInt8.le_iff_toNat_le]
    omega
  toDecidableLE := inferInstance

theorem UInt8.forall_of_lt {P : UInt8 → Prop} (h : ∀ n < 256, P (UInt8.ofNat n)) (b : UInt8) :
    P b := by
  have hb := h b.toNat (UInt8.toNat_lt b)
  rwa [UInt8.ofNat_toNat] at hb

/-- The encoding of a text. -/
def utf8 (cs : List Char) : List UInt8 := cs.flatMap String.utf8EncodeChar

@[simp] theorem utf8_nil : utf8 [] = [] := rfl

@[simp] theorem utf8_cons (c : Char) (cs : List Char) :
    utf8 (c :: cs) = String.utf8EncodeChar c ++ utf8 cs := rfl

theorem utf8_append (cs cs' : List Char) : utf8 (cs ++ cs') = utf8 cs ++ utf8 cs' :=
  List.flatMap_append

/-- The text that a byte string encodes, if it is well-formed. -/
def utf8Decode (s : List UInt8) : Option (List Char) :=
  s.toByteArray.utf8Decode?.map Array.toList

@[simp] theorem utf8Decode_utf8 (cs : List Char) : utf8Decode (utf8 cs) = some cs := by
  have h := List.utf8Decode?_utf8Encode (l := cs)
  rw [List.utf8Encode] at h
  rw [utf8Decode, utf8, h, Option.map_some, List.toList_toArray]

theorem utf8_injective : Function.Injective utf8 := by
  intro cs cs' h
  have hdecode := utf8Decode_utf8 cs
  rw [h, utf8Decode_utf8] at hdecode
  exact (Option.some.inj hdecode).symm

theorem length_le_length_utf8 (cs : List Char) : cs.length ≤ (utf8 cs).length := by
  induction cs with
  | nil => exact le_rfl
  | cons c cs ih =>
    have hpos := c.utf8Size_pos
    rw [utf8_cons, List.length_append, String.length_utf8EncodeChar, List.length_cons]
    omega

/-! ## Code points -/

theorem Char.toNat_lt (c : Char) : c.toNat < 0x110000 := by
  rcases c.valid with h | ⟨-, h⟩
  · exact h.trans (by decide)
  · exact h

theorem Char.not_surrogate (c : Char) : c.toNat < 0xD800 ∨ 0xDFFF < c.toNat := by
  rcases c.valid with h | ⟨h, -⟩
  · exact Or.inl h
  · exact Or.inr h

theorem Char.toNat_ofNat_of_isValidChar {n : ℕ} (h : n.isValidChar) : (Char.ofNat n).toNat = n := by
  rw [Char.ofNat, dif_pos h]
  rfl

section Encoding

variable {c : Char}

theorem utf8EncodeChar_one (h : c.toNat < 0x80) :
    String.utf8EncodeChar c = [UInt8.ofNat c.toNat] := by
  have h' : c.val.toNat ≤ 0x7f := Nat.le_of_lt_succ h
  simp only [String.utf8EncodeChar, if_pos h']
  rfl

theorem utf8EncodeChar_two (h₁ : 0x80 ≤ c.toNat) (h₂ : c.toNat < 0x800) :
    String.utf8EncodeChar c =
      [UInt8.ofNat (c.toNat / 64 % 32 + 0xC0), UInt8.ofNat (c.toNat % 64 + 0x80)] := by
  have h : ¬c.val.toNat ≤ 0x7f := Nat.not_le.mpr h₁
  have h' : c.val.toNat ≤ 0x7ff := Nat.le_of_lt_succ h₂
  simp only [String.utf8EncodeChar, if_neg h, if_pos h']
  rfl

theorem utf8EncodeChar_three (h₁ : 0x800 ≤ c.toNat) (h₂ : c.toNat < 0x10000) :
    String.utf8EncodeChar c =
      [UInt8.ofNat (c.toNat / 4096 % 16 + 0xE0), UInt8.ofNat (c.toNat / 64 % 64 + 0x80),
        UInt8.ofNat (c.toNat % 64 + 0x80)] := by
  have h : ¬c.val.toNat ≤ 0x7f := Nat.not_le.mpr (lt_of_lt_of_le (by decide) h₁)
  have h' : ¬c.val.toNat ≤ 0x7ff := Nat.not_le.mpr h₁
  have h'' : c.val.toNat ≤ 0xffff := Nat.le_of_lt_succ h₂
  simp only [String.utf8EncodeChar, if_neg h, if_neg h', if_pos h'']
  rfl

theorem utf8EncodeChar_four (h₁ : 0x10000 ≤ c.toNat) :
    String.utf8EncodeChar c =
      [UInt8.ofNat (c.toNat / 262144 % 8 + 0xF0), UInt8.ofNat (c.toNat / 4096 % 64 + 0x80),
        UInt8.ofNat (c.toNat / 64 % 64 + 0x80), UInt8.ofNat (c.toNat % 64 + 0x80)] := by
  have h : ¬c.val.toNat ≤ 0x7f := Nat.not_le.mpr (lt_of_lt_of_le (by decide) h₁)
  have h' : ¬c.val.toNat ≤ 0x7ff := Nat.not_le.mpr (lt_of_lt_of_le (by decide) h₁)
  have h'' : ¬c.val.toNat ≤ 0xffff := Nat.not_le.mpr h₁
  simp only [String.utf8EncodeChar, if_neg h, if_neg h', if_neg h'']
  rfl

end Encoding

import Fishnet.Json.RoundTrip

/-!
# The parser stops at the first NUL

The functions of the parser read a text of which they do not know the length. They rely on the NUL
at its end: each of them looks at one character at a time, and goes on only after one that is not
NUL. So on a text that contains a NUL the parser reads nothing outside the text, and its fuel is
enough: it returns a value or reports a failure (`parse_safe`). Nothing is assumed of the C library
here.

`Keeps text r` says that `r` is what is left of `text` after characters that are not NUL.

## Main results

* `Json.parse_within_text`: no character behind the first NUL is read.
-/

namespace Fishnet

open List

namespace Json

variable {N : Type} [Number N] {α β : Type} {fuel : ℕ} {text r : Bytes}

/-! ## Outcomes inside the text -/

/-- The outcome is a result with `Q`, or a failure that is reported. -/
def Safe (x : Except Stop α) (Q : α → Prop) : Prop :=
  (∃ a, x = .ok a ∧ Q a) ∨ ∃ r, x = .error (.ret r)

theorem safe_ok {a : α} {Q : α → Prop} (h : Q a) : Safe (.ok a) Q := Or.inl ⟨a, rfl, h⟩

theorem safe_fail (r : Ret) (Q : α → Prop) : Safe (fail r) Q := Or.inr ⟨r, rfl⟩

theorem Safe.bind {x : Except Stop α} {f : α → Except Stop β} {P : α → Prop} {Q : β → Prop}
    (hx : Safe x P) (hf : ∀ a, P a → Safe (f a) Q) : Safe (x >>= f) Q := by
  obtain ⟨a, rfl, ha⟩ | ⟨r, rfl⟩ := hx
  · exact hf a ha
  · exact Or.inr ⟨r, rfl⟩

theorem Safe.imp {x : Except Stop α} {P Q : α → Prop} (hx : Safe x P) (h : ∀ a, P a → Q a) :
    Safe x Q :=
  hx.imp_left fun ⟨a, ha, hP⟩ ↦ ⟨a, ha, h a hP⟩

/-- What is left of a text with a NUL in it. -/
structure Keeps (text r : Bytes) : Prop where
  terminated : 0 ∈ r
  length_le : r.length ≤ text.length

theorem Keeps.refl (h : 0 ∈ text) : Keeps text text := ⟨h, le_rfl⟩

theorem Keeps.trans {s : Bytes} (h : Keeps text r) (h' : Keeps r s) : Keeps text s :=
  ⟨h'.terminated, h'.length_le.trans h.length_le⟩

theorem Keeps.tail {c : UInt8} (h : 0 ∈ c :: text) (hc : c ≠ 0) : Keeps (c :: text) text :=
  ⟨(mem_cons.mp h).resolve_left hc.symm, Nat.le_succ _⟩

theorem safe_deref {f : UInt8 → Except Stop β} {Q : β → Prop} (h : 0 ∈ text)
    (hf : ∀ c t, text = c :: t → Safe (f c) Q) : Safe (deref text >>= f) Q := by
  cases text with
  | nil => cases h
  | cons c t => exact hf c t rfl

/-! ## Tokens -/

theorem parseWhitespace_safe (h : 0 ∈ text) : Safe (parseWhitespace text) (Keeps text) := by
  induction text with
  | nil => cases h
  | cons c t ih =>
    rw [parseWhitespace]
    split_ifs with hc
    · have hne : c ≠ 0 := by
        rcases hc with rfl | rfl | rfl | rfl <;> decide
      have ht := Keeps.tail h hne
      exact (ih ht.terminated).imp fun _ ↦ ht.trans
    · exact safe_ok (Keeps.refl h)

theorem parseLiteral_safe {literal : Bytes} (hl : 0 ∉ literal) (h : 0 ∈ text) :
    Safe (parseLiteral text literal) (Keeps text) := by
  induction literal generalizing text with
  | nil => exact safe_ok (Keeps.refl h)
  | cons c literal ih =>
    obtain ⟨hc, hl⟩ := ne_and_not_mem_of_not_mem_cons hl
    refine safe_deref h ?_
    rintro x t rfl
    split_ifs with hx
    · exact safe_fail _ _
    · have ht := Keeps.tail h (by rw [not_not.mp hx]; exact hc.symm)
      exact (ih hl ht.terminated).imp fun _ ↦ ht.trans

theorem whitespace_deref_safe {f : Bytes → UInt8 → Except Stop β} {Q : β → Prop}
    (h : 0 ∈ text) (hf : ∀ c t, Keeps text (c :: t) → Safe (f (c :: t) c) Q) :
    Safe (parseWhitespace text >>= fun t ↦ deref t >>= f t) Q := by
  refine (parseWhitespace_safe h).bind fun t ht ↦ safe_deref ht.terminated ?_
  rintro c t' rfl
  exact hf c t' ht

theorem ne_zero_of_isdigit {c : UInt8} (h : isdigit c) : c ≠ 0 := by
  rintro rfl
  exact absurd h (by decide)

section

variable (h : 0 ∈ text)
include h

theorem skipDigits_safe : Safe (skipDigits text) (Keeps text) := by
  induction text with
  | nil => cases h
  | cons c t ih =>
    rw [skipDigits]
    split_ifs with hc
    · have ht := Keeps.tail h (ne_zero_of_isdigit hc)
      exact (ih ht.terminated).imp fun _ ↦ ht.trans
    · exact safe_ok (Keeps.refl h)

theorem scanDigits_safe : Safe (scanDigits text) (Keeps text) := by
  refine safe_deref h ?_
  rintro c t rfl
  split_ifs with hc
  · have ht := Keeps.tail h (ne_zero_of_isdigit hc)
    exact (skipDigits_safe ht.terminated).imp fun _ ↦ ht.trans
  · exact safe_fail _ _

theorem scanInteger_safe : Safe (scanInteger text) (Keeps text) := by
  refine safe_deref h ?_
  rintro c t rfl
  split_ifs with hc
  · exact safe_ok (Keeps.tail h (by rw [hc]; decide))
  · exact scanDigits_safe h

theorem scanFraction_safe : Safe (scanFraction text) (Keeps text) := by
  refine safe_deref h ?_
  rintro c t rfl
  split_ifs with hc
  · have ht := Keeps.tail h (by rw [hc]; decide)
    exact (scanDigits_safe ht.terminated).imp fun _ ↦ ht.trans
  · exact safe_ok (Keeps.refl h)

theorem scanExponent_safe : Safe (scanExponent text) (Keeps text) := by
  refine safe_deref h ?_
  rintro c t rfl
  split_ifs with hc
  · have ht : Keeps (c :: t) t := Keeps.tail h (by rcases hc with rfl | rfl <;> decide)
    refine safe_deref ht.terminated ?_
    rintro sign t' rfl
    split_ifs with hsign
    · have ht' := ht.trans (Keeps.tail ht.terminated (by rcases hsign with rfl | rfl <;> decide))
      exact (scanDigits_safe ht'.terminated).imp fun _ ↦ ht'.trans
    · exact (scanDigits_safe ht.terminated).imp fun _ ↦ ht.trans
  · exact safe_ok (Keeps.refl h)

theorem parseNumber_safe : Safe (parseNumber text) fun r : N × Bytes ↦ Keeps text r.2 := by
  refine safe_deref h ?_
  rintro c t rfl
  have hsign : Keeps (c :: t) (if c = chr '-' then t else c :: t) := by
    split_ifs with hc
    · exact Keeps.tail h (by rw [hc]; decide)
    · exact Keeps.refl h
  refine (scanInteger_safe hsign.terminated).bind fun p₁ h₁ ↦ ?_
  refine (scanFraction_safe h₁.terminated).bind fun p₂ h₂ ↦ ?_
  refine (scanExponent_safe h₂.terminated).bind fun p₃ h₃ ↦ ?_
  dsimp only
  split_ifs
  · exact safe_fail _ _
  · exact safe_ok (((hsign.trans h₁).trans h₂).trans h₃)

/-! ## Strings -/

theorem parseHex_safe {i code : ℕ} :
    Safe (parseHex i code text) fun r ↦ r.1 ≠ none → Keeps text r.2 := by
  induction i generalizing code text with
  | zero => exact safe_ok fun _ ↦ Keeps.refl h
  | succ i ih =>
    rw [parseHex]
    refine safe_deref h ?_
    rintro ch t rfl
    cases hhex : ch2hex ch with
    | none => exact safe_ok fun hne ↦ absurd rfl hne
    | some x =>
      have hne : ch ≠ 0 := by
        rintro rfl
        rw [show ch2hex 0 = none from rfl] at hhex
        cases hhex
      have ht := Keeps.tail h hne
      exact (ih ht.terminated).imp fun _ hr hsome ↦ ht.trans (hr hsome)

theorem parseSurrogate_safe {code : ℕ} :
    Safe (parseSurrogate code text) fun r ↦ Keeps text r.2 := by
  refine safe_deref h ?_
  rintro c t rfl
  split_ifs with hc
  · exact safe_fail _ _
  · have ht := Keeps.tail h (by rw [not_not.mp hc]; decide)
    refine safe_deref ht.terminated ?_
    rintro c' t' rfl
    split_ifs with hc'
    · exact safe_fail _ _
    · have ht' := ht.trans (Keeps.tail ht.terminated (by rw [not_not.mp hc']; decide))
      refine (parseHex_safe ht'.terminated).bind ?_
      rintro ⟨code', r⟩ hr
      cases code' with
      | none => exact safe_fail _ _
      | some low =>
        dsimp only
        split_ifs
        · exact safe_ok (ht'.trans (hr (Option.some_ne_none low)))
        · exact safe_fail _ _

end

theorem pushUtf8_safe (code : ℕ) : Safe (pushUtf8 code) fun _ ↦ True := by
  rw [pushUtf8]
  split_ifs
  · exact safe_ok trivial
  · exact safe_ok trivial
  · exact safe_ok trivial
  · exact safe_ok trivial
  · exact safe_fail _ _

theorem encodeUtf8_safe (h : 0 ∈ text) : Safe (encodeUtf8 text) fun r ↦ Keeps text r.2 := by
  obtain ⟨⟨code, r⟩, hhex, hr⟩ | ⟨ret, hret⟩ : Safe (parseHex4 text) _ := parseHex_safe h
  · cases code with
    | none =>
      rw [encodeUtf8, hhex]
      exact safe_fail _ _
    | some code =>
      have ht := hr (Option.some_ne_none code)
      rw [encodeUtf8_of_hex4 hhex]
      have hpair : Safe (if 0xD800 ≤ code ∧ code < 0xDC00 then parseSurrogate code r
          else .ok (code, r)) fun r ↦ Keeps text r.2 := by
        split_ifs
        · exact (parseSurrogate_safe ht.terminated).imp fun _ ↦ ht.trans
        · exact safe_ok ht
      exact hpair.bind fun _ hp ↦ (pushUtf8_safe _).bind fun _ _ ↦ safe_ok hp
  · rw [encodeUtf8, hret]
    exact Or.inr ⟨ret, rfl⟩

theorem parseChars_safe {stack : Bytes} (h : 0 ∈ text) (hfuel : text.length ≤ fuel) :
    Safe (parseChars fuel text stack) fun r ↦ Keeps text r.2 := by
  -- a round takes a character, so the fuel never falls below the length
  induction fuel generalizing text stack with
  | zero =>
    rw [length_eq_zero_iff.mp (Nat.le_zero.mp hfuel)] at h
    cases h
  | succ fuel ih =>
    have hnext {s t stack' : Bytes} (hs : Keeps text s) (hlt : s.length < text.length)
        (ht : Keeps s t) :
        Safe (parseChars fuel t stack') fun r ↦ Keeps text r.2 := by
      have hle := ht.length_le
      exact (ih ht.terminated (by omega)).imp fun _ ↦ (hs.trans ht).trans
    rw [parseChars]
    refine safe_deref h ?_
    rintro ch t rfl
    split_ifs with hend hback hctrl
    · exact safe_ok (Keeps.refl h)
    · have ht := Keeps.tail h (by rw [hback]; decide)
      refine safe_deref ht.terminated ?_
      rintro e t' rfl
      cases hun : unescape e with
      | some c =>
        have hne : e ≠ 0 := by
          rintro rfl
          rw [show unescape 0 = none from rfl] at hun
          cases hun
        exact hnext ht (Nat.lt_succ_self _) (Keeps.tail ht.terminated hne)
      | none =>
        dsimp only
        split_ifs with hu
        · have ht' := Keeps.tail ht.terminated (by rw [hu]; decide)
          refine (encodeUtf8_safe ht'.terminated).bind fun r hr ↦ ?_
          exact hnext ht (Nat.lt_succ_self _) (ht'.trans hr)
        · exact safe_fail _ _
    · exact safe_fail _ _
    · have ht := Keeps.tail h fun hzero ↦ hend (Or.inl hzero)
      exact hnext ht (Nat.lt_succ_self _) (Keeps.refl ht.terminated)

theorem parseString_safe {t : Bytes} (h : 0 ∈ chr '\"' :: t) :
    Safe (parseString (chr '\"' :: t)) fun r ↦ Keeps (chr '\"' :: t) r.2 := by
  have ht := Keeps.tail h (by decide)
  refine (parseChars_safe ht.terminated le_rfl).bind fun r hr ↦ ?_
  refine safe_deref hr.terminated fun c r' heq ↦ ?_
  split_ifs with hquote
  · exact safe_fail _ _
  · rw [heq] at hr ⊢
    have hr' := Keeps.tail hr.terminated (by rw [not_not.mp hquote]; decide)
    exact safe_ok ((ht.trans hr).trans hr')

theorem parseKey_safe (h : 0 ∈ text) : Safe (parseKey text) fun r ↦ Keeps text r.2 := by
  refine safe_deref h ?_
  rintro c t rfl
  split_ifs with hquote
  · exact safe_fail _ _
  · rw [not_not.mp hquote] at h ⊢
    obtain ⟨a, ha, hkeeps⟩ | ⟨r, hr⟩ := parseString_safe h
    · rw [ha]
      exact safe_ok hkeeps
    · rw [hr]
      exact safe_fail _ _

theorem parseKeyColon_safe (h : 0 ∈ text) : Safe (parseKeyColon text) fun r ↦ Keeps text r.2 := by
  refine (parseKey_safe h).bind fun k hk ↦ whitespace_deref_safe hk.terminated fun c t ht ↦ ?_
  split_ifs with hc
  · exact safe_fail _ _
  · exact safe_ok ((hk.trans ht).trans (Keeps.tail ht.terminated (by rw [not_not.mp hc]; decide)))

/-! ## Values -/

variable (N) in
/-- With this fuel, the three functions of the parser stay inside a text that is not too long for
it. -/
structure StaysInside (fuel : ℕ) : Prop where
  value : ∀ text, 0 ∈ text → 2 * text.length ≤ fuel →
    Safe (parseText fuel text) fun r : Json N × Bytes ↦ Keeps text r.2
  elements : ∀ acc text, 0 ∈ text → 2 * text.length < fuel →
    Safe (parseElements fuel acc text) fun r : List (Json N) × Bytes ↦ Keeps text r.2
  members : ∀ acc text, 0 ∈ text → 2 * text.length < fuel →
    Safe (parseMembers fuel acc text) fun r : List (Bytes × Json N) × Bytes ↦ Keeps text r.2

omit [Number N] in
/-- An array or an object from its opening bracket on. `loop` reads what is inside. -/
theorem bracket_safe {β : Type} {c close : UInt8} {t : Bytes} {ret : Ret} {empty : β}
    {loop : Bytes → Except Stop (β × Bytes)} (f : β → Json N) (h : 0 ∈ c :: t)
    (hc : c ≠ 0)
    (hloop : ∀ s, 0 ∈ s → s.length ≤ t.length → Safe (loop s) fun r ↦ Keeps s r.2) :
    Safe (parseWhitespace t >>= fun s ↦ deref s >>= fun d ↦
      if d = 0 then fail ret else if d = close then .ok (f empty, s.tail)
      else loop s >>= fun r ↦ pure (f r.1, r.2)) fun r ↦ Keeps (c :: t) r.2 := by
  have htail := Keeps.tail h hc
  refine whitespace_deref_safe htail.terminated fun d s hs ↦ ?_
  split_ifs with hzero hclose
  · exact safe_fail _ _
  · exact safe_ok ((htail.trans hs).trans (Keeps.tail hs.terminated hzero))
  · refine (hloop _ hs.terminated hs.length_le).bind fun r hr ↦ ?_
    exact safe_ok ((htail.trans hs).trans hr)

omit [Number N] in
/-- What follows an element or a member. `f` reads what comes after a comma. -/
theorem separator_safe {β : Type} {rest : Bytes} {close : UInt8} {ret : Ret} {result : β}
    {f : Bytes → Except Stop (β × Bytes)} (h : Keeps text rest) (hclose : close ≠ 0)
    (hf : ∀ s, Keeps text s → s.length < rest.length → Safe (f s) fun r ↦ Keeps s r.2) :
    Safe (parseWhitespace rest >>= fun s ↦ deref s >>= fun d ↦
      if d = close then .ok (result, s.tail) else if d ≠ chr ',' then fail ret
      else f s.tail) fun r ↦ Keeps text r.2 := by
  refine whitespace_deref_safe h.terminated fun c t ht ↦ ?_
  have hlength := ht.length_le
  rw [length_cons] at hlength
  have htail (hc : c ≠ 0) : Keeps text t := (h.trans ht).trans (Keeps.tail ht.terminated hc)
  split_ifs with hend hcomma
  · exact safe_ok (htail (hend ▸ hclose))
  · exact safe_fail _ _
  · have ht' := htail (by rw [not_not.mp hcomma]; decide)
    exact (hf t ht' (by omega)).imp fun _ ↦ ht'.trans

theorem parseText_safe (ih : StaysInside N fuel) (h : 0 ∈ text)
    (hfuel : 2 * text.length ≤ fuel + 1) :
    Safe (parseText (fuel + 1) text) fun r : Json N × Bytes ↦ Keeps text r.2 := by
  rw [parseText]
  refine whitespace_deref_safe h fun c t ht ↦ ?_
  have hlength := ht.length_le
  rw [length_cons] at hlength
  split_ifs with hzero hnull htrue hfalse hquote hsquare hcurly
  · exact safe_fail _ _
  · exact (parseLiteral_safe (by decide) ht.terminated).bind fun _ hr ↦ safe_ok (ht.trans hr)
  · exact (parseLiteral_safe (by decide) ht.terminated).bind fun _ hr ↦ safe_ok (ht.trans hr)
  · exact (parseLiteral_safe (by decide) ht.terminated).bind fun _ hr ↦ safe_ok (ht.trans hr)
  · rw [hquote] at ht ⊢
    exact (parseString_safe ht.terminated).bind fun _ hr ↦ safe_ok (ht.trans hr)
  · refine (bracket_safe array ht.terminated hzero fun s hs hle ↦ ?_).imp fun _ ↦ ht.trans
    exact ih.elements [] s hs (by omega)
  · refine (bracket_safe object ht.terminated hzero fun s hs hle ↦ ?_).imp fun _ ↦ ht.trans
    exact ih.members [] s hs (by omega)
  · exact (parseNumber_safe ht.terminated).bind fun _ hr ↦ safe_ok (ht.trans hr)

theorem parseElements_safe (ih : StaysInside N fuel) (acc : List (Json N)) (h : 0 ∈ text)
    (hfuel : 2 * text.length < fuel + 1) :
    Safe (parseElements (fuel + 1) acc text) fun r : List (Json N) × Bytes ↦ Keeps text r.2 := by
  rw [parseElements]
  refine (ih.value text h (by omega)).bind fun r hr ↦ ?_
  have hlength := hr.length_le
  exact separator_safe hr (by decide) fun t ht hlt ↦ ih.elements _ t ht.terminated (by omega)

theorem parseMembers_safe (ih : StaysInside N fuel) (acc : List (Bytes × Json N))
    (h : 0 ∈ text) (hfuel : 2 * text.length < fuel + 1) :
    Safe (parseMembers (fuel + 1) acc text) fun r : List (Bytes × Json N) × Bytes ↦
      Keeps text r.2 := by
  rw [parseMembers]
  refine (parseKeyColon_safe h).bind fun k hk ↦ ?_
  have hlengthKey := hk.length_le
  refine (ih.value k.2 hk.terminated (by omega)).bind fun r hr ↦ ?_
  have hlength := hr.length_le
  refine separator_safe (f := fun t ↦ parseWhitespace t >>= parseMembers fuel _) (hk.trans hr)
    (show chr '\x7d' ≠ 0 by decide) fun t ht hlt ↦ ?_
  refine (parseWhitespace_safe ht.terminated).bind fun s hs ↦ ?_
  have hlength' := hs.length_le
  exact (ih.members _ s hs.terminated (by omega)).imp fun _ ↦ hs.trans

theorem staysInside (fuel : ℕ) : StaysInside N fuel := by
  induction fuel with
  | zero =>
    refine ⟨fun text h hfuel ↦ ?_, fun acc text _ hfuel ↦ absurd hfuel (Nat.not_lt_zero _),
      fun acc text _ hfuel ↦ absurd hfuel (Nat.not_lt_zero _)⟩
    cases text with
    | nil => cases h
    | cons c t =>
      rw [length_cons] at hfuel
      omega
  | succ fuel ih =>
    exact ⟨fun _ h hfuel ↦ parseText_safe ih h hfuel,
      fun acc _ h hfuel ↦ parseElements_safe ih acc h hfuel,
      fun acc _ h hfuel ↦ parseMembers_safe ih acc h hfuel⟩

/-- **Terminated texts.** On a text with a NUL in it, `parse` returns a value or reports a failure.
-/
theorem parse_safe (h : 0 ∈ text) : Safe (parse text : Except Stop (Json N)) fun _ ↦ True := by
  refine ((staysInside _).value text h le_rfl).bind fun r hr ↦ ?_
  refine whitespace_deref_safe hr.terminated fun c t _ ↦ ?_
  split_ifs
  · exact safe_fail _ _
  · exact safe_ok trivial

/-! ## The characters that are read -/

variable (N) in
/-- The parser dereferences the character at index `i`. In a memory that ends right before this
character, it then reads outside. -/
def Dereferences (text : Bytes) (i : ℕ) : Prop :=
  (parse (text.take i) : Except Stop (Json N)) = .error (.fault .badAccess)

theorem Dereferences.le_idxOf {i : ℕ} (h : 0 ∈ text) (hi : Dereferences N text i) :
    i ≤ text.idxOf 0 := by
  by_contra hlt
  -- a memory that ends behind the NUL is enough
  have hmem : 0 ∈ text.take i := mem_take_iff_idxOf_lt h |>.mpr (not_le.mp hlt)
  obtain ⟨json, hjson, -⟩ | ⟨r, hr⟩ := parse_safe (N := N) hmem
  · rw [Dereferences, hjson] at hi
    cases hi
  · rw [Dereferences, hr] at hi
    cases hi

/-- **The parser stays within the text.** On a text with a NUL in it, `parse` returns a value or
reports a failure, and every character that it dereferences is at most at the index of the first
NUL. `strtod` may be any function. -/
theorem parse_within_text (text : Bytes) (h : 0 ∈ text) :
    ((∃ json, (parse text : Except Stop (Json N)) = .ok json) ∨
        ∃ r, (parse text : Except Stop (Json N)) = .error (.ret r)) ∧
      ∀ i, Dereferences N text i → i ≤ text.idxOf 0 := by
  refine ⟨?_, fun i hi ↦ hi.le_idxOf h⟩
  obtain ⟨json, hjson, -⟩ | hreported := parse_safe (N := N) h
  · exact Or.inl ⟨json, hjson⟩
  · exact Or.inr hreported

/-- A string that ends in the middle of an escape. The parser reads the NUL and not the quotation
mark behind it. -/
theorem parse_within_text_escape :
    (parse [34, 92, 117, 0, 34] : Except Stop (Json ℤ)) = .error (.ret .invalidUnicodeHex) ∧
      Dereferences ℤ [34, 92, 117, 0, 34] 3 ∧
      ∀ i, Dereferences ℤ [34, 92, 117, 0, 34] i → i ≤ 3 :=
  ⟨rfl, rfl, (parse_within_text [34, 92, 117, 0, 34] (by decide)).2⟩

end Json

end Fishnet

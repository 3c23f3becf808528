import Fishnet.Json.Grammar

/-!
# Strings of the grammar, parsed

What `parse_string` does with a string of the grammar. It reads the bytes that the string stands for
if the string is `Accepted`: each high surrogate is followed by a low one, and no pair stands for
U+10FFFF. Any other string is refused. The second condition is not one of the grammar: `encode_utf8`
compares the code point with `0x10FFFF` by `<`.

Conversely the parser reads nothing but strings of the grammar.

## Main results

* `Json.parseString_answers`: the strings of the grammar, parsed.
* `Json.parseString_eq_ok`: what is parsed is a string of the grammar.
-/

namespace Fishnet

open Grammar List

namespace Json

/-! ## Outcomes -/

section Answers

variable {α β : Type} {p q : Prop} {x : Except Stop α} {a : α}

/-- The outcome is `a` if `p` holds, and else a failure that is reported. -/
def Answers (p : Prop) (x : Except Stop α) (a : α) : Prop :=
  (p → x = .ok a) ∧ (¬p → ∃ r, x = .error (.ret r))

theorem answers_of_ok (h : x = .ok a) : Answers True x a := ⟨fun _ ↦ h, fun hp ↦ absurd trivial hp⟩

theorem answers_of_ret {r : Ret} (h : x = .error (.ret r)) : Answers False x a :=
  ⟨False.elim, fun _ ↦ ⟨r, h⟩⟩

theorem Answers.congr (h : Answers p x a) (hpq : q ↔ p) : Answers q x a := by
  rwa [← propext hpq] at h

theorem Answers.bind {f : α → Except Stop β} {b : β} (hx : Answers p x a) (hf : Answers q (f a) b) :
    Answers (p ∧ q) (x >>= f) b := by
  refine ⟨fun hpq ↦ ?_, fun hpq ↦ ?_⟩
  · rw [hx.1 hpq.1]
    exact hf.1 hpq.2
  · by_cases hp : p
    · rw [hx.1 hp]
      exact hf.2 fun hq ↦ hpq ⟨hp, hq⟩
    · obtain ⟨r, hr⟩ := hx.2 hp
      exact ⟨r, by rw [hr]; rfl⟩

theorem Answers.bind_ok {f : α → Except Stop β} {b : β} (hx : Answers p x a) (hf : f a = .ok b) :
    Answers p (x >>= f) b :=
  (hx.bind (answers_of_ok hf)).congr (iff_of_eq (and_true p)).symm

theorem Answers.holds {b : α} (h : Answers p x a) (hx : x = .ok b) : p ∧ b = a := by
  by_cases hp : p
  · exact ⟨hp, Except.ok.inj (hx.symm.trans (h.1 hp))⟩
  · obtain ⟨r, hr⟩ := h.2 hp
    rw [hr] at hx
    cases hx

theorem Answers.exists_ok_iff (h : Answers p x a) : (∃ b, x = .ok b) ↔ p :=
  ⟨fun ⟨_, hb⟩ ↦ (h.holds hb).1, fun hp ↦ ⟨a, h.1 hp⟩⟩

end Answers

/-! ## Strings that are accepted -/

/-- The strings that `parse_string` accepts. -/
def Accepted (items : List Item) : Prop := Paired items ∧ ¬HasTop items

variable {items : List Item} {hi lo u : Hex4} {rest : Bytes} {fuel : ℕ}

theorem accepted_nil : Accepted [] := by
  refine ⟨fun hi rest h ↦ ?_, fun ⟨hi, lo, rest, h, _⟩ ↦ ?_⟩ <;> cases suffix_nil.mp h

theorem accepted_cons {x : Item} (hx : ∀ hi, x = .unicode hi → ¬hi.High) :
    Accepted (x :: items) ↔ Accepted items := by
  have htop : ¬∃ hi lo rest, x = .unicode hi ∧ items = .unicode lo :: rest ∧ hi.code = 0xDBFF ∧
      lo.code = 0xDFFF := by
    rintro ⟨hi, lo, rest, hxhi, -, hcode, -⟩
    exact hx hi hxhi ⟨by omega, by omega⟩
  rw [Accepted, paired_cons, hasTop_cons, or_iff_right htop, Accepted,
    and_iff_right fun hi hxhi hhi ↦ absurd hhi (hx hi hxhi)]

theorem codePoint_eq_top_iff (hhi : hi.High) (hlo : lo.Low) :
    codePoint hi lo = 0x10FFFF ↔ hi.code = 0xDBFF ∧ lo.code = 0xDFFF := by
  obtain ⟨h₁, h₂⟩ := hhi
  obtain ⟨h₃, h₄⟩ := hlo
  unfold codePoint
  omega

theorem codePoint_lt (hhi : hi.High) (hlo : lo.Low) : codePoint hi lo < 0x110000 := by
  obtain ⟨h₁, h₂⟩ := hhi
  obtain ⟨h₃, h₄⟩ := hlo
  unfold codePoint
  omega

theorem accepted_pair (hhi : hi.High) (hlo : lo.Low) :
    Accepted (.unicode hi :: .unicode lo :: items) ↔ codePoint hi lo ≠ 0x10FFFF ∧
      Accepted items := by
  have hlow : ∀ u, Item.unicode lo = .unicode u → ¬u.High := by
    rintro u heq hu
    obtain rfl := Item.unicode.inj heq
    exact absurd hu.2 (Nat.not_lt.mpr hlo.1)
  have htop : (∃ hi' lo' rest, Item.unicode hi = .unicode hi' ∧
      Item.unicode lo :: items = .unicode lo' :: rest ∧ hi'.code = 0xDBFF ∧ lo'.code = 0xDFFF) ↔
      codePoint hi lo = 0x10FFFF := by
    rw [codePoint_eq_top_iff hhi hlo]
    constructor
    · rintro ⟨hi', lo', rest, h₁, h₂, hcodes⟩
      obtain rfl := Item.unicode.inj h₁
      obtain rfl := Item.unicode.inj (List.cons.inj h₂).1
      exact hcodes
    · exact fun hcodes ↦ ⟨hi, lo, items, rfl, rfl, hcodes⟩
  have hstarts : ∀ hi', Item.unicode hi = .unicode hi' → hi'.High →
      StartsLow (.unicode lo :: items) := fun _ _ _ ↦ ⟨lo, items, rfl, hlo⟩
  rw [Accepted, paired_cons, hasTop_cons, htop, not_or, and_iff_right hstarts, and_left_comm]
  exact and_congr_right fun _ ↦ accepted_cons hlow

theorem not_accepted (hhi : hi.High) (hlow : ¬StartsLow items) : ¬Accepted (.unicode hi :: items) :=
  fun h ↦ hlow ((paired_cons.mp h.1).1 hi rfl hhi)

/-! ## Escapes -/

theorem unescape_letter (e : Escape) : unescape e.letter = some e.char := by
  cases e <;> rfl

theorem parseHex4_letters (u : Hex4) (rest : Bytes) :
    parseHex4 (u.letters ++ rest) = .ok (some u.code, rest) :=
  parseHex4_cons u.d₁.letter_spec.1 u.d₂.letter_spec.1 u.d₃.letter_spec.1 u.d₄.letter_spec.1

/-- All code points are encoded except the last one. -/
theorem pushUtf8_answers {code : ℕ} (h : code < 0x110000) :
    Answers (code ≠ 0x10FFFF) (pushUtf8 code) (encodePoint code) := by
  refine ⟨fun htop ↦ ?_, fun htop ↦ ?_⟩
  · rw [encodePoint]
    split_ifs with hvalid
    · have hcode := Char.toNat_ofNat_of_isValidChar hvalid
      have hpush := pushUtf8_toNat (c := Char.ofNat code) (by omega)
      rwa [hcode] at hpush
    · -- a surrogate is encoded as if it were a character
      have hsurrogate : 0xD800 ≤ code ∧ code < 0xE000 := by
        rw [Nat.isValidChar] at hvalid
        omega
      have hlead : ∀ x, 0xE0 ||| (0x0F &&& x) = x % 16 + 0xE0 := or_mask 14 4
      have htail : ∀ x, 0x80 ||| (0x3F &&& x) = x % 64 + 0x80 := or_mask 2 6
      have hdiv : code / 2 ^ 12 % 16 + 0xE0 = 0xE0 + code / 4096 := by omega
      have hdiv' : code / 2 ^ 6 % 64 + 0x80 = 0x80 + code / 64 % 64 := by omega
      have hmod : code % 64 + 0x80 = 0x80 + code % 64 := Nat.add_comm _ _
      rw [pushUtf8, if_neg (by omega), if_neg (by omega), if_pos (by omega), hlead, htail, htail,
        Nat.shiftRight_eq_div_pow, Nat.shiftRight_eq_div_pow, hdiv, hdiv', hmod]
  · rw [not_not.mp htop]
    exact ⟨.invalidUnicodeHex, rfl⟩

theorem encodeUtf8_letters (u : Hex4) (rest : Bytes) :
    encodeUtf8 (u.letters ++ rest) =
      (if u.High then parseSurrogate u.code rest else .ok (u.code, rest)) >>=
        fun r ↦ pushUtf8 r.1 >>= fun bytes ↦ .ok (bytes, r.2) :=
  encodeUtf8_of_hex4 (parseHex4_letters u rest)

theorem pushUtf8_bind_answers {code : ℕ} (h : code < 0x110000) (rest : Bytes) :
    Answers (code ≠ 0x10FFFF)
      ((Except.ok (code, rest) : Except Stop (ℕ × Bytes)) >>= fun r ↦
        pushUtf8 r.1 >>= fun bytes ↦ .ok (bytes, r.2)) (encodePoint code, rest) :=
  (pushUtf8_answers h).bind_ok rfl

theorem encodeUtf8_single (hu : ¬u.High) (rest : Bytes) :
    encodeUtf8 (u.letters ++ rest) = .ok (encodePoint u.code, rest) := by
  have hlt := u.code_lt
  rw [encodeUtf8_letters, if_neg hu]
  exact (pushUtf8_bind_answers (by omega) rest).1 (by omega)

theorem encodeUtf8_pair (hhi : hi.High) (hlo : lo.Low) (rest : Bytes) :
    Answers (codePoint hi lo ≠ 0x10FFFF)
      (encodeUtf8 (hi.letters ++ ((Item.unicode lo).render ++ rest)))
      (encodePoint (codePoint hi lo), rest) := by
  have hsurrogate : parseSurrogate hi.code ((Item.unicode lo).render ++ rest) =
      .ok (codePoint hi lo, rest) := by
    have hrender : (Item.unicode lo).render ++ rest = chars "\\u" ++ (lo.letters ++ rest) := rfl
    rw [hrender, parseSurrogate_chars (parseHex4_letters lo rest)]
    unfold codePoint
    exact if_pos hlo
  rw [encodeUtf8_letters, if_pos hhi, hsurrogate]
  exact pushUtf8_bind_answers (codePoint_lt hhi hlo) rest

/-- A high surrogate that is not followed by a low one is refused. -/
theorem encodeUtf8_unpaired (hhi : hi.High) (hlow : ¬StartsLow items) (rest : Bytes) :
    ∃ r, encodeUtf8 (hi.letters ++ (renderItems items ++ chr '\"' :: rest)) = .error (.ret r) := by
  have hsurrogate : parseSurrogate hi.code (renderItems items ++ chr '\"' :: rest) =
      .error (.ret .invalidUnicodeSurrogate) := by
    cases items with
    | nil => rfl
    | cons x items =>
      rw [renderItems_cons, append_assoc]
      cases x with
      | plain b h =>
        change (if b ≠ chr '\\' then fail .invalidUnicodeSurrogate else _) = _
        rw [if_pos h.2.2]
        rfl
      | escape e => cases e <;> rfl
      | unicode lo =>
        refine (parseSurrogate_chars (parseHex4_letters lo _)).trans (if_neg fun hlo ↦ ?_)
        exact hlow ⟨lo, items, rfl, hlo⟩
  rw [encodeUtf8_letters, if_pos hhi, hsurrogate]
  exact ⟨.invalidUnicodeSurrogate, rfl⟩

/-! ## Strings -/

theorem parseChars_unicode_eq (text stack : Bytes) (fuel : ℕ) :
    parseChars (fuel + 1) (chr '\\' :: chr 'u' :: text) stack =
      encodeUtf8 text >>= fun r ↦ parseChars fuel r.2 (stack ++ r.1) := by
  rw [parseChars]
  rfl

theorem parseChars_quote (rest stack : Bytes) (fuel : ℕ) :
    parseChars (fuel + 1) (chr '\"' :: rest) stack = .ok (stack, chr '\"' :: rest) := by
  rw [parseChars]
  rfl

/-- The loop of `parse_string_raw` over a string of the grammar. -/
theorem parseChars_answers (items : List Item) (stack : Bytes) (hfuel : items.length < fuel) :
    Answers (Accepted items) (parseChars fuel (renderItems items ++ chr '\"' :: rest) stack)
      (stack ++ decode items, chr '\"' :: rest) := by
  -- the induction is on the rounds, since one round can take two escapes
  induction fuel generalizing items stack with
  | zero => exact absurd hfuel (Nat.not_lt_zero _)
  | succ fuel ih =>
    cases items with
    | nil =>
      have hloop := parseChars_quote rest stack fuel
      rw [decode, append_nil]
      exact (answers_of_ok hloop).congr (iff_true_intro accepted_nil)
    | cons x items =>
      have hitems : items.length < fuel := Nat.lt_of_succ_lt_succ hfuel
      rw [renderItems_cons, append_assoc]
      cases x with
      | plain b h =>
        have hzero : ¬(b = 0 ∨ b = chr '\"') := by
          rintro (rfl | rfl)
          · exact absurd h.1 (by decide)
          · exact h.2.1 rfl
        have hloop := ih items (stack ++ [b]) hitems
        rw [← parseChars_plain hzero h.2.2 (not_lt.mpr h.1), append_assoc] at hloop
        exact hloop.congr (accepted_cons fun _ heq ↦ by cases heq)
      | escape e =>
        have hloop := ih items (stack ++ [e.char]) hitems
        rw [← parseChars_escape (unescape_letter e), append_assoc] at hloop
        exact hloop.congr (accepted_cons fun _ heq ↦ by cases heq)
      | unicode u =>
        change Answers _ (parseChars (fuel + 1) (chr '\\' :: chr 'u' :: (u.letters ++
          (renderItems items ++ chr '\"' :: rest))) stack) _
        rw [parseChars_unicode_eq]
        by_cases hu : u.High
        · by_cases hlow : StartsLow items
          · obtain ⟨lo, items, rfl, hlo⟩ := hlow
            have hpair := encodeUtf8_pair hu hlo (renderItems items ++ chr '\"' :: rest)
            have haccepted : Accepted (.unicode u :: .unicode lo :: items) ↔ _ :=
              accepted_pair hu hlo
            rw [decode_pair hu hlo, renderItems_cons, append_assoc, ← append_assoc stack]
            generalize codePoint u lo = code at hpair haccepted ⊢
            exact (hpair.bind (ih items _ (Nat.lt_of_succ_lt hitems))).congr haccepted
          · obtain ⟨r, hr⟩ := encodeUtf8_unpaired hu hlow rest
            rw [hr]
            exact (answers_of_ret rfl).congr (iff_false_intro (not_accepted hu hlow))
        · have hnot : ∀ hi, Item.unicode u = .unicode hi → ¬hi.High := by
            rintro hi heq
            rwa [← Item.unicode.inj heq]
          rw [encodeUtf8_single hu, decode_unicode hu, ← append_assoc stack]
          exact (ih items _ hitems).congr (accepted_cons hnot)

theorem length_le_length_renderItems (items : List Item) :
    items.length ≤ (renderItems items).length := by
  induction items with
  | nil => exact le_rfl
  | cons x items ih =>
    have hpos : 0 < x.render.length := by cases x <;> exact Nat.succ_pos _
    rw [renderItems_cons, length_append, length_cons]
    omega

/-- **Strings, parsed.** -/
theorem parseString_answers (items : List Item) (rest : Bytes) :
    Answers (Accepted items) (parseString (renderString items ++ rest)) (decode items, rest) := by
  have hfuel : items.length < (renderItems items ++ chr '\"' :: rest).length := by
    have hle := length_le_length_renderItems items
    rw [length_append, length_cons]
    omega
  have hassoc : renderString items ++ rest =
      chr '\"' :: (renderItems items ++ chr '\"' :: rest) := by
    rw [renderString, cons_append, append_assoc]
    rfl
  rw [hassoc, parseString, parseStringRaw]
  exact (parseChars_answers items [] hfuel).bind_ok rfl

/-! ## What is parsed is a string of the grammar -/

theorem exists_escape {e c : UInt8} (h : unescape e = some c) : ∃ x : Escape, x.letter = e := by
  rw [unescape] at h
  split_ifs at h with h₁ h₂ h₃ h₄ h₅ h₆ h₇ h₈
  · exact ⟨.backspace, h₁.symm⟩
  · exact ⟨.formFeed, h₂.symm⟩
  · exact ⟨.lineFeed, h₃.symm⟩
  · exact ⟨.carriageReturn, h₄.symm⟩
  · exact ⟨.tab, h₅.symm⟩
  · exact ⟨.solidus, h₆.symm⟩
  · exact ⟨.quotationMark, h₇.symm⟩
  · exact ⟨.reverseSolidus, h₈.symm⟩

theorem exists_hexDigit {ch : UInt8} {x : ℕ} (h : ch2hex ch = some x) :
    ∃ d : HexDigit, d.letter = ch ∧ d.value.val = x := by
  have hall : ∀ n < 256, ∀ x ∈ ch2hex (UInt8.ofNat n), ∃ (v : Fin 16) (b : Bool),
      HexDigit.letter ⟨v, b⟩ = UInt8.ofNat n ∧ v.val = x := by
    decide +kernel
  obtain ⟨v, b, hd⟩ := UInt8.forall_of_lt (P := fun ch ↦ ∀ x ∈ ch2hex ch, ∃ (v : Fin 16) (b : Bool),
    HexDigit.letter ⟨v, b⟩ = ch ∧ v.val = x) hall ch x h
  exact ⟨⟨v, b⟩, hd⟩

theorem parseHex_succ_eq_ok {i code x : ℕ} {text r : Bytes}
    (h : parseHex (i + 1) code text = .ok (some x, r)) : ∃ (d : HexDigit) (text' : Bytes),
      text = d.letter :: text' ∧ parseHex i (code * 16 + d.value.val) text' = .ok (some x, r) := by
  rw [parseHex] at h
  obtain ⟨ch, hch, h⟩ := bind_eq_ok.mp h
  obtain ⟨text, rfl⟩ := deref_eq_ok.mp hch
  cases hhex : ch2hex ch with
  | none =>
    simp only [hhex] at h
    cases h
  | some y =>
    obtain ⟨d, rfl, rfl⟩ := exists_hexDigit hhex
    simp only [hhex, Nat.shiftLeft_eq] at h
    exact ⟨d, text, rfl, h⟩

theorem parseHex4_eq_ok {text r : Bytes} {code : ℕ} (h : parseHex4 text = .ok (some code, r)) :
    ∃ u : Hex4, text = u.letters ++ r ∧ u.code = code := by
  obtain ⟨d₁, text₁, rfl, h₁⟩ := parseHex_succ_eq_ok h
  obtain ⟨d₂, text₂, rfl, h₂⟩ := parseHex_succ_eq_ok h₁
  obtain ⟨d₃, text₃, rfl, h₃⟩ := parseHex_succ_eq_ok h₂
  obtain ⟨d₄, text₄, rfl, h₄⟩ := parseHex_succ_eq_ok h₃
  obtain ⟨hcode, rfl⟩ := Prod.mk.inj (Except.ok.inj h₄)
  refine ⟨⟨d₁, d₂, d₃, d₄⟩, rfl, ?_⟩
  rw [← Option.some.inj hcode, Hex4.code, Nat.zero_mul, Nat.zero_add]

theorem parseSurrogate_eq_ok {code : ℕ} {text : Bytes} {r : ℕ × Bytes}
    (h : parseSurrogate code text = .ok r) : ∃ u : Hex4, text = (Item.unicode u).render ++ r.2 := by
  obtain ⟨c, hc, h⟩ := bind_eq_ok.mp h
  obtain ⟨text, rfl⟩ := deref_eq_ok.mp hc
  split_ifs at h with hback
  · cases h
  · obtain ⟨c', hc', h⟩ := bind_eq_ok.mp h
    obtain ⟨text, rfl⟩ := deref_eq_ok.mp hc'
    split_ifs at h with hu
    · cases h
    · obtain ⟨⟨code', r'⟩, hhex, h⟩ := bind_eq_ok.mp h
      cases code' with
      | none => cases h
      | some low =>
        obtain ⟨u, htext, -⟩ := parseHex4_eq_ok hhex
        dsimp only at h
        split_ifs at h
        · obtain rfl := Except.ok.inj h
          refine ⟨u, ?_⟩
          rw [not_not.mp hback, not_not.mp hu]
          exact congrArg (chr '\\' :: chr 'u' :: ·) htext
        · cases h

/-- After `\u` there are the digits of an escape, and after a high surrogate there is another. -/
theorem encodeUtf8_eq_ok {text : Bytes} {r : Bytes × Bytes} (h : encodeUtf8 text = .ok r) :
    ∃ (u : Hex4) (items : List Item), text = u.letters ++ (renderItems items ++ r.2) := by
  have hencode := h
  rw [encodeUtf8] at h
  obtain ⟨⟨code, r₁⟩, hhex, h⟩ := bind_eq_ok.mp h
  cases code with
  | none => cases h
  | some code =>
    obtain ⟨u, rfl, -⟩ := parseHex4_eq_ok hhex
    rw [encodeUtf8_letters] at hencode
    obtain ⟨r₂, hsurrogate, hencode⟩ := bind_eq_ok.mp hencode
    obtain ⟨bytes, -, hencode⟩ := bind_eq_ok.mp hencode
    obtain rfl := Except.ok.inj hencode
    split_ifs at hsurrogate
    · obtain ⟨lo, rfl⟩ := parseSurrogate_eq_ok hsurrogate
      exact ⟨u, [.unicode lo], by rw [renderItems_cons, append_assoc]; rfl⟩
    · exact ⟨u, [], by rw [← Except.ok.inj hsurrogate]; rfl⟩

theorem renderItems_append (items items' : List Item) :
    renderItems (items ++ items') = renderItems items ++ renderItems items' := flatMap_append

theorem parseChars_eq_ok {text stack : Bytes} {r : Bytes × Bytes}
    (h : parseChars fuel text stack = .ok r) : ∃ items, text = renderItems items ++ r.2 := by
  induction fuel generalizing text stack with
  | zero => cases h
  | succ fuel ih =>
    rw [parseChars] at h
    obtain ⟨ch, hch, h⟩ := bind_eq_ok.mp h
    obtain ⟨text, rfl⟩ := deref_eq_ok.mp hch
    split_ifs at h with hend hback hctrl
    · exact ⟨[], by rw [← Except.ok.inj h]; rfl⟩
    · obtain ⟨e, he, h⟩ := bind_eq_ok.mp h
      obtain ⟨text, rfl⟩ := deref_eq_ok.mp he
      rw [hback]
      cases hun : unescape e with
      | some c =>
        simp only [hun] at h
        obtain ⟨items, htext⟩ := ih h
        obtain ⟨x, rfl⟩ := exists_escape hun
        exact ⟨.escape x :: items, congrArg (chr '\\' :: x.letter :: ·) htext⟩
      | none =>
        simp only [hun] at h
        split_ifs at h with hu
        · obtain ⟨r₁, henc, h⟩ := bind_eq_ok.mp h
          obtain ⟨items₂, hr₁⟩ := ih h
          obtain ⟨u, items₁, htext⟩ := encodeUtf8_eq_ok henc
          refine ⟨.unicode u :: (items₁ ++ items₂), ?_⟩
          rw [renderItems_cons, renderItems_append, append_assoc, append_assoc, ← hr₁, hu]
          exact congrArg (chr '\\' :: chr 'u' :: ·) htext
        · cases h
    · cases h
    · obtain ⟨items, htext⟩ := ih h
      have hplain : 0x20 ≤ ch ∧ ch ≠ chr '\"' ∧ ch ≠ chr '\\' :=
        ⟨not_lt.mp hctrl, fun hquote ↦ hend (Or.inr hquote), hback⟩
      exact ⟨.plain ch hplain :: items, congrArg (ch :: ·) htext⟩

/-- **Strings, recognised.** -/
theorem parseString_eq_ok {text : Bytes} {r : Bytes × Bytes}
    (h : parseString (chr '\"' :: text) = .ok r) :
    ∃ items, chr '\"' :: text = renderString items ++ r.2 := by
  obtain ⟨r₁, hloop, h⟩ := bind_eq_ok.mp h
  obtain ⟨c, hc, h⟩ := bind_eq_ok.mp h
  obtain ⟨text', hr₁⟩ := deref_eq_ok.mp hc
  split_ifs at h with hquote
  · cases h
  · obtain ⟨items, htext⟩ := parseChars_eq_ok hloop
    refine ⟨items, ?_⟩
    rw [← Except.ok.inj h, renderString, cons_append, append_assoc]
    refine congrArg (chr '\"' :: ·) (htext.trans ?_)
    rw [hr₁, not_not.mp hquote]
    rfl

end Json

end Fishnet

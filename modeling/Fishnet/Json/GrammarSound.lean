import Fishnet.Json.GrammarParse

/-!
# What is parsed is a text of the grammar

The converse of `Json.parse_answers`: whatever `parse` accepts is derived by the grammar. Only the
text is followed here and not the value that is built. The value comes from `Json.parse_answers`:
the text that is accepted has a derivation, and a text with a derivation is read as the value that
it denotes, or refused.

By the same argument all derivations of an accepted text denote the same value, so that the grammar
gives it one meaning.

## Main results

* `Json.recognises`: the three functions of the parser take the texts of the grammar.
* `Json.parse_eq_ok`: an accepted text is derived by the grammar.
* `Json.parse_sound`: and its value is the one that the grammar denotes.
-/

namespace Fishnet

open Grammar List

namespace Json

variable {N : Type} [Number N] {fuel : ℕ} {text rest : Bytes}

/-! ## Tokens -/

theorem parseWhitespace_eq_ok {r : Bytes} (h : parseWhitespace text = .ok r) :
    ∃ ws : Ws, text = ws.1 ++ r := by
  induction text with
  | nil => cases h
  | cons c text ih =>
    rw [parseWhitespace] at h
    split_ifs at h with hc
    · obtain ⟨⟨w, hw⟩, rfl⟩ := ih h
      refine ⟨⟨c :: w, fun d hd ↦ ?_⟩, rfl⟩
      rcases mem_cons.mp hd with rfl | hd
      · exact hc
      · exact hw d hd
    · exact ⟨⟨[], fun _ hd ↦ absurd hd not_mem_nil⟩, Except.ok.inj h⟩

theorem parseLiteral_eq_ok {literal r : Bytes} (h : parseLiteral text literal = .ok r) :
    text = literal ++ r := by
  induction literal generalizing text with
  | nil => exact Except.ok.inj h
  | cons c literal ih =>
    obtain ⟨x, hx, h⟩ := bind_eq_ok.mp h
    obtain ⟨t, rfl⟩ := deref_eq_ok.mp hx
    split_ifs at h with hne
    · cases h
    · rw [not_not.mp hne]
      exact congrArg (c :: ·) (ih h)

theorem whitespace_deref_eq_ok {α : Type} {f : Bytes → UInt8 → Except Stop α} {a : α}
    (h : (parseWhitespace text >>= fun t ↦ deref t >>= f t) = .ok a) :
    ∃ (ws : Ws) (c : UInt8) (t : Bytes), text = ws.1 ++ c :: t ∧ f (c :: t) c = .ok a := by
  obtain ⟨t', hws, hderef⟩ := bind_eq_ok.mp h
  obtain ⟨c, hc, hf⟩ := bind_eq_ok.mp hderef
  obtain ⟨ws, rfl⟩ := parseWhitespace_eq_ok hws
  obtain ⟨t, rfl⟩ := deref_eq_ok.mp hc
  exact ⟨ws, c, t, rfl, hf⟩

/-! ## Values -/

variable (N) in
/-- With this fuel, whatever the three functions of the parser take is derived by the grammar. -/
structure Recognises (fuel : ℕ) : Prop where
  value : ∀ (text : Bytes) (r : Json N × Bytes), parseText fuel text = .ok r →
    ∃ (ws : Ws) (v : Value), text = ws.1 ++ (v.render ++ r.2)
  elements : ∀ (acc : List (Json N)) (text : Bytes) (r : List (Json N) × Bytes),
    parseElements fuel acc text = .ok r →
      ∃ (ws : Ws) (es : Elements), text = ws.1 ++ (es.render ++ chr ']' :: r.2)
  members : ∀ (acc : List (Bytes × Json N)) (text : Bytes) (r : List (Bytes × Json N) × Bytes),
    parseMembers fuel acc text = .ok r → ∃ ms : Members, text = ms.render ++ chr '\x7d' :: r.2

/-- White space in two parts. -/
def joinWs (ws ws' : Ws) : Ws :=
  ⟨ws.1 ++ ws'.1, fun c hc ↦ (mem_append.mp hc).elim (ws.2 c) (ws'.2 c)⟩

section

variable (h : Recognises N fuel)
include h

theorem parseArray_eq_ok {r : Json N × Bytes}
    (harray : parseArray (fun text ↦ parseElements fuel [] text) (chr '[' :: text) = .ok r) :
    ∃ v : Value, chr '[' :: text = v.render ++ r.2 := by
  obtain ⟨ws, c, t, htext, harray⟩ := whitespace_deref_eq_ok harray
  rw [tail_cons] at htext
  split_ifs at harray with hzero hsquare
  · cases harray
  · refine ⟨.emptyArray ws, ?_⟩
    rw [htext, hsquare, ← Except.ok.inj harray, Value.render, cons_append, append_assoc]
    rfl
  · obtain ⟨r', hloop, harray⟩ := bind_eq_ok.mp harray
    obtain ⟨ws', es, hes⟩ := h.elements [] _ r' hloop
    refine ⟨.array (joinWs ws ws') es, ?_⟩
    rw [htext, hes, ← Except.ok.inj harray]
    simp only [Value.render, joinWs, cons_append, append_assoc, nil_append]

theorem parseObject_eq_ok {r : Json N × Bytes}
    (hobject : parseObject (fun text ↦ parseMembers fuel [] text) (chr '\x7b' :: text) = .ok r) :
    ∃ v : Value, chr '\x7b' :: text = v.render ++ r.2 := by
  obtain ⟨ws, c, t, htext, hobject⟩ := whitespace_deref_eq_ok hobject
  rw [tail_cons] at htext
  split_ifs at hobject with hzero hcurly
  · cases hobject
  · refine ⟨.emptyObject ws, ?_⟩
    rw [htext, hcurly, ← Except.ok.inj hobject, Value.render, cons_append, append_assoc]
    rfl
  · obtain ⟨r', hloop, hobject⟩ := bind_eq_ok.mp hobject
    obtain ⟨ms, hms⟩ := h.members [] _ r' hloop
    refine ⟨.object ws ms, ?_⟩
    rw [htext, hms, ← Except.ok.inj hobject]
    simp only [Value.render, cons_append, append_assoc, nil_append]

/-- `parse_text` goes by the first character, one production for each. -/
theorem parseText_eq_ok {r : Json N × Bytes}
    (hparse : parseText (fuel + 1) text = .ok r) :
    ∃ (ws : Ws) (v : Value), text = ws.1 ++ (v.render ++ r.2) := by
  rw [parseText] at hparse
  obtain ⟨ws, c, t, htext, hparse⟩ := whitespace_deref_eq_ok hparse
  suffices hvalue : ∃ v : Value, c :: t = v.render ++ r.2 by
    obtain ⟨v, hv⟩ := hvalue
    exact ⟨ws, v, by rw [htext, hv]⟩
  split_ifs at hparse with hzero hnull htrue hfalse hquote hsquare hcurly
  · cases hparse
  · obtain ⟨t', hliteral, hparse⟩ := bind_eq_ok.mp hparse
    rw [← Except.ok.inj hparse]
    exact ⟨.null, parseLiteral_eq_ok hliteral⟩
  · obtain ⟨t', hliteral, hparse⟩ := bind_eq_ok.mp hparse
    rw [← Except.ok.inj hparse]
    exact ⟨.boolean true, parseLiteral_eq_ok hliteral⟩
  · obtain ⟨t', hliteral, hparse⟩ := bind_eq_ok.mp hparse
    rw [← Except.ok.inj hparse]
    exact ⟨.boolean false, parseLiteral_eq_ok hliteral⟩
  · obtain ⟨r', hstring, hparse⟩ := bind_eq_ok.mp hparse
    rw [hquote] at hstring ⊢
    obtain ⟨items, hitems⟩ := parseString_eq_ok hstring
    rw [← Except.ok.inj hparse]
    exact ⟨.string items, hitems⟩
  · rw [hsquare] at hparse ⊢
    exact parseArray_eq_ok h hparse
  · rw [hcurly] at hparse ⊢
    exact parseObject_eq_ok h hparse
  · obtain ⟨r', hnumber, hparse⟩ := bind_eq_ok.mp hparse
    obtain ⟨numeral, hnumeral, hgrammar⟩ := parseNumber_eq_ok hnumber
    rw [← Except.ok.inj hparse]
    exact ⟨.number ⟨numeral, hgrammar⟩, hnumeral⟩

theorem parseElements_eq_ok {acc : List (Json N)}
    {r : List (Json N) × Bytes} (hparse : parseElements (fuel + 1) acc text = .ok r) :
    ∃ (ws : Ws) (es : Elements), text = ws.1 ++ (es.render ++ chr ']' :: r.2) := by
  rw [parseElements] at hparse
  obtain ⟨r', hvalue, hparse⟩ := bind_eq_ok.mp hparse
  obtain ⟨ws, v, htext⟩ := h.value _ r' hvalue
  obtain ⟨after, c, t, hr', hparse⟩ := whitespace_deref_eq_ok hparse
  rw [htext, hr']
  refine ⟨ws, ?_⟩
  split_ifs at hparse with hsquare hcomma
  · refine ⟨.last v after, ?_⟩
    rw [hsquare, ← Except.ok.inj hparse, Elements.render, append_assoc]
    rfl
  · cases hparse
  · obtain ⟨before, es, hes⟩ := h.elements _ _ r hparse
    rw [tail_cons] at hes
    refine ⟨.cons v after before es, ?_⟩
    rw [not_not.mp hcomma, hes]
    simp only [Elements.render, cons_append, append_assoc]

end

theorem parseKey_eq_ok {r : Bytes × Bytes} (h : parseKey text = .ok r) :
    ∃ key : List Item, text = renderString key ++ r.2 := by
  obtain ⟨c, hc, hkey⟩ := bind_eq_ok.mp h
  obtain ⟨t, rfl⟩ := deref_eq_ok.mp hc
  split_ifs at hkey with hquote
  · cases hkey
  · -- the failures of `parse_string_raw` are replaced by another one, a success is kept
    have hstring : parseString (c :: t) = .ok r := by
      cases hstring : parseString (c :: t) with
      | ok r' => rwa [hstring] at hkey
      | error e =>
        rw [hstring] at hkey
        cases e <;> cases hkey
    rw [not_not.mp hquote] at hstring ⊢
    exact parseString_eq_ok hstring

theorem parseKeyColon_eq_ok {r : Bytes × Bytes} (h : parseKeyColon text = .ok r) :
    ∃ (key : List Item) (ws : Ws), text = renderString key ++ (ws.1 ++ chr ':' :: r.2) := by
  obtain ⟨r', hkey, h⟩ := bind_eq_ok.mp h
  obtain ⟨key, htext⟩ := parseKey_eq_ok hkey
  obtain ⟨ws, c, t, hr', h⟩ := whitespace_deref_eq_ok h
  split_ifs at h with hcolon
  · cases h
  · refine ⟨key, ws, ?_⟩
    rw [htext, hr', not_not.mp hcolon, ← Except.ok.inj h]
    rfl

theorem parseMembers_eq_ok (h : Recognises N fuel) {acc : List (Bytes × Json N)}
    {r : List (Bytes × Json N) × Bytes} (hparse : parseMembers (fuel + 1) acc text = .ok r) :
    ∃ ms : Members, text = ms.render ++ chr '\x7d' :: r.2 := by
  rw [parseMembers] at hparse
  obtain ⟨k, hkey, hparse⟩ := bind_eq_ok.mp hparse
  obtain ⟨key, ws, htext⟩ := parseKeyColon_eq_ok hkey
  obtain ⟨r', hvalue, hparse⟩ := bind_eq_ok.mp hparse
  obtain ⟨ws', v, hk⟩ := h.value _ r' hvalue
  obtain ⟨after, c, t, hr', hparse⟩ := whitespace_deref_eq_ok hparse
  rw [htext, hk, hr']
  split_ifs at hparse with hcurly hcomma
  · refine ⟨.last key (ws, ws') v after, ?_⟩
    rw [hcurly, ← Except.ok.inj hparse]
    simp only [Members.render, renderKey, append_assoc, cons_append, tail_cons]
  · cases hparse
  · obtain ⟨t', hws, hparse⟩ := bind_eq_ok.mp hparse
    obtain ⟨before, ht⟩ := parseWhitespace_eq_ok hws
    obtain ⟨ms, rfl⟩ := h.members _ _ r hparse
    rw [tail_cons] at ht
    refine ⟨.cons key (ws, ws') v after before ms, ?_⟩
    rw [not_not.mp hcomma, ht]
    simp only [Members.render, renderKey, append_assoc, cons_append]

/-- **Recognition.** -/
theorem recognises (fuel : ℕ) : Recognises N fuel := by
  -- one induction on the fuel for the three functions, each call has one less
  induction fuel with
  | zero =>
    refine ⟨fun text r h ↦ ?_, fun acc text r h ↦ ?_, fun acc text r h ↦ ?_⟩
    · rw [parseText] at h
      cases h
    · rw [parseElements] at h
      cases h
    · rw [parseMembers] at h
      cases h
  | succ fuel ih =>
    exact ⟨fun _ _ h ↦ parseText_eq_ok ih h, fun _ _ _ h ↦ parseElements_eq_ok ih h,
      fun _ _ _ h ↦ parseMembers_eq_ok ih h⟩

/-! ## Texts -/

theorem append_zero_inj {s t r r' : Bytes} (hs : 0 ∉ s) (ht : 0 ∉ t)
    (h : s ++ 0 :: r = t ++ 0 :: r') : s = t := by
  have htake (s r : Bytes) (hs : 0 ∉ s) : cString (s ++ 0 :: r) = s := by
    rw [cString, takeWhile_append_of_pos]
    · rw [takeWhile_cons_of_neg (by decide), append_nil]
    · exact fun c hc ↦ decide_eq_true fun hzero ↦ hs (hzero ▸ hc)
  rw [← htake s r hs, h, htake t r' ht]

/-- What is accepted is derived by the grammar up to a NUL. -/
theorem exists_text_of_parse {text : Bytes} {json : Json N} (h : parse text = .ok json) :
    ∃ (x : Text) (r : Bytes), text = x.render ++ 0 :: r := by
  obtain ⟨r, hvalue, h⟩ := bind_eq_ok.mp h
  obtain ⟨before, v, htext⟩ := (recognises _).value _ r hvalue
  obtain ⟨after, c, t', hr, h⟩ := whitespace_deref_eq_ok h
  split_ifs at h with hzero
  · cases h
  · refine ⟨⟨before, v, after⟩, t', ?_⟩
    rw [htext, hr, not_not.mp hzero]
    simp only [Text.render, append_assoc]

theorem parse_eq_ok {t junk : Bytes} (ht : 0 ∉ t) {json : Json N}
    (h : parse (t ++ 0 :: junk) = .ok json) : ∃ x : Text, x.render = t := by
  obtain ⟨x, r, hrender⟩ := exists_text_of_parse h
  exact ⟨x, (append_zero_inj ht x.zero_notMem_render hrender).symm⟩

/-- **Soundness of the parser.** An accepted text is derived by the grammar, with surrogates in
pairs, and its value is what the derivation denotes, whichever one is taken. -/
theorem parse_sound (hN : Number.ReadsNumeral N) {t : Bytes} (ht : 0 ∉ t) (junk : Bytes)
    {json : Json N} (h : parse (t ++ 0 :: junk) = .ok json) :
    (∃ x : Text, x.render = t ∧ (∀ s ∈ x.value.strings, Paired s) ∧ x.value.denote N = json) ∧
      ∀ x : Text, x.render = t → x.value.denote N = json := by
  have hread (x : Text) (hx : x.render = t) :
      Acceptable N x.value.strings x.value.numerals ∧ json = x.value.denote N := by
    rw [← hx] at h
    exact (parse_answers hN x junk).holds h
  obtain ⟨x, hx⟩ := parse_eq_ok ht h
  refine ⟨⟨x, hx, fun s hs ↦ ((hread x hx).1.1 s hs).1, (hread x hx).2.symm⟩, fun y hy ↦ ?_⟩
  exact (hread y hy).2.symm

/-- A text has one meaning. -/
theorem parse_sound_sampleText :
    (∃ json : Json ℤ, parse (sampleText.render ++ [0]) = .ok json) ∧
      ∀ x : Text, x.render = sampleText.render → x.value.denote ℤ = sampleText.value.denote ℤ := by
  have hparse := (parse_answers Decimal.readsNumeral sampleText []).1 acceptable_sampleText
  exact ⟨⟨_, hparse⟩,
    (parse_sound Decimal.readsNumeral sampleText.zero_notMem_render [] hparse).2⟩

end Json

end Fishnet

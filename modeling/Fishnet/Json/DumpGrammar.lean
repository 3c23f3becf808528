import Fishnet.Json.GrammarString

/-!
# What is printed is a text of the grammar

`dump` prints ASCII, and what it prints is derived by the grammar, with surrogates in pairs. That
needs less than the round trip: of the C library only that a finite number is printed as a numeral,
and of the characters nothing, since those that are moved to another plane are still printed as a
pair.

## Sizes

`stringify_string_raw` takes the size of the string as an `int`, and its position is one too. The
loop ends at the converted size. A character of several bytes that starts below it can end at or
above `2 ^ 31`, and then the position overflows (`Straddles`). The counter of `stringify_object`
overflows for an object with `2 ^ 31` members. These are all the exceptions.

## Main results

* `Json.wellFormed_of_stringify`: the text of a value.
* `Json.dump_wellFormed_iff`: `dump` succeeds, and prints such a text, apart from those exceptions.
-/

namespace Fishnet

open Grammar List

namespace Json

variable {N : Type} [Number N] {finite : N → Prop} {text body : Bytes}

/-! ## ASCII -/

/-- Characters from `0x20` to `0x7F`. -/
def Ascii (t : Bytes) : Prop := ∀ c ∈ t, 0x20 ≤ c ∧ c ≤ 0x7F

instance (t : Bytes) : Decidable (Ascii t) := List.decidableBAll _ t

theorem ascii_append {t t' : Bytes} : Ascii (t ++ t') ↔ Ascii t ∧ Ascii t' := forall_mem_append

theorem ascii_cons {c : UInt8} {t : Bytes} : Ascii (c :: t) ↔ (0x20 ≤ c ∧ c ≤ 0x7F) ∧ Ascii t :=
  forall_mem_cons

theorem ascii_digit (d : UInt8) : isdigit d → 0x20 ≤ d ∧ d ≤ 0x7F := by
  revert d
  refine UInt8.forall_of_lt ?_
  decide +kernel

theorem ascii_numberText {t : Bytes} (h : NumberText t) : Ascii t :=
  forall_mem_of_numberText h ascii_digit (show Ascii (chars "-.eE+") by decide)

/-- An escape, or an ASCII character. -/
def AsciiItem : Item → Prop
  | .plain b _ => b ≤ 0x7F
  | _ => True

theorem HexDigit.ascii_letter (d : HexDigit) : 0x20 ≤ d.letter ∧ d.letter ≤ 0x7F := by
  have hall : ∀ (v : Fin 16) (b : Bool), 0x20 ≤ HexDigit.letter ⟨v, b⟩ ∧
      HexDigit.letter ⟨v, b⟩ ≤ 0x7F := by
    decide +kernel
  exact hall d.value d.upper

theorem ascii_render {x : Item} (h : AsciiItem x) : Ascii x.render := by
  cases x with
  | plain b hb => exact ascii_cons.mpr ⟨⟨hb.1, h⟩, fun c hc ↦ absurd hc not_mem_nil⟩
  | escape e => cases e <;> decide
  | unicode u =>
    simp only [Item.render, Hex4.letters, ascii_cons]
    exact ⟨by decide, by decide, HexDigit.ascii_letter _, HexDigit.ascii_letter _,
      HexDigit.ascii_letter _, HexDigit.ascii_letter _, fun c hc ↦ absurd hc not_mem_nil⟩

theorem ascii_renderItems {items : List Item} (h : ∀ x ∈ items, AsciiItem x) :
    Ascii (renderItems items) := by
  intro c hc
  obtain ⟨x, hx, hc⟩ := mem_flatMap.mp hc
  exact ascii_render (h x hx) c hc

/-! ## Strings -/

theorem hexDigit_mod (x : ℕ) : hexDigit (x % 16) = HexDigit.letter ⟨Fin.ofNat 16 x, true⟩ := by
  have hadd : x % 16 + 48 = 48 + x % 16 := Nat.add_comm _ _
  have hadd' : x % 16 - 10 + 65 = 65 + (x % 16 - 10) := Nat.add_comm _ _
  rw [hexDigit, hadd, hadd']
  rfl

theorem stringifyHex4_eq (code : ℕ) : stringifyHex4 code = (hex4 code).letters := by
  have h₂ : code / 16 / 16 = code / 256 := Nat.div_div_eq_div_mul ..
  have h₁ : code / 256 / 16 = code / 4096 := Nat.div_div_eq_div_mul ..
  rw [stringifyHex4, h₂, h₁, hexDigit_mod, hexDigit_mod, hexDigit_mod, hexDigit_mod]
  rfl

/-- What is printed for a character can stand before any string with its surrogates in pairs. -/
def Prints (text : Bytes) : Prop :=
  ∃ items, renderItems items = text ∧ (∀ x ∈ items, AsciiItem x) ∧
    ∀ rest, Paired rest → Paired (items ++ rest)

theorem prints_singleton {x : Item} (hascii : AsciiItem x) (hx : ∀ hi, x = .unicode hi → ¬hi.High) :
    Prints x.render := by
  refine ⟨[x], append_nil _, fun y hy ↦ ?_, fun rest hrest ↦ ?_⟩
  · rwa [mem_singleton.mp hy]
  · exact paired_cons.mpr ⟨fun hi heq hhi ↦ absurd hhi (hx hi heq), hrest⟩

theorem prints_plain {b : UInt8} (h : 0x20 ≤ b ∧ b ≠ chr '\"' ∧ b ≠ chr '\\') (hb : b ≤ 0x7F) :
    Prints [b] :=
  @prints_singleton (.plain b h) hb fun _ heq ↦ by cases heq

theorem prints_pushCode (c : Char) : Prints (pushCode c.toNat) := by
  have hmax := c.toNat_lt
  by_cases h : c.toNat < 0x10000
  · have hcode := hex4_code h
    have hs := c.not_surrogate
    rw [pushCode, if_pos h, stringifyHex4_eq]
    refine @prints_singleton (.unicode (hex4 c.toNat)) trivial fun hi heq hhi ↦ ?_
    obtain ⟨h₁, h₂⟩ := hhi
    rw [← Item.unicode.inj heq, hcode] at h₁ h₂
    omega
  · -- the two escapes are a high and a low surrogate, whatever the plane
    have hand : c.toNat &&& 0xFFFF = c.toNat % 0x10000 := Nat.and_two_pow_sub_one_eq_mod c.toNat 16
    have hhi : (hex4 (c.toNat % 0x10000 / 0x400 + 0xD800)).code = _ := hex4_code (by omega)
    have hlo : (hex4 (c.toNat % 0x10000 % 0x400 + 0xDC00)).code = _ := hex4_code (by omega)
    rw [pushCode, if_neg h]
    simp only [hand, stringifyHex4_eq]
    generalize hex4 (c.toNat % 0x10000 / 0x400 + 0xD800) = hi at hhi ⊢
    generalize hex4 (c.toNat % 0x10000 % 0x400 + 0xDC00) = lo at hlo ⊢
    have hlow : lo.Low := ⟨by omega, by omega⟩
    refine ⟨[.unicode hi, .unicode lo], ?_, ?_, fun rest hrest ↦ ?_⟩
    · rw [renderItems_cons, renderItems_cons]
      exact congrArg (_ ++ ·) (append_nil _)
    · simp [AsciiItem]
    · refine paired_cons.mpr ⟨fun _ _ _ ↦ ⟨lo, rest, rfl, hlow⟩, paired_cons.mpr ⟨?_, hrest⟩⟩
      intro hi' heq hhi'
      rw [← Item.unicode.inj heq] at hhi'
      exact absurd hhi'.2 (Nat.not_lt.mpr hlow.1)

theorem prints_printed (c : Char) : Prints (printed c) := by
  rw [printed]
  by_cases hc : c.toNat < 0x80
  · rw [if_pos hc]
    have hle : UInt8.ofNat c.toNat ≤ 0x7F := by
      rw [UInt8.le_iff_toNat_le, toNat_ofNat_byte (by omega)]
      exact Nat.le_of_lt_succ hc
    have hcase := shortEscape_cases (UInt8.ofNat c.toNat)
    cases hshort : shortEscape (UInt8.ofNat c.toNat) with
    | some text =>
      rw [hshort] at hcase
      cases hcase with
      | escape e he =>
        obtain ⟨x, rfl⟩ := exists_escape he
        exact @prints_singleton (.escape x) trivial fun _ heq ↦ by cases heq
      | plain h₀ h₁ h₂ => exact prints_plain ⟨not_lt.mp h₂, fun h ↦ h₀ (Or.inr h), h₁⟩ hle
    | none =>
      rw [hshort] at hcase
      dsimp only
      split_ifs with hctrl
      · exact prints_pushCode c
      · cases hcase with
        | other h =>
          have hge : 0x20 ≤ UInt8.ofNat c.toNat := by
            rw [UInt8.le_iff_toNat_le, toNat_ofNat_byte (by omega)]
            exact Nat.not_lt.mp hctrl
          exact prints_plain ⟨hge, fun hquote ↦ (h hge).1 (Or.inr hquote), (h hge).2⟩ hle
  · rw [if_neg hc]
    exact prints_pushCode c

theorem exists_items_quoted (cs : List Char) : ∃ items, renderString items = quoted cs ∧
    Paired items ∧ Ascii (quoted cs) := by
  have hitems : ∃ items, renderItems items = cs.flatMap printed ∧ (∀ x ∈ items, AsciiItem x) ∧
      Paired items := by
    induction cs with
    | nil => exact ⟨[], rfl, fun x hx ↦ absurd hx not_mem_nil, accepted_nil.1⟩
    | cons c cs ih =>
      obtain ⟨items, hrender, hascii, hpaired⟩ := ih
      obtain ⟨items', hrender', hascii', hpaired'⟩ := prints_printed c
      refine ⟨items' ++ items, ?_, forall_mem_append.mpr ⟨hascii', hascii⟩,
        hpaired' items hpaired⟩
      rw [renderItems_append, hrender, hrender', flatMap_cons]
  obtain ⟨items, hrender, hascii, hpaired⟩ := hitems
  have hquoted : renderString items = quoted cs := by
    rw [renderString, hrender]
    rfl
  refine ⟨items, hquoted, hpaired, ?_⟩
  rw [← hquoted, renderString]
  exact ascii_cons.mpr ⟨by decide, ascii_append.mpr ⟨ascii_renderItems hascii, by decide⟩⟩

/-! ## Values -/

/-- An ASCII text of a value, with surrogates in pairs. -/
structure WellFormed (text : Bytes) : Prop where
  ascii : Ascii text
  value : ∃ v : Value, v.render = text ∧ ∀ s ∈ v.strings, Paired s

/-- The same for the elements of an array. -/
structure WellFormedElements (body : Bytes) : Prop where
  ascii : Ascii body
  elements : ∃ es : Elements, es.render = body ∧ ∀ s ∈ es.strings, Paired s

/-- The same for the members of an object. -/
structure WellFormedMembers (body : Bytes) : Prop where
  ascii : Ascii body
  members : ∃ ms : Members, ms.render = body ∧ ∀ s ∈ ms.strings, Paired s

theorem WellFormed.zero_notMem (h : WellFormed text) : 0 ∉ text := by
  obtain ⟨v, rfl, -⟩ := h.value
  exact v.zero_notMem_render

omit [Number N] in
theorem wellFormed_leaf {v : Value} (hascii : Ascii v.render) (hv : v.strings = []) :
    WellFormed v.render :=
  ⟨hascii, v, rfl, fun s hs ↦ by rw [hv] at hs; cases hs⟩

theorem wellFormed_quoted (cs : List Char) : WellFormed (quoted cs) := by
  obtain ⟨items, hrender, hpaired, hascii⟩ := exists_items_quoted cs
  exact ⟨hascii, .string items, hrender, fun s hs ↦ by rwa [mem_singleton.mp hs]⟩

theorem wellFormedElements_of_stringify {elements : List (Json N)} (hne : elements ≠ [])
    (h : ∀ json ∈ elements, ∀ text, stringify json = .ok text → WellFormed text)
    (hbody : stringifyElements elements = .ok body) : WellFormedElements body := by
  refine stringifyElements_rule (R := fun body _ ↦ WellFormedElements body) hne
    (fun json hj text ht ↦ (h json hj text ht).zero_notMem) (fun json hj text ht ↦ ?_)
    (fun json hj text body rest ht hrest ↦ ?_) hbody
  · obtain ⟨hascii, v, hv, hpaired⟩ := h json hj text ht
    refine ⟨hascii, .last v noWs, ?_, hpaired⟩
    rw [Elements.render, hv]
    exact append_nil _
  · obtain ⟨hascii, v, hv, hpaired⟩ := h json hj text ht
    obtain ⟨hascii', es, hes, hpaired'⟩ := hrest
    refine ⟨ascii_append.mpr ⟨ascii_append.mpr ⟨hascii, by decide⟩, hascii'⟩,
      .cons v noWs noWs es, ?_, forall_mem_append.mpr ⟨hpaired, hpaired'⟩⟩
    rw [Elements.render, hv, hes, append_assoc]
    rfl

theorem wellFormedMembers_of_stringify {members : List (Bytes × Json N)} {cnt : ℕ}
    (hne : members ≠ []) (hkeys : ∀ m ∈ members, ∃ cs, m.1 = utf8 cs)
    (h : ∀ m ∈ members, ∀ text, stringify m.2 = .ok text → WellFormed text)
    (hbody : stringifyMembers ((cnt + members.length : ℕ) : ℤ) cnt members = .ok body) :
    WellFormedMembers body := by
  have hhead (cs : List Char) {vtext : Bytes} (hwf : WellFormed vtext) :
      ∃ key, ∃ v : Value, renderString key = quoted cs ∧ Paired key ∧ v.render = vtext ∧
        (∀ s ∈ v.strings, Paired s) ∧ Ascii (quoted cs ++ chars ":" ++ vtext) := by
    obtain ⟨key, hkey, hkeyPaired, hkeyAscii⟩ := exists_items_quoted cs
    obtain ⟨hascii, v, hv, hpaired⟩ := hwf
    exact ⟨key, v, hkey, hkeyPaired, hv, hpaired,
      ascii_append.mpr ⟨ascii_append.mpr ⟨hkeyAscii, by decide⟩, hascii⟩⟩
  refine stringifyMembers_rule (R := fun body _ ↦ WellFormedMembers body) hne hkeys
    (fun m hm text ht ↦ (h m hm text ht).zero_notMem) (fun m hm cs text _ ht ↦ ?_)
    (fun m hm cs text body rest _ ht hrest ↦ ?_) hbody
  · obtain ⟨key, v, hkey, hkeyPaired, hv, hpaired, hascii⟩ := hhead cs (h m hm text ht)
    refine ⟨hascii, .last key (noWs, noWs) v noWs, ?_,
      forall_mem_cons.mpr ⟨hkeyPaired, hpaired⟩⟩
    simp only [Members.render, renderKey, hkey, hv, noWs, append_nil, nil_append]
    rfl
  · obtain ⟨key, v, hkey, hkeyPaired, hv, hpaired, hascii⟩ := hhead cs (h m hm text ht)
    obtain ⟨hascii', ms, hms, hpaired'⟩ := hrest
    refine ⟨ascii_append.mpr ⟨ascii_append.mpr ⟨hascii, by decide⟩, hascii'⟩,
      .cons key (noWs, noWs) v noWs noWs ms, ?_,
      forall_mem_cons.mpr ⟨hkeyPaired, forall_mem_append.mpr ⟨hpaired, hpaired'⟩⟩⟩
    simp only [Members.render, renderKey, hkey, hv, hms, noWs, nil_append, append_assoc]
    rfl

/-- **The text of a value.** -/
theorem wellFormed_of_stringify (hN : ∀ n, finite n → NumberText (Number.print n)) {json : Json N}
    (hjson : Valid finite json) (h : stringify json = .ok text) : WellFormed text := by
  induction hjson generalizing text with
  | null =>
    rw [stringify] at h
    cases h
    exact @wellFormed_leaf .null (by decide) rfl
  | boolean b =>
    rw [stringify] at h
    cases h
    exact @wellFormed_leaf (.boolean b) (by cases b <;> decide) rfl
  | @number n hn =>
    rw [stringify] at h
    cases h
    exact @wellFormed_leaf (.number ⟨_, hN n hn⟩) (ascii_numberText (hN n hn)) rfl
  | string cs =>
    rw [stringify] at h
    obtain ⟨cs', rfl, -⟩ := quoted_of_stringifyStringRaw h
    exact wellFormed_quoted cs'
  | @array elements _ ih =>
    obtain ⟨body, hbody, rfl⟩ := stringify_array_eq_ok.mp h
    rcases eq_or_ne elements [] with rfl | hne
    · rw [stringifyElements] at hbody
      cases hbody
      exact @wellFormed_leaf (.emptyArray noWs) (by decide) rfl
    · have hwf := wellFormedElements_of_stringify hne (fun x hx _ ↦ ih x hx) hbody
      obtain ⟨es, hes, hpaired⟩ := hwf.elements
      refine ⟨ascii_append.mpr ⟨ascii_append.mpr ⟨by decide, hwf.ascii⟩, by decide⟩,
        .array noWs es, ?_, hpaired⟩
      rw [Value.render, hes, append_assoc]
      rfl
  | @object members _ hkeys _ ih =>
    obtain ⟨body, hbody, rfl⟩ := stringify_object_eq_ok.mp h
    rcases eq_or_ne members [] with rfl | hne
    · rw [stringifyMembers] at hbody
      cases hbody
      exact @wellFormed_leaf (.emptyObject noWs) (by decide) rfl
    · have hwf := wellFormedMembers_of_stringify hne hkeys (fun m hm _ ↦ ih m hm)
        (stringifyMembers_of_toInt hbody)
      obtain ⟨ms, hms, hpaired⟩ := hwf.members
      refine ⟨ascii_append.mpr ⟨ascii_append.mpr ⟨by decide, hwf.ascii⟩, by decide⟩,
        .object noWs ms, ?_, hpaired⟩
      rw [Value.render, hms, append_assoc]
      rfl

/-! ## Sizes -/

/-- A character starts below the size of the string, as an `int`, and does not end below `2 ^ 31`.
-/
def Straddles (s : Bytes) : Prop :=
  ∃ pre c post, codePoints s = pre ++ c :: post ∧ ((utf8 pre).length : ℤ) < toInt s.length ∧
    2 ^ 31 ≤ (utf8 (pre ++ [c])).length

theorem not_straddles_of_lt {s : Bytes} (hs : ∃ cs, s = utf8 cs) (h : s.length < 2 ^ 31) :
    ¬Straddles s := by
  obtain ⟨cs, rfl⟩ := hs
  rintro ⟨pre, c, post, hcs, -, hlength⟩
  rw [codePoints, utf8Decode_utf8, Option.getD_some] at hcs
  have hle : (utf8 (pre ++ [c])).length ≤ (utf8 cs).length := by
    have happend : pre ++ c :: post = (pre ++ [c]) ++ post := append_cons ..
    rw [hcs, happend, utf8_append (pre ++ [c]), length_append]
    exact Nat.le_add_right _ _
  omega

theorem charsBelow_concat {len : ℤ} {cs pre : List Char} {c : Char}
    (h : charsBelow len cs = pre ++ [c]) :
    ∃ post, cs = pre ++ c :: post ∧ ((utf8 pre).length : ℤ) < len := by
  induction pre generalizing len cs with
  | nil =>
    cases cs with
    | nil => cases h
    | cons d cs =>
      rw [charsBelow] at h
      split_ifs at h with hlen
      · exact ⟨cs, by rw [(List.cons.inj h).1]; rfl, hlen⟩
      · cases h
  | cons b pre ih =>
    cases cs with
    | nil => cases h
    | cons d cs =>
      rw [charsBelow] at h
      split_ifs at h with hlen
      · obtain ⟨rfl, htail⟩ := List.cons.inj h
        obtain ⟨post, rfl, hpost⟩ := ih htail
        refine ⟨post, rfl, ?_⟩
        rw [utf8_cons, length_append, String.length_utf8EncodeChar, Nat.cast_add]
        omega
      · cases h

theorem prefix_charsBelow {len : ℤ} {pre post : List Char} {c : Char}
    (h : ((utf8 pre).length : ℤ) < len) : pre ++ [c] <+: charsBelow len (pre ++ c :: post) := by
  induction pre generalizing len with
  | nil =>
    rw [nil_append, nil_append, charsBelow, if_pos (by simpa using h)]
    exact ⟨_, rfl⟩
  | cons b pre ih =>
    rw [utf8_cons, length_append, String.length_utf8EncodeChar, Nat.cast_add] at h
    rw [cons_append, cons_append, charsBelow, if_pos (by omega)]
    exact cons_prefix_cons.mpr ⟨rfl, ih (by omega)⟩

/-- The characters that are printed end at or above `2 ^ 31` exactly if one of them straddles it. -/
theorem straddles_iff (cs : List Char) :
    Straddles (utf8 cs) ↔ ¬(utf8 (kept cs)).length < 2 ^ 31 := by
  rw [Straddles, codePoints, utf8Decode_utf8, Option.getD_some, not_lt]
  constructor
  · rintro ⟨pre, c, post, hcs, hlen, h⟩
    have hprefix : pre ++ [c] <+: kept cs := by
      rw [kept, hcs]
      rw [hcs] at hlen
      exact prefix_charsBelow hlen
    obtain ⟨rest, hrest⟩ := hprefix
    rw [← hrest, utf8_append, length_append]
    exact h.trans (Nat.le_add_right _ _)
  · intro h
    rcases eq_nil_or_concat (kept cs) with hnil | ⟨pre, c, hpre⟩
    · rw [hnil] at h
      exact absurd h (by decide)
    · rw [concat_eq_append] at hpre
      obtain ⟨post, hcs, hlen⟩ := charsBelow_concat hpre
      exact ⟨pre, c, post, hcs, hlen, by rwa [← hpre]⟩

theorem exists_stringifyStringRaw_iff {s : Bytes} (hs : ∃ cs, s = utf8 cs) :
    (∃ text, stringifyStringRaw s = .ok text) ↔ ¬Straddles s := by
  obtain ⟨cs, rfl⟩ := hs
  rw [straddles_iff, not_not, stringifyStringRaw_utf8]
  split_ifs with h
  · exact ⟨fun _ ↦ h, fun _ ↦ ⟨_, rfl⟩⟩
  · refine ⟨fun ⟨_, htext⟩ ↦ ?_, fun h' ↦ absurd h' h⟩
    cases htext

/-- **What `dump` prints.** If the C library prints finite numbers as numerals, `dump` succeeds and
prints an ASCII text of the grammar with surrogates in pairs, unless a string or key straddles the
range of `int` or an object has too many members for it. -/
theorem dump_wellFormed_iff (hN : ∀ n, finite n → NumberText (Number.print n)) {json : Json N}
    (hjson : Valid finite json) :
    (∃ text, json.dump = .ok text ∧ Ascii text ∧
        ∃ t : Text, t.render = text ∧ ∀ s ∈ t.value.strings, Paired s) ↔
      (∀ s ∈ json.strings, ¬Straddles s) ∧ ∀ n ∈ json.objectSizes, n < 2 ^ 31 := by
  have hstrings : (∀ s ∈ json.strings, ¬Straddles s) ↔
      ∀ s ∈ json.strings, ∃ text, stringifyStringRaw s = .ok text :=
    forall₂_congr fun s hs ↦ (exists_stringifyStringRaw_iff (hjson.exists_utf8 s hs)).symm
  rw [hstrings, ← exists_stringify_iff hjson]
  constructor
  · rintro ⟨text, htext, -⟩
    obtain ⟨str, hstr, -⟩ := bind_eq_ok.mp htext
    exact ⟨str, hstr⟩
  · rintro ⟨text, htext⟩
    have hwf := wellFormed_of_stringify hN hjson htext
    obtain ⟨v, hv, hpaired⟩ := hwf.value
    refine ⟨text, ?_, hwf.ascii, ⟨noWs, v, noWs⟩, ?_, hpaired⟩
    · rw [dump, htext]
      exact congrArg Except.ok (cString_eq_self hwf.zero_notMem)
    · rw [Text.render, hv]
      exact append_nil _

theorem dump_wellFormed_menu : ∃ text, menu.dump = .ok text ∧ Ascii text ∧
    ∃ t : Text, t.render = text ∧ ∀ s ∈ t.value.strings, Paired s := by
  have hlength : ∀ s ∈ menu.strings, s.length ≤ 8 := by decide +kernel
  refine (dump_wellFormed_iff (fun n _ ↦ Decimal.numberText_print n) valid_menu).mpr ⟨?_, ?_⟩
  · intro s hs
    refine not_straddles_of_lt (valid_menu.exists_utf8 s hs) ?_
    exact (hlength s hs).trans_lt (by norm_num)
  · have hsizes : menu.objectSizes = [2, 1] := rfl
    rw [hsizes]
    simp

/-- A string of 6 GiB, with a character of two bytes at the offset `2 ^ 31 - 2`. -/
def longString : List Char :=
  replicate (2 ^ 31 - 2) 'a' ++ Char.ofNat 0xE9 :: replicate (2 ^ 32 - 1) 'a'

theorem length_utf8_replicate (n : ℕ) : (utf8 (replicate n 'a')).length = n := by
  induction n with
  | zero => rfl
  | succ n ih =>
    rw [replicate_succ, utf8_cons, length_append, ih]
    exact Nat.add_comm 1 n

theorem dump_longString :
    Valid (fun _ ↦ True) (.string (utf8 longString) : Json ℤ) ∧
      (Json.string (utf8 longString) : Json ℤ).dump = .error .overflow := by
  have hsize : (String.utf8EncodeChar (Char.ofNat 0xE9)).length = 2 := by decide +kernel
  have hlength : (utf8 longString).length = 2 ^ 32 + 2 ^ 31 - 1 := by
    rw [longString, utf8_append, utf8_cons, length_append, length_append, hsize,
      length_utf8_replicate, length_utf8_replicate]
    norm_num
  have hstraddles : Straddles (utf8 longString) := by
    refine ⟨replicate (2 ^ 31 - 2) 'a', Char.ofNat 0xE9, replicate (2 ^ 32 - 1) 'a',
      ?_, ?_, ?_⟩
    · rw [codePoints, utf8Decode_utf8, Option.getD_some, longString]
    · rw [hlength, length_utf8_replicate]
      decide
    · rw [utf8_append, length_append, length_utf8_replicate, utf8_cons, length_append,
        hsize]
      decide
  refine ⟨.string _, ?_⟩
  rw [dump, stringify, stringifyStringRaw_utf8, if_neg ((straddles_iff _).mp hstraddles)]
  rfl

end Json

end Fishnet

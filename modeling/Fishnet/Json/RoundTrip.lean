import Fishnet.Json.JsonNumber
import Fishnet.Json.JsonString
import Fishnet.Json.JsonTree
import Mathlib.Data.List.TakeWhile

/-!
# What `dump` prints, `parse` reads

The text printed for a value is read back as a value of the same shape, with every string replaced
by what that string becomes when it is printed and parsed (`echo`). So the round trip returns the
value exactly if every string and every key in it comes back, and if the counter of
`stringify_object` does not overflow.

The induction is over the value. `Reads` is what it carries about the text of a value, and
`ReadsElements` and `ReadsMembers` about the part between brackets: in whatever context the text
stands, the parser takes exactly this text.

## Main results

* `Json.reads_of_stringify`: the text printed for a value is read as `remap echo` of it.
* `Json.exists_stringify_iff`: `stringify` succeeds if no string and no object is too large.
* `Json.parse_dump_iff`: the values that come back.
-/

namespace Fishnet

open List

namespace Json

variable {N : Type} [Number N] {finite : N → Prop} {text body rest : Bytes} {fuel : ℕ}
  {json : Json N} {elements : List (Json N)} {members : List (Bytes × Json N)}

/-! ## Tokens -/

/-- The characters that `parse_whitespace` skips. -/
def Blank (c : UInt8) : Prop := c = chr ' ' ∨ c = chr '\t' ∨ c = chr '\n' ∨ c = chr '\r'

instance (c : UInt8) : Decidable (Blank c) := inferInstanceAs (Decidable (_ ∨ _ ∨ _ ∨ _))

theorem parseWhitespace_cons {c : UInt8} (hc : ¬Blank c) (text : Bytes) :
    parseWhitespace (c :: text) = .ok (c :: text) := by
  rw [parseWhitespace]
  exact if_neg hc

theorem cString_eq_self (h : 0 ∉ text) : cString text = text := by
  rw [cString, takeWhile_eq_self_iff]
  intro c hc
  refine decide_eq_true fun hzero ↦ h ?_
  rwa [← hzero]

/-! ## Texts that are read -/

/-- How the text of a value, or of the inside of a nonempty array, starts. -/
def Starts (text : Bytes) : Prop := ∃ c t, text = c :: t ∧ ¬Blank c ∧ c ≠ 0 ∧ c ≠ chr ']'

/-- Wherever it stands, the text is read as the value. -/
structure Reads (text : Bytes) (json : Json N) : Prop where
  zero_notMem : 0 ∉ text
  starts : Starts text
  parseText_append : ∀ fuel rest, 2 * text.length ≤ fuel → Delimited rest →
    parseText fuel (text ++ rest) = .ok (json, rest)

/-- The same for the inside of an array. -/
structure ReadsElements (body : Bytes) (elements : List (Json N)) : Prop where
  zero_notMem : 0 ∉ body
  starts : Starts body
  parseElements_append : ∀ fuel acc rest, 2 * body.length < fuel →
    parseElements fuel acc (body ++ (chars "]" ++ rest)) = .ok (acc ++ elements, rest)

/-- The same for the inside of an object, whose members are emplaced one by one. -/
structure ReadsMembers (body : Bytes) (members : List (Bytes × Json N)) : Prop where
  zero_notMem : 0 ∉ body
  starts : ∃ t, body = chr '\"' :: t
  parseMembers_append : ∀ fuel acc rest, 2 * body.length < fuel →
    parseMembers fuel acc (body ++ (chars "\x7d" ++ rest)) =
      .ok (members.foldl (fun m x ↦ OrderedMap.emplace x.1 x.2 m) acc, rest)

theorem Starts.append (h : Starts text) (rest : Bytes) : Starts (text ++ rest) := by
  obtain ⟨c, t, rfl, hc⟩ := h
  exact ⟨c, t ++ rest, rfl, hc⟩

theorem Starts.length_pos (h : Starts text) : 0 < text.length := by
  obtain ⟨c, t, rfl, -⟩ := h
  exact Nat.succ_pos _

theorem delimited_comma (rest : Bytes) : Delimited (chars "," ++ rest) :=
  ⟨_, rest, rfl, Or.inl rfl⟩

theorem delimited_square (rest : Bytes) : Delimited (chars "]" ++ rest) :=
  ⟨_, rest, rfl, Or.inr (Or.inl rfl)⟩

theorem delimited_curly (rest : Bytes) : Delimited (chars "\x7d" ++ rest) :=
  ⟨_, rest, rfl, Or.inr (Or.inr (Or.inl rfl))⟩

/-! ## Literals, numbers and strings -/

theorem exists_fuel (h : Starts text) (hfuel : 2 * text.length ≤ fuel) : ∃ k, fuel = k + 1 :=
  Nat.exists_eq_succ_of_ne_zero (by have := h.length_pos; omega)

/-- A text that is read without looking at its parts. -/
theorem reads_leaf (hzero : 0 ∉ text) (hstarts : Starts text)
    (hparse : ∀ k rest, parseText (k + 1) (text ++ rest) = .ok (json, rest)) : Reads text json := by
  refine ⟨hzero, hstarts, fun fuel rest hfuel _ ↦ ?_⟩
  obtain ⟨k, rfl⟩ := exists_fuel hstarts hfuel
  exact hparse k rest

/-- A text between brackets. -/
theorem reads_bracketed {l r : UInt8} (hl : ¬Blank l ∧ l ≠ 0 ∧ l ≠ chr ']')
    (hr : r ≠ 0) (hzero : 0 ∉ body) (hparse : ∀ k rest, 2 * body.length < k →
      parseText (k + 1) (l :: (body ++ r :: rest)) = .ok (json, rest)) :
    Reads ([l] ++ body ++ [r]) json := by
  have hstarts : Starts ([l] ++ body ++ [r]) := ⟨l, _, rfl, hl⟩
  refine ⟨by simp [hl.2.1.symm, hzero, hr.symm], hstarts, fun fuel rest hfuel _ ↦ ?_⟩
  obtain ⟨k, rfl⟩ := exists_fuel hstarts hfuel
  rw [length_append, length_append, length_singleton, length_singleton] at hfuel
  rw [append_assoc, append_assoc]
  exact hparse k rest (by omega)

theorem reads_null : Reads (chars "null") (.null : Json N) :=
  reads_leaf (by decide) ⟨_, _, rfl, by decide⟩ fun _ _ ↦ rfl

theorem reads_boolean (b : Bool) :
    Reads (if b then chars "true" else chars "false") (.boolean b : Json N) := by
  cases b with
  | false => exact reads_leaf (by decide) ⟨_, _, rfl, by decide⟩ fun _ _ ↦ rfl
  | true => exact reads_leaf (by decide) ⟨_, _, rfl, by decide⟩ fun _ _ ↦ rfl

variable (cs : List Char)

theorem reads_string : Reads (quoted cs) (.string (utf8 (cs.map foldPlane)) : Json N) := by
  refine reads_leaf (zero_notMem_quoted cs) ⟨_, _, rfl, by decide⟩ fun k rest ↦ ?_
  change (parseString (quoted cs ++ rest) >>= fun r ↦ Except.ok (Json.string r.1, r.2)) = _
  rw [parseString_quoted]
  rfl

theorem number_start (c : UInt8) : (c = chr '-' ∨ isdigit c) → ¬Blank c ∧ c ≠ 0 ∧ c ≠ chr ']' ∧
    c ≠ chr 'n' ∧ c ≠ chr 't' ∧ c ≠ chr 'f' ∧ c ≠ chr '\"' ∧ c ≠ chr '[' ∧ c ≠ chr '\x7b' := by
  revert c
  refine UInt8.forall_of_lt ?_
  decide +kernel

theorem parseText_number {c : UInt8} (hc : c = chr '-' ∨ isdigit c) (t : Bytes) :
    parseText (fuel + 1) (c :: t) =
      (parseNumber (c :: t) >>= fun r ↦ .ok (.number r.1, r.2) : Except Stop (Json N × Bytes)) := by
  obtain ⟨hblank, hzero, -, hn, ht, hf, hquote, hsquare, hcurly⟩ := number_start c hc
  rw [parseText, parseWhitespace_cons hblank]
  change (if c = 0 then _ else _) = _
  rw [if_neg hzero, if_neg hn, if_neg ht, if_neg hf, if_neg hquote, if_neg hsquare, if_neg hcurly]
  rfl

theorem reads_number (hN : Number.Exact N finite) {n : N} (hn : finite n) :
    Reads (Number.print n) (.number n) := by
  have htext := hN.numberText n hn
  obtain ⟨c, t, hct, hc⟩ := head_of_numberText htext
  obtain ⟨hblank, hzero, hsquare, -⟩ := number_start c hc
  have hstarts : Starts (Number.print n) := ⟨c, t, hct, hblank, hzero, hsquare⟩
  refine ⟨zero_notMem_of_numberText htext, hstarts, fun fuel rest hfuel hrest ↦ ?_⟩
  obtain ⟨k, rfl⟩ := exists_fuel hstarts hfuel
  have hparse := parseNumber_print hN hn hrest
  rw [hct, cons_append] at hparse ⊢
  rw [parseText_number hc, hparse]
  rfl

/-! ## Arrays -/

theorem readsElements_singleton (h : Reads text json) : ReadsElements text [json] := by
  refine ⟨h.zero_notMem, h.starts, fun fuel acc rest hfuel ↦ ?_⟩
  obtain ⟨k, rfl⟩ := exists_fuel h.starts hfuel.le
  rw [parseElements, h.parseText_append k _ (by omega) (delimited_square rest)]
  rfl

theorem readsElements_cons (h : Reads text json) (hbody : ReadsElements body elements) :
    ReadsElements (text ++ chars "," ++ body) (json :: elements) := by
  have hzero : 0 ∉ text ++ chars "," ++ body := by
    simp only [mem_append, not_or]
    exact ⟨⟨h.zero_notMem, by decide⟩, hbody.zero_notMem⟩
  refine ⟨hzero, (h.starts.append _).append _, fun fuel acc rest hfuel ↦ ?_⟩
  have hlength : (text ++ chars "," ++ body).length = text.length + 1 + body.length := by
    rw [length_append, length_append]
    rfl
  obtain ⟨k, rfl⟩ := Nat.exists_eq_add_one.mpr (Nat.zero_lt_of_lt hfuel)
  rw [hlength] at hfuel
  rw [append_assoc, append_assoc, parseElements,
    h.parseText_append k _ (by omega) (delimited_comma _)]
  change parseElements k (acc ++ [json]) (body ++ (chars "]" ++ rest)) = _
  rw [hbody.parseElements_append k _ rest (by omega), append_assoc]
  rfl

omit [Number N] in
theorem parseArray_of_starts {loop : Bytes → Except Stop (List (Json N) × Bytes)}
    (h : Starts body) :
    parseArray loop (chr '[' :: body) = loop body >>= fun r ↦ .ok (.array r.1, r.2) := by
  obtain ⟨c, t, rfl, hblank, hzero, hsquare⟩ := h
  rw [parseArray, tail_cons, parseWhitespace_cons hblank]
  change (if c = 0 then _ else if c = chr ']' then _ else _) = _
  rw [if_neg hzero, if_neg hsquare]
  rfl

theorem reads_array (h : ReadsElements body elements) :
    Reads (chars "[" ++ body ++ chars "]") (.array elements) := by
  refine reads_bracketed (l := chr '[') (r := chr ']') (by decide) (by decide) h.zero_notMem
    fun k rest hk ↦ ?_
  change parseArray (fun text ↦ parseElements k [] text) (chr '[' :: (body ++ chr ']' :: rest)) = _
  rw [parseArray_of_starts (h.starts.append _)]
  exact bind_of_ok (h.parseElements_append k [] rest hk) _

theorem reads_array_nil : Reads (chars "[" ++ [] ++ chars "]") (.array [] : Json N) :=
  reads_leaf (by decide) ⟨_, _, rfl, by decide⟩ fun _ _ ↦ rfl

/-! ## Objects -/

theorem parseKey_of_head (text : Bytes) (h : text.head? = some (chr '\"')) :
    parseKey text = match parseString text with
      | .ok r => .ok r
      | .error (.ret _) => fail .missKey
      | .error e => .error e := by
  obtain ⟨tail, rfl⟩ := head?_eq_some_iff.mp h
  rfl

theorem parseKeyColon_quoted (rest : Bytes) :
    parseKeyColon (quoted cs ++ (chars ":" ++ rest)) = .ok (utf8 (cs.map foldPlane), rest) := by
  have hkey : parseKey (quoted cs ++ (chars ":" ++ rest)) =
      .ok (utf8 (cs.map foldPlane), chars ":" ++ rest) := by
    rw [parseKey_of_head _ rfl, parseString_quoted]
  rw [parseKeyColon, hkey]
  rfl

theorem member_spec (h : Reads text json) :
    0 ∉ quoted cs ++ chars ":" ++ text ∧
      text.length < (quoted cs ++ chars ":" ++ text).length := by
  have hlength : (quoted cs ++ chars ":" ++ text).length = (quoted cs).length + 1 +
      text.length := by
    rw [length_append, length_append]
    rfl
  refine ⟨?_, by omega⟩
  simp only [mem_append, not_or]
  exact ⟨⟨zero_notMem_quoted cs, by decide⟩, h.zero_notMem⟩

theorem readsMembers_singleton (h : Reads text json) :
    ReadsMembers (quoted cs ++ chars ":" ++ text) [(utf8 (cs.map foldPlane), json)] := by
  obtain ⟨hzero, hlength⟩ := member_spec cs h
  refine ⟨hzero, ⟨_, rfl⟩, fun fuel acc rest hfuel ↦ ?_⟩
  obtain ⟨k, rfl⟩ := Nat.exists_eq_add_one.mpr (Nat.zero_lt_of_lt hfuel)
  rw [append_assoc, append_assoc, parseMembers, parseKeyColon_quoted]
  change (parseText k (text ++ (chars "\x7d" ++ rest)) >>= _) = _
  rw [h.parseText_append k _ (by omega) (delimited_curly rest)]
  rfl

theorem readsMembers_cons
    (h : Reads text json) (hbody : ReadsMembers body members) :
    ReadsMembers (quoted cs ++ chars ":" ++ text ++ chars "," ++ body)
      ((utf8 (cs.map foldPlane), json) :: members) := by
  obtain ⟨hzero, hlength⟩ := member_spec cs h
  have hzero' : 0 ∉ quoted cs ++ chars ":" ++ text ++ chars "," ++ body := by
    rw [mem_append, mem_append, not_or, not_or]
    exact ⟨⟨hzero, by decide⟩, hbody.zero_notMem⟩
  refine ⟨hzero', ⟨_, rfl⟩, fun fuel acc rest hfuel ↦ ?_⟩
  obtain ⟨k, rfl⟩ := Nat.exists_eq_add_one.mpr (Nat.zero_lt_of_lt hfuel)
  rw [length_append, length_append] at hfuel
  have hassoc : quoted cs ++ chars ":" ++ text ++ chars "," ++ body ++ (chars "\x7d" ++ rest) =
      quoted cs ++ (chars ":" ++ (text ++ (chars "," ++ (body ++ (chars "\x7d" ++ rest))))) := by
    simp only [append_assoc]
  rw [hassoc, parseMembers, parseKeyColon_quoted]
  change (parseText k (text ++ (chars "," ++ (body ++ (chars "\x7d" ++ rest)))) >>= _) = _
  rw [h.parseText_append k _ (by omega) (delimited_comma _)]
  -- after the comma, `parse_whitespace` finds the quotation mark of the next key
  have hparse := hbody.parseMembers_append k
    (OrderedMap.emplace (utf8 (cs.map foldPlane)) json acc) rest (by omega)
  obtain ⟨t, rfl⟩ := hbody.starts
  exact hparse

theorem reads_object (h : ReadsMembers body members) :
    Reads (chars "\x7b" ++ body ++ chars "\x7d") (.object (OrderedMap.ofList members)) := by
  refine reads_bracketed (l := chr '\x7b') (r := chr '\x7d') (by decide) (by decide)
    h.zero_notMem fun k rest hk ↦ ?_
  have hparse := h.parseMembers_append k [] rest hk
  obtain ⟨t, rfl⟩ := h.starts
  exact bind_of_ok hparse fun r ↦ Except.ok (Json.object r.1, r.2)

theorem reads_object_nil : Reads (chars "\x7b" ++ [] ++ chars "\x7d") (.object [] : Json N) :=
  reads_leaf (by decide) ⟨_, _, rfl, by decide⟩ fun _ _ ↦ rfl

/-! ## When printing succeeds -/

theorem stringifyElements_cons_eq_ok :
    stringifyElements (json :: elements) = .ok body ↔
      ∃ subtext b, stringify json = .ok subtext ∧ stringifyElements elements = .ok b ∧
        body = cString subtext ++ (if elements.isEmpty then [] else chars ",") ++ b := by
  rw [stringifyElements, bind_eq_ok]
  refine exists_congr fun subtext ↦ ?_
  rw [bind_eq_ok, ← exists_and_left]
  refine exists_congr fun b ↦ and_congr_right fun _ ↦ and_congr_right fun _ ↦ ?_
  exact except_ok_eq_comm

theorem stringifyMembers_cons_eq_ok {sz : ℤ} {cnt : ℕ} {m : Bytes × Json N} :
    stringifyMembers sz cnt (m :: members) = .ok body ↔
      ∃ ktext vtext b, stringifyStringRaw m.1 = .ok ktext ∧ stringify m.2 = .ok vtext ∧
        cnt + 1 < 2 ^ 31 ∧ stringifyMembers sz (cnt + 1) members = .ok b ∧
        body = cString ktext ++ chars ":" ++ cString vtext ++
          (if ((cnt + 1 : ℕ) : ℤ) < sz then chars "," else []) ++ b := by
  rw [stringifyMembers, bind_eq_ok]
  refine exists_congr fun ktext ↦ ?_
  rw [bind_eq_ok, ← exists_and_left]
  refine exists_congr fun vtext ↦ ?_
  rw [addInt]
  by_cases hcnt : cnt + 1 < 2 ^ 31
  · rw [if_pos hcnt]
    change _ ∧ _ ∧ (stringifyMembers sz (cnt + 1) members >>= fun b ↦ Except.ok _) = _ ↔ _
    rw [bind_eq_ok, ← exists_and_left, ← exists_and_left]
    refine exists_congr fun b ↦ and_congr_right fun _ ↦ and_congr_right fun _ ↦ ?_
    rw [and_iff_right hcnt]
    exact and_congr_right fun _ ↦
      except_ok_eq_comm
  · rw [if_neg hcnt]
    constructor
    · rintro ⟨-, -, h⟩
      cases h
    · rintro ⟨b, -, -, h, -⟩
      exact absurd h hcnt

theorem exists_stringifyElements_iff :
    (∃ body, stringifyElements elements = .ok body) ↔
      ∀ json ∈ elements, ∃ text, stringify json = .ok text := by
  induction elements with
  | nil => exact ⟨fun _ json h ↦ absurd h not_mem_nil, fun _ ↦ ⟨[], by rw [stringifyElements]⟩⟩
  | cons json elements ih =>
    rw [forall_mem_cons, ← ih]
    constructor
    · rintro ⟨body, hbody⟩
      obtain ⟨subtext, b, hsubtext, hb, -⟩ := stringifyElements_cons_eq_ok.mp hbody
      exact ⟨⟨subtext, hsubtext⟩, b, hb⟩
    · rintro ⟨⟨subtext, hsubtext⟩, b, hb⟩
      exact ⟨_, stringifyElements_cons_eq_ok.mpr ⟨subtext, b, hsubtext, hb, rfl⟩⟩

/-- The counter must be able to count all members. -/
theorem exists_stringifyMembers_iff {sz : ℤ} {cnt : ℕ}
    (hcnt : cnt < 2 ^ 31) : (∃ body, stringifyMembers sz cnt members = .ok body) ↔
      cnt + members.length < 2 ^ 31 ∧ (∀ m ∈ members, ∃ text, stringifyStringRaw m.1 = .ok text) ∧
        ∀ m ∈ members, ∃ text, stringify m.2 = .ok text := by
  induction members generalizing cnt with
  | nil =>
    refine ⟨fun _ ↦ ⟨hcnt, ?_, ?_⟩, fun _ ↦ ⟨[], by rw [stringifyMembers]⟩⟩
    · exact fun m h ↦ absurd h not_mem_nil
    · exact fun m h ↦ absurd h not_mem_nil
  | cons m members ih =>
    rw [forall_mem_cons, forall_mem_cons, length_cons]
    constructor
    · rintro ⟨body, hbody⟩
      obtain ⟨ktext, vtext, b, hk, hv, hnext, hb, -⟩ := stringifyMembers_cons_eq_ok.mp hbody
      obtain ⟨hlength, hkeys, hvalues⟩ := (ih hnext).mp ⟨b, hb⟩
      exact ⟨by omega, ⟨⟨ktext, hk⟩, hkeys⟩, ⟨vtext, hv⟩, hvalues⟩
    · rintro ⟨hlength, ⟨⟨ktext, hk⟩, hkeys⟩, ⟨vtext, hv⟩, hvalues⟩
      have hnext : cnt + 1 < 2 ^ 31 := by omega
      obtain ⟨b, hb⟩ := (ih hnext).mpr ⟨by omega, hkeys, hvalues⟩
      exact ⟨_, stringifyMembers_cons_eq_ok.mpr ⟨ktext, vtext, b, hk, hv, hnext, hb, rfl⟩⟩

theorem stringify_array_eq_ok :
    stringify (.array elements) = .ok text ↔
      ∃ body, stringifyElements elements = .ok body ∧ text = chars "[" ++ body ++ chars "]" := by
  rw [stringify, bind_eq_ok]
  exact exists_congr fun body ↦ and_congr_right fun _ ↦
    except_ok_eq_comm

theorem stringify_object_eq_ok :
    stringify (.object members) = .ok text ↔
      ∃ body, stringifyMembers (toInt members.length) 0 members = .ok body ∧
        text = chars "\x7b" ++ body ++ chars "\x7d" := by
  rw [stringify, bind_eq_ok]
  exact exists_congr fun body ↦ and_congr_right fun _ ↦
    except_ok_eq_comm

/-- `stringify` succeeds if it does for every string, and if no object has too many members. -/
theorem exists_stringify_iff (hjson : Valid finite json) :
    (∃ text, stringify json = .ok text) ↔
      (∀ s ∈ json.strings, ∃ text, stringifyStringRaw s = .ok text) ∧
        ∀ n ∈ json.objectSizes, n < 2 ^ 31 := by
  have hnone {json : Json N} (hstrings : json.strings = []) (hsizes : json.objectSizes = []) :
      (∀ s ∈ json.strings, ∃ text, stringifyStringRaw s = .ok text) ∧
        ∀ n ∈ json.objectSizes, n < 2 ^ 31 := by
    rw [hstrings, hsizes]
    exact ⟨fun _ h ↦ absurd h not_mem_nil, fun _ h ↦ absurd h not_mem_nil⟩
  induction hjson with
  | null => exact ⟨fun _ ↦ hnone rfl rfl, fun _ ↦ ⟨_, by rw [stringify]⟩⟩
  | boolean b => exact ⟨fun _ ↦ hnone rfl rfl, fun _ ↦ ⟨_, by rw [stringify]⟩⟩
  | number h => exact ⟨fun _ ↦ hnone rfl rfl, fun _ ↦ ⟨_, by rw [stringify]⟩⟩
  | string cs =>
    have hstrings : (Json.string (utf8 cs) : Json N).strings = [utf8 cs] := rfl
    have hsizes : (Json.string (utf8 cs) : Json N).objectSizes = [] := rfl
    rw [stringify, hstrings, hsizes, forall_mem_singleton]
    exact (and_iff_left fun n h ↦ absurd h not_mem_nil).symm
  | @array elements h ih =>
    have hbody : (∃ text, stringify (.array elements) = .ok text) ↔
        ∃ body, stringifyElements elements = .ok body := by
      simp only [stringify_array_eq_ok]
      exact ⟨fun ⟨_, body, hbody, _⟩ ↦ ⟨body, hbody⟩, fun ⟨body, hbody⟩ ↦ ⟨_, body, hbody, rfl⟩⟩
    rw [hbody, exists_stringifyElements_iff, forall₂_congr ih, forall₂_and, strings_array,
      objectSizes_array, forall_mem_flatMap, forall_mem_flatMap]
  | @object members hsorted hkeys h ih =>
    have hbody : (∃ text, stringify (.object members) = .ok text) ↔
        ∃ body, stringifyMembers (toInt members.length) 0 members = .ok body := by
      simp only [stringify_object_eq_ok]
      exact ⟨fun ⟨_, body, hbody, _⟩ ↦ ⟨body, hbody⟩, fun ⟨body, hbody⟩ ↦ ⟨_, body, hbody, rfl⟩⟩
    rw [hbody, exists_stringifyMembers_iff (by decide), forall₂_congr ih, forall₂_and, zero_add,
      strings_object, objectSizes_object, forall_mem_append, forall_mem_map,
      forall_mem_flatMap, forall_mem_cons, forall_mem_flatMap]
    tauto

/-! ## How the parts of a value are printed -/

/-- **Printed elements.** What holds of the text of a last element, and is kept when the text of an
element is put in front, holds of the text of all elements. -/
theorem stringifyElements_rule {R : Bytes → List (Json N) → Prop} (hne : elements ≠ [])
    (hzero : ∀ json ∈ elements, ∀ text, stringify json = .ok text → 0 ∉ text)
    (hlast : ∀ json ∈ elements, ∀ text, stringify json = .ok text → R text [json])
    (hcons : ∀ json ∈ elements, ∀ text body rest, stringify json = .ok text → R body rest →
      R (text ++ chars "," ++ body) (json :: rest))
    (hbody : stringifyElements elements = .ok body) : R body elements := by
  induction elements generalizing body with
  | nil => exact absurd rfl hne
  | cons json elements ih =>
    rw [forall_mem_cons] at hzero hlast hcons
    obtain ⟨text, b, htext, hb, rfl⟩ := stringifyElements_cons_eq_ok.mp hbody
    rw [cString_eq_self (hzero.1 text htext)]
    cases elements with
    | nil =>
      rw [stringifyElements] at hb
      cases hb
      change R (text ++ [] ++ []) _
      rw [append_nil, append_nil]
      exact hlast.1 text htext
    | cons json' elements =>
      have hrest := ih (cons_ne_nil _ _) hzero.2 hlast.2 hcons.2 hb
      exact hcons.1 text b _ htext hrest

/-- **Printed members.** The same for the members of an object. The key is printed as a quoted text
that is read as its echo. -/
theorem stringifyMembers_rule {R : Bytes → List (Bytes × Json N) → Prop}
    {cnt : ℕ} (hne : members ≠ []) (hkeys : ∀ m ∈ members, ∃ cs, m.1 = utf8 cs)
    (hzero : ∀ m ∈ members, ∀ text, stringify m.2 = .ok text → 0 ∉ text)
    (hlast : ∀ m ∈ members, ∀ cs text, utf8 (cs.map foldPlane) = echo m.1 →
      stringify m.2 = .ok text → R (quoted cs ++ chars ":" ++ text) [m])
    (hcons : ∀ m ∈ members, ∀ cs text body rest, utf8 (cs.map foldPlane) = echo m.1 →
      stringify m.2 = .ok text → R body rest →
        R (quoted cs ++ chars ":" ++ text ++ chars "," ++ body) (m :: rest))
    (hbody : stringifyMembers ((cnt + members.length : ℕ) : ℤ) cnt members = .ok body) :
    R body members := by
  induction members generalizing cnt body with
  | nil => exact absurd rfl hne
  | cons m members ih =>
    rw [forall_mem_cons] at hkeys hzero hlast hcons
    obtain ⟨ktext, text, b, hk, htext, -, hb, rfl⟩ := stringifyMembers_cons_eq_ok.mp hbody
    obtain ⟨cs, hcs⟩ := hkeys.1
    rw [hcs] at hk
    obtain ⟨cs', rfl, hecho⟩ := quoted_of_stringifyStringRaw hk
    rw [← hcs] at hecho
    rw [cString_eq_self (zero_notMem_quoted cs'), cString_eq_self (hzero.1 text htext)]
    cases members with
    | nil =>
      rw [stringifyMembers] at hb
      cases hb
      have hend : ¬((cnt + 1 : ℕ) : ℤ) < ((cnt + [m].length : ℕ) : ℤ) := lt_irrefl _
      rw [if_neg hend, append_nil, append_nil]
      exact hlast.1 cs' text hecho htext
    | cons m' members =>
      have hmore : ((cnt + 1 : ℕ) : ℤ) < ((cnt + (m :: m' :: members).length : ℕ) : ℤ) := by
        rw [length_cons, length_cons]
        omega
      have hsz : cnt + (m :: m' :: members).length = cnt + 1 + (m' :: members).length := by
        rw [length_cons, length_cons]
        omega
      rw [hsz] at hb
      have hrest := ih (cons_ne_nil _ _) hkeys.2 hzero.2 hlast.2 hcons.2 hb
      rw [if_pos hmore]
      exact hcons.1 cs' text b _ hecho htext hrest

/-! ## What is printed is read -/

theorem readsElements_of_stringify (hne : elements ≠ [])
    (h : ∀ json ∈ elements, ∀ text, stringify json = .ok text → Reads text (json.remap echo))
    (hbody : stringifyElements elements = .ok body) :
    ReadsElements body (elements.map (remap echo)) := by
  refine stringifyElements_rule (R := fun body rest ↦ ReadsElements body (rest.map (remap echo)))
    hne (fun json hj text ht ↦ (h json hj text ht).zero_notMem) (fun json hj text ht ↦ ?_)
    (fun json hj text body rest ht hrest ↦ ?_) hbody
  · exact readsElements_singleton (h json hj text ht)
  · exact readsElements_cons (h json hj text ht) hrest

theorem readsMembers_of_stringify {cnt : ℕ} (hne : members ≠ [])
    (hkeys : ∀ m ∈ members, ∃ cs, m.1 = utf8 cs)
    (h : ∀ m ∈ members, ∀ text, stringify m.2 = .ok text → Reads text (m.2.remap echo))
    (hbody : stringifyMembers ((cnt + members.length : ℕ) : ℤ) cnt members = .ok body) :
    ReadsMembers body (members.map fun m ↦ (echo m.1, m.2.remap echo)) := by
  refine stringifyMembers_rule
    (R := fun body rest ↦ ReadsMembers body (rest.map fun m ↦ (echo m.1, m.2.remap echo)))
    hne hkeys (fun m hm text ht ↦ (h m hm text ht).zero_notMem)
    (fun m hm cs text hecho ht ↦ ?_) (fun m hm cs text body rest hecho ht hrest ↦ ?_) hbody
  · rw [map_singleton, ← hecho]
    exact readsMembers_singleton cs (h m hm text ht)
  · rw [map_cons, ← hecho]
    exact readsMembers_cons cs (h m hm text ht) hrest

/-- An object that is printed has fewer than `2 ^ 31` members. -/
theorem stringifyMembers_of_toInt
    (h : stringifyMembers (toInt members.length) 0 members = .ok body) :
    stringifyMembers ((0 + members.length : ℕ) : ℤ) 0 members = .ok body := by
  have hlength := ((exists_stringifyMembers_iff (by decide)).mp ⟨body, h⟩).1
  rw [zero_add] at hlength ⊢
  rwa [toInt_of_lt hlength] at h

/-- **The text of a value.** It is read as the same value with every string echoed. -/
theorem reads_of_stringify (hN : Number.Exact N finite) (hjson : Valid finite json)
    (h : stringify json = .ok text) : Reads text (json.remap echo) := by
  induction hjson generalizing text with
  | null =>
    rw [stringify] at h
    cases h
    exact reads_null
  | boolean b =>
    rw [stringify] at h
    cases h
    exact reads_boolean b
  | number hn =>
    rw [stringify] at h
    cases h
    exact reads_number hN hn
  | string cs =>
    rw [stringify] at h
    obtain ⟨cs', rfl, hecho⟩ := quoted_of_stringifyStringRaw h
    rw [remap, ← hecho]
    exact reads_string cs'
  | @array elements _ ih =>
    obtain ⟨body, hbody, rfl⟩ := stringify_array_eq_ok.mp h
    rw [remap_array]
    rcases eq_or_ne elements [] with rfl | hne
    · rw [stringifyElements] at hbody
      cases hbody
      exact reads_array_nil
    · exact reads_array (readsElements_of_stringify hne (fun x hx _ ↦ ih x hx) hbody)
  | @object members _ hkeys _ ih =>
    obtain ⟨body, hbody, rfl⟩ := stringify_object_eq_ok.mp h
    rw [remap_object]
    rcases eq_or_ne members [] with rfl | hne
    · rw [stringifyMembers] at hbody
      cases hbody
      exact reads_object_nil
    · exact reads_object (readsMembers_of_stringify hne hkeys (fun m hm _ ↦ ih m hm)
        (stringifyMembers_of_toInt hbody))

/-! ## The round trip -/

theorem dump_eq_stringify (hN : Number.Exact N finite) (hjson : Valid finite json) :
    json.dump = json.stringify := by
  rw [dump]
  cases h : json.stringify with
  | error e => rfl
  | ok text =>
    change Except.ok (cString text) = _
    rw [cString_eq_self (reads_of_stringify hN hjson h).zero_notMem]

theorem parseStdString_of_reads (h : Reads text json) : parseStdString text = .ok json := by
  have hfuel : 2 * text.length ≤ 2 * (text ++ [0]).length := by
    rw [length_append]
    omega
  rw [parseStdString, parse, h.parseText_append _ [0] hfuel ⟨0, [], rfl, by decide⟩]
  rfl

/-- What comes back is the value with every string echoed. -/
theorem parse_dump_eq_ok_iff (hN : Number.Exact N finite) {json json' : Json N}
    (hjson : Valid finite json) :
    (∃ text, json.dump = .ok text ∧ parseStdString text = .ok json') ↔
      (∃ text, json.stringify = .ok text) ∧ json.remap echo = json' := by
  rw [dump_eq_stringify hN hjson]
  constructor
  · rintro ⟨text, htext, hparse⟩
    rw [parseStdString_of_reads (reads_of_stringify hN hjson htext)] at hparse
    exact ⟨⟨text, htext⟩, Except.ok.inj hparse⟩
  · rintro ⟨⟨text, htext⟩, rfl⟩
    exact ⟨text, htext, parseStdString_of_reads (reads_of_stringify hN hjson htext)⟩

/-- The characters of a string. -/
def codePoints (s : Bytes) : List Char := (utf8Decode s).getD []

/-- A string that `stringify_string_raw` prints without loss: its size is an `int`, and its
characters are in planes 0 and 1. -/
def Printable (s : Bytes) : Prop := s.length < 2 ^ 31 ∧ ∀ c ∈ codePoints s, c.toNat < 0x20000

theorem printable_utf8_iff :
    Printable (utf8 cs) ↔ (utf8 cs).length < 2 ^ 31 ∧ ∀ c ∈ cs, c.toNat < 0x20000 := by
  rw [Printable, codePoints, utf8Decode_utf8, Option.getD_some]

theorem exists_stringifyStringRaw {s : Bytes} (hs : ∃ cs, s = utf8 cs) (h : Printable s) :
    ∃ text, stringifyStringRaw s = .ok text := by
  obtain ⟨cs, rfl⟩ := hs
  exact ⟨_, stringifyStringRaw_of_lt h.1⟩

/-- **The values that come back.** If the C library prints finite numbers exactly, printing and
parsing a value returns it exactly if every string and key is printable and the size of every object
is an `int`. -/
theorem parse_dump_iff (hN : Number.Exact N finite) {json : Json N} (hjson : Valid finite json) :
    (∃ text, json.dump = .ok text ∧ parseStdString text = .ok json) ↔
      (∀ s ∈ json.strings, Printable s) ∧ ∀ n ∈ json.objectSizes, n < 2 ^ 31 := by
  have hecho : (∀ s ∈ json.strings, Printable s) ↔ ∀ s ∈ json.strings, echo s = s := by
    refine forall₂_congr fun s hs ↦ ?_
    obtain ⟨cs, rfl⟩ := hjson.exists_utf8 s hs
    rw [printable_utf8_iff, echo_eq_self_iff]
  rw [parse_dump_eq_ok_iff hN hjson, exists_stringify_iff hjson,
    remap_eq_self_iff echo_echo hjson, ← hecho]
  constructor
  · rintro ⟨⟨-, hsizes⟩, hprintable⟩
    exact ⟨hprintable, hsizes⟩
  · rintro ⟨hprintable, hsizes⟩
    refine ⟨⟨fun s hs ↦ ?_, hsizes⟩, hprintable⟩
    exact exists_stringifyStringRaw (hjson.exists_utf8 s hs) (hprintable s hs)

/-- An array, a string with an accent and an emoji, and an object in an object. -/
def menu : Json ℤ :=
  .object [
    (utf8 ['a'], .array [.null, .boolean true, .number (-12),
      .string (utf8 [Char.ofNat 0xE9, Char.ofNat 0x1F600, '\n'])]),
    (utf8 ['b'], .object [(utf8 [], .number 0)])]

theorem valid_menu : Valid (fun _ ↦ True) menu := by
  refine .object (by decide +kernel) ?_ ?_
  · simp only [forall_mem_cons]
    exact ⟨⟨_, rfl⟩, ⟨_, rfl⟩, fun _ h ↦ absurd h not_mem_nil⟩
  · simp only [forall_mem_cons]
    refine ⟨.array ?_, .object (by decide +kernel) ?_ ?_, fun _ h ↦ absurd h not_mem_nil⟩
    · simp only [forall_mem_cons]
      exact ⟨.null, .boolean true, .number trivial, .string _, fun _ h ↦ absurd h not_mem_nil⟩
    · exact forall_mem_singleton.mpr ⟨[], rfl⟩
    · exact forall_mem_singleton.mpr (.number trivial)

theorem parse_dump_menu : ∃ text, menu.dump = .ok text ∧ parseStdString text = .ok menu := by
  have hstrings : menu.strings =
      [['a'], ['b'], [Char.ofNat 0xE9, Char.ofNat 0x1F600, '\n'], []].map utf8 := rfl
  have hlength : ∀ cs ∈ [['a'], ['b'], [Char.ofNat 0xE9, Char.ofNat 0x1F600, '\n'], []],
      (utf8 cs).length ≤ 8 := by decide
  have hchar {n : ℕ} (hn : n < 0xD800 ∨ 0xDFFF < n ∧ n < 0x20000) :
      (Char.ofNat n).toNat < 0x20000 := by
    rw [Char.toNat_ofNat_of_isValidChar (hn.imp id fun h ↦ ⟨h.1, by omega⟩)]
    omega
  have hplane : ∀ cs ∈ [['a'], ['b'], [Char.ofNat 0xE9, Char.ofNat 0x1F600, '\n'], []],
      ∀ c ∈ cs, c.toNat < 0x20000 := by
    simp only [forall_mem_cons]
    norm_num [hchar]
  have hsizes : menu.objectSizes = [2, 1] := rfl
  refine (parse_dump_iff Decimal.exact valid_menu).mpr ⟨?_, ?_⟩
  · rw [hstrings, forall_mem_map]
    intro cs hcs
    exact (printable_utf8_iff cs).mpr ⟨(hlength cs hcs).trans_lt (by norm_num), hplane cs hcs⟩
  · rw [hsizes]
    simp

/-- U+20000 comes back as U+10000. -/
theorem parse_dump_plane_two :
    Valid (fun _ ↦ True) (.string (utf8 [Char.ofNat 0x20000]) : Json ℤ) ∧
      (Json.string (utf8 [Char.ofNat 0x20000]) : Json ℤ).dump = .ok (chars "\"\\uD800\\uDC00\"") ∧
      parseStdString (chars "\"\\uD800\\uDC00\"") =
        .ok (.string (utf8 [Char.ofNat 0x10000]) : Json ℤ) ∧
      utf8 [Char.ofNat 0x10000] ≠ utf8 [Char.ofNat 0x20000] := by
  have htext : chars "\"\\uD800\\uDC00\"" = quoted [Char.ofNat 0x20000] := by decide +kernel
  have hfold : [Char.ofNat 0x20000].map foldPlane = [Char.ofNat 0x10000] := by decide +kernel
  refine ⟨.string _, by decide +kernel, ?_, by decide +kernel⟩
  rw [htext, parseStdString_of_reads (reads_string _), hfold]

end Json

end Fishnet

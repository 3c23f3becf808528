import Fishnet.Json.GrammarString

/-!
# Texts of the grammar, parsed

`parse` on the texts that the grammar derives. A text is read as the value that it denotes exactly
if its strings are accepted and its numerals are finite (`Json.parse_answers`). Otherwise the parser
reports a failure. It never runs out of fuel, so that nesting is not bounded.

## The library

`parse_number` scans a numeral, but calls `strtod` on the whole rest of the text.
`Number.ReadsNumeral` is what is assumed of it: where a numeral is followed by something that can
follow a value, `strtod` reads that numeral and no more. The integers in decimal notation are
an instance.

## Shape of the proof

For each production of the grammar there is one lemma that says what the parser does with the text
of the production, given what it does with the parts. `valueParses` and the two statements beside it
put them together, by recursion on the derivation.

## Main results

* `Json.parse_answers`: the texts of the grammar, parsed.
* `Json.parse_succeeds_iff`: the texts with paired surrogates and finite numerals that are accepted
  are those without an escaped U+10FFFF.
-/

namespace Fishnet

open Grammar List

/-- What can follow a value in a text. -/
def Follows (rest : Bytes) : Prop :=
  ∃ c r, rest = c :: r ∧ (c = chr ',' ∨ c = chr ']' ∨ c = chr '\x7d' ∨ c = 0 ∨ Json.Blank c)

/-- `strtod` reads a numeral up to where it ends. -/
structure Number.ReadsNumeral (N : Type) [Number N] : Prop where
  strtod_append : ∀ t, NumberText t → ∀ rest, Follows rest →
    (Number.strtod (t ++ rest) : N) = Number.strtod (t ++ [0])

namespace Json

theorem ends_of_follows {rest : Bytes} (h : Follows rest) : Ends rest := by
  obtain ⟨c, r, rfl, hc⟩ := h
  refine ⟨c, r, rfl, ?_⟩
  rcases hc with rfl | rfl | rfl | rfl | rfl | rfl | rfl | rfl <;> decide

end Json

/-- A numeral of decimal notation is read up to its first character that is not a digit. -/
theorem Decimal.strtod_numeral {t rest : Bytes} (ht : NumberText t) (hrest : Json.Ends rest) :
    (Number.strtod (t ++ rest) : ℤ) = Number.strtod (t ++ [0]) := by
  obtain ⟨sign, int, frac, exp, rfl, hsign, hint, hfrac, hexp⟩ := ht
  have hdigits : Digits int := by
    rcases hint with rfl | ⟨d, ds, rfl, hd, -, hds⟩
    · exact fun d hd ↦ by rw [mem_singleton.mp hd]; decide
    · intro x hx
      rcases mem_cons.mp hx with rfl | hx
      · exact hd
      · exact hds x hx
  have hread {r : Bytes} (hr : Json.Ends r) :
      (int ++ (frac ++ (exp ++ r))).takeWhile Json.isdigit = int := by
    obtain ⟨c, r', hcr, hdigit, -⟩ := Json.stops_exponent hexp hr
    rw [hcr]
    exact takeWhile_isdigit hdigits (Json.stops_fraction hfrac hdigit)
  have hzero : Json.Ends [0] := ⟨0, [], rfl, by decide⟩
  simp only [append_assoc]
  rcases hsign with rfl | rfl
  · obtain ⟨d, ds, hint, hd⟩ := Json.head_of_integer hint
    have hminus (r : Bytes) : ¬([] ++ (int ++ r)).head? = some (chr '-') := by
      rw [hint]
      intro hhead
      rw [Option.some.inj hhead] at hd
      exact absurd hd (by decide)
    change (if ([] ++ (int ++ (frac ++ (exp ++ rest)))).head? = some (chr '-') then _ else _) =
      (if ([] ++ (int ++ (frac ++ (exp ++ [0])))).head? = some (chr '-') then _ else _)
    rw [if_neg (hminus _), if_neg (hminus _), nil_append, nil_append, hread hrest,
      hread hzero]
  · change -(Decimal.read ((int ++ (frac ++ (exp ++ rest))).takeWhile Json.isdigit) : ℤ) =
      -(Decimal.read ((int ++ (frac ++ (exp ++ [0]))).takeWhile Json.isdigit) : ℤ)
    rw [hread hrest, hread hzero]

theorem Decimal.readsNumeral : Number.ReadsNumeral ℤ where
  strtod_append _ ht _ hrest := Decimal.strtod_numeral ht (Json.ends_of_follows hrest)

namespace Json

variable {N : Type} [Number N] {fuel : ℕ} {text rest : Bytes}

/-! ## White space -/

variable (ws : Ws)

theorem parseWhitespace_append {c : UInt8} (hc : ¬Blank c) (text : Bytes) :
    parseWhitespace (ws.1 ++ c :: text) = .ok (c :: text) := by
  obtain ⟨w, hw⟩ := ws
  induction w with
  | nil => exact parseWhitespace_cons hc text
  | cons b w ih =>
    have hb : Blank b := hw b mem_cons_self
    change parseWhitespace (b :: (w ++ c :: text)) = _
    rw [parseWhitespace]
    exact (if_pos hb).trans (ih fun d hd ↦ hw d (mem_cons_of_mem _ hd))

theorem parseWhitespace_of_starts (h : Starts text) :
    parseWhitespace (ws.1 ++ text) = .ok text := by
  obtain ⟨c, t, rfl, hc, -⟩ := h
  exact parseWhitespace_append ws hc t

theorem parseText_ws (h : Starts text) :
    (parseText fuel (ws.1 ++ text) : Except Stop (Json N × Bytes)) = parseText fuel text := by
  cases fuel with
  | zero => rfl
  | succ fuel =>
    have hempty : parseWhitespace text = .ok text := parseWhitespace_of_starts ⟨[], by simp⟩ h
    rw [parseText, parseText, parseWhitespace_of_starts ws h, hempty]

theorem parseElements_ws (h : Starts text) (acc : List (Json N)) :
    parseElements fuel acc (ws.1 ++ text) = parseElements fuel acc text := by
  cases fuel with
  | zero => rfl
  | succ fuel => rw [parseElements, parseElements, parseText_ws ws h]

theorem follows_append {c : UInt8} {r : Bytes}
    (hc : c = chr ',' ∨ c = chr ']' ∨ c = chr '\x7d' ∨ c = 0) : Follows (ws.1 ++ c :: r) := by
  obtain ⟨w, hw⟩ := ws
  cases w with
  | nil =>
    refine ⟨c, r, rfl, ?_⟩
    rcases hc with h | h | h | h <;> simp [h]
  | cons b w => exact ⟨b, _, rfl, by simp [hw b mem_cons_self]⟩

/-! ## What has to hold -/

/-- `strtod` gives a finite number for the numeral. -/
def FiniteNumeral (N : Type) [Number N] (t : Numeral) : Prop :=
  Number.isinf (Number.strtod (t.1 ++ [0]) : N) = false

/-- The strings are accepted and the numerals finite. -/
def Acceptable (N : Type) [Number N] (strings : List (List Item)) (numerals : List Numeral) :
    Prop :=
  (∀ s ∈ strings, Accepted s) ∧ ∀ t ∈ numerals, FiniteNumeral N t

theorem acceptable_nil : Acceptable N [] [] :=
  ⟨fun _ h ↦ absurd h not_mem_nil, fun _ h ↦ absurd h not_mem_nil⟩

theorem acceptable_append {ss ss' : List (List Item)} {ts ts' : List Numeral} :
    Acceptable N (ss ++ ss') (ts ++ ts') ↔ Acceptable N ss ts ∧ Acceptable N ss' ts' := by
  rw [Acceptable, forall_mem_append, forall_mem_append, and_and_and_comm]
  rfl

theorem acceptable_cons {s : List Item} {ss : List (List Item)} {ts : List Numeral} :
    Acceptable N (s :: ss) ts ↔ Accepted s ∧ Acceptable N ss ts := by
  rw [Acceptable, forall_mem_cons, and_assoc]
  rfl

variable (N) in
/-- The value is read as what it denotes, wherever it stands. -/
def ValueParses (v : Value) : Prop :=
  ∀ fuel rest, 2 * v.render.length ≤ fuel → Follows rest →
    Answers (Acceptable N v.strings v.numerals) (parseText fuel (v.render ++ rest))
      (v.denote N, rest)

variable (N) in
/-- The same for the elements of an array. -/
def ElementsParse (es : Elements) : Prop :=
  ∀ fuel acc rest, 2 * es.render.length < fuel →
    Answers (Acceptable N es.strings es.numerals)
      (parseElements fuel acc (es.render ++ chr ']' :: rest)) (acc ++ es.denote N, rest)

variable (N) in
/-- The same for the members of an object. -/
def MembersParse (ms : Members) : Prop :=
  ∀ fuel acc rest, 2 * ms.render.length < fuel →
    Answers (Acceptable N ms.strings ms.numerals)
      (parseMembers fuel acc (ms.render ++ chr '\x7d' :: rest))
      ((ms.denote N).foldl (fun m x ↦ OrderedMap.emplace x.1 x.2 m) acc, rest)

/-- After a value, its reader skips white space and looks at the next character. -/
theorem ValueParses.then {v : Value} (hv : ValueParses N v) (after : Ws) {c : UInt8}
    (hc : c = chr ',' ∨ c = chr ']' ∨ c = chr '\x7d' ∨ c = 0) (hfuel : 2 * v.render.length ≤ fuel)
    {β : Type} {f : Json N × Bytes → Bytes → Except Stop β} {b : β} {p : Prop}
    (hrest : Answers p (f (v.denote N, after.1 ++ c :: rest) (c :: rest)) b) :
    Answers (Acceptable N v.strings v.numerals ∧ p)
      (parseText fuel (v.render ++ (after.1 ++ c :: rest)) >>= fun r ↦
        parseWhitespace r.2 >>= f r) b := by
  have hblank : ¬Blank c := by rcases hc with rfl | rfl | rfl | rfl <;> decide
  refine (hv fuel _ hfuel (follows_append after hc)).bind ?_
  change Answers _ (parseWhitespace (after.1 ++ c :: rest) >>= _) _
  rw [parseWhitespace_append after hblank]
  exact hrest

/-! ## Literals, numbers and strings -/

theorem parses_of_ok {v : Value} (hv : Acceptable N v.strings v.numerals)
    (hparse : ∀ k rest, parseText (k + 1) (v.render ++ rest) = .ok (v.denote N, rest)) :
    ValueParses N v := by
  intro fuel rest hfuel _
  obtain ⟨k, rfl⟩ := exists_fuel v.starts_render hfuel
  exact (answers_of_ok (hparse k rest)).congr (iff_true_intro hv)

theorem parses_null : ValueParses N .null := parses_of_ok acceptable_nil fun _ _ ↦ rfl

theorem parses_boolean (b : Bool) : ValueParses N (.boolean b) :=
  parses_of_ok acceptable_nil fun _ _ ↦ by cases b <;> rfl

theorem parses_number (hN : Number.ReadsNumeral N) (t : Numeral) : ValueParses N (.number t) := by
  intro fuel rest hfuel hrest
  obtain ⟨k, rfl⟩ := exists_fuel (Value.number t).starts_render hfuel
  obtain ⟨c, t', ht, hc⟩ := head_of_numberText t.2
  have hnumber : Answers (FiniteNumeral N t) (parseNumber (t.1 ++ rest))
      ((Number.strtod (t.1 ++ [0]) : N), rest) := by
    rw [parseNumber_append t.2 (ends_of_follows hrest), hN.strtod_append t.1 t.2 rest hrest,
      FiniteNumeral]
    split_ifs with hinf
    · exact (answers_of_ret rfl).congr (iff_false_intro (by rw [hinf]; decide))
    · exact (answers_of_ok rfl).congr (iff_true_intro (Bool.eq_false_of_not_eq_true hinf))
  have hacceptable : Acceptable N (Value.number t).strings (Value.number t).numerals ↔
      FiniteNumeral N t := by
    simp [Acceptable, Value.strings, Value.numerals]
  refine Answers.congr ?_ hacceptable
  change Answers _ (parseText (k + 1) (t.1 ++ rest)) _
  rw [ht, cons_append] at hnumber ⊢
  rw [parseText_number hc]
  rw [← cons_append, ← ht] at hnumber ⊢
  exact hnumber.bind_ok rfl

theorem parses_string (items : List Item) : ValueParses N (.string items) := by
  intro fuel rest hfuel _
  obtain ⟨k, rfl⟩ := exists_fuel (Value.string items).starts_render hfuel
  have hacceptable : Acceptable N (Value.string items).strings (Value.string items).numerals ↔
      Accepted items := by
    simp [Acceptable, Value.strings, Value.numerals]
  have hparse : (parseText (k + 1) ((Value.string items).render ++ rest) :
      Except Stop (Json N × Bytes)) =
      parseString (renderString items ++ rest) >>= fun r ↦ .ok (.string r.1, r.2) := rfl
  have hstring := (parseString_answers items rest).congr hacceptable
  rw [hparse]
  exact hstring.bind_ok rfl

/-! ## Arrays -/

omit [Number N] in
theorem parseArray_ws (h : Starts text)
    (loop : Bytes → Except Stop (List (Json N) × Bytes)) :
    parseArray loop (chr '[' :: (ws.1 ++ text)) =
      loop text >>= fun r ↦ .ok (.array r.1, r.2) := by
  have hempty : parseWhitespace text = .ok text := parseWhitespace_of_starts ⟨[], by simp⟩ h
  rw [← parseArray_of_starts h, parseArray, parseArray, tail_cons, tail_cons,
    parseWhitespace_of_starts ws h, hempty]

theorem parses_emptyArray : ValueParses N (.emptyArray ws) := by
  refine parses_of_ok acceptable_nil fun k rest ↦ ?_
  have hassoc : (Value.emptyArray ws).render ++ rest = chr '[' :: (ws.1 ++ chr ']' :: rest) := by
    rw [Value.render, cons_append, append_assoc]
    rfl
  rw [hassoc]
  change (parseWhitespace (ws.1 ++ chr ']' :: rest) >>= _) = _
  rw [parseWhitespace_append ws (by decide)]
  rfl

theorem parses_array (before : Ws) {es : Elements} (h : ElementsParse N es) :
    ValueParses N (.array before es) := by
  intro fuel rest hfuel _
  obtain ⟨k, rfl⟩ := exists_fuel (Value.array before es).starts_render hfuel
  have hassoc : (Value.array before es).render ++ rest =
      chr '[' :: (before.1 ++ (es.render ++ chr ']' :: rest)) := by
    simp only [Value.render, cons_append, append_assoc, nil_append]
  have hlength : es.render.length + 2 ≤ (Value.array before es).render.length := by
    simp only [Value.render, length_cons, length_append, length_nil]
    omega
  have hparse : (parseText (k + 1) ((Value.array before es).render ++ rest) :
      Except Stop (Json N × Bytes)) =
      parseElements k [] (es.render ++ chr ']' :: rest) >>= fun r ↦ .ok (.array r.1, r.2) := by
    rw [hassoc]
    change parseArray (fun text ↦ parseElements k [] text) _ = _
    rw [parseArray_ws before (es.starts_render.append _)]
  rw [hparse]
  exact (h k [] rest (by omega)).bind_ok rfl

theorem parses_lastElement {v : Value} (hv : ValueParses N v) (after : Ws) :
    ElementsParse N (.last v after) := by
  intro fuel acc rest hfuel
  have hlength : (Elements.last v after).render.length = v.render.length + after.1.length :=
    length_append
  obtain ⟨k, rfl⟩ := Nat.exists_eq_add_one.mpr (Nat.zero_lt_of_lt hfuel)
  rw [Elements.render, append_assoc, parseElements]
  refine (hv.then after (Or.inr (Or.inl rfl)) ?_ (answers_of_ok rfl)).congr
    (iff_of_eq (and_true (Acceptable N v.strings v.numerals))).symm
  omega

theorem parses_consElement {v : Value} (hv : ValueParses N v) (after before : Ws) {es : Elements}
    (hes : ElementsParse N es) : ElementsParse N (.cons v after before es) := by
  intro fuel acc rest hfuel
  have hlength : v.render.length + es.render.length + 1 ≤
      (Elements.cons v after before es).render.length := by
    simp only [Elements.render, length_append, length_cons]
    omega
  have hpos := v.starts_render.length_pos
  obtain ⟨k, rfl⟩ := Nat.exists_eq_add_one.mpr (Nat.zero_lt_of_lt hfuel)
  have hloop := hes k (acc ++ [v.denote N]) rest (by omega)
  rw [append_assoc, ← parseElements_ws before (es.starts_render.append _)] at hloop
  have hassoc : (Elements.cons v after before es).render ++ chr ']' :: rest =
      v.render ++ (after.1 ++ chr ',' :: (before.1 ++ (es.render ++ chr ']' :: rest))) := by
    simp only [Elements.render, append_assoc, cons_append]
  rw [hassoc, parseElements]
  refine Answers.congr (hv.then after (Or.inl rfl) ?_ hloop) acceptable_append
  omega

/-! ## Objects -/

theorem parseKey_answers (key : List Item) (rest : Bytes) :
    Answers (Accepted key) (parseKey (renderString key ++ rest)) (decode key, rest) := by
  have hstring := parseString_answers key rest
  have hparse := parseKey_of_head (renderString key ++ rest) rfl
  refine ⟨fun hkey ↦ ?_, fun hkey ↦ ?_⟩
  · rw [hparse, hstring.1 hkey]
  · obtain ⟨r, hr⟩ := hstring.2 hkey
    exact ⟨.missKey, by rw [hparse, hr]; rfl⟩

theorem parseKeyColon_answers (key : List Item) (colon : Ws × Ws) (rest : Bytes) :
    Answers (Accepted key) (parseKeyColon (renderKey key colon ++ rest))
      (decode key, colon.2.1 ++ rest) := by
  have hassoc : renderKey key colon ++ rest =
      renderString key ++ (colon.1.1 ++ chr ':' :: (colon.2.1 ++ rest)) := by
    simp only [renderKey, append_assoc, cons_append]
  rw [hassoc, parseKeyColon]
  refine (parseKey_answers key _).bind_ok ?_
  change (parseWhitespace (colon.1.1 ++ chr ':' :: (colon.2.1 ++ rest)) >>= _) = _
  rw [parseWhitespace_append colon.1 (by decide)]
  rfl

omit [Number N] in
theorem parseObject_ws {t : Bytes}
    (loop : Bytes → Except Stop (List (Bytes × Json N) × Bytes)) :
    parseObject loop (chr '\x7b' :: (ws.1 ++ chr '\"' :: t)) =
      loop (chr '\"' :: t) >>= fun r ↦ .ok (.object r.1, r.2) := by
  rw [parseObject, tail_cons, parseWhitespace_append ws (by decide)]
  rfl

theorem parses_emptyObject : ValueParses N (.emptyObject ws) := by
  refine parses_of_ok acceptable_nil fun k rest ↦ ?_
  have hassoc : (Value.emptyObject ws).render ++ rest =
      chr '\x7b' :: (ws.1 ++ chr '\x7d' :: rest) := by
    rw [Value.render, cons_append, append_assoc]
    rfl
  rw [hassoc]
  change (parseWhitespace (ws.1 ++ chr '\x7d' :: rest) >>= _) = _
  rw [parseWhitespace_append ws (by decide)]
  rfl

theorem parses_object (before : Ws) {ms : Members} (h : MembersParse N ms) :
    ValueParses N (.object before ms) := by
  intro fuel rest hfuel _
  obtain ⟨k, rfl⟩ := exists_fuel (Value.object before ms).starts_render hfuel
  have hassoc : (Value.object before ms).render ++ rest =
      chr '\x7b' :: (before.1 ++ (ms.render ++ chr '\x7d' :: rest)) := by
    simp only [Value.render, cons_append, append_assoc, nil_append]
  have hlength : ms.render.length + 2 ≤ (Value.object before ms).render.length := by
    simp only [Value.render, length_cons, length_append, length_nil]
    omega
  have hparse : (parseText (k + 1) ((Value.object before ms).render ++ rest) :
      Except Stop (Json N × Bytes)) =
      parseMembers k [] (ms.render ++ chr '\x7d' :: rest) >>= fun r ↦
        .ok (.object r.1, r.2) := by
    rw [hassoc]
    change parseObject (fun text ↦ parseMembers k [] text) _ = _
    obtain ⟨t, ht⟩ := ms.head_render
    rw [ht]
    exact parseObject_ws before _
  -- the bindings emplaced one by one are the first ones of each key
  rw [hparse, Value.denote, ← OrderedMap.ofList_eq_firstBindings]
  exact (h k [] rest (by omega)).bind_ok rfl

theorem parseMembers_answers (key : List Item) (colon : Ws × Ws) {v : Value} (hv : ValueParses N v)
    (after : Ws) {c : UInt8} (hc : c = chr ',' ∨ c = chr ']' ∨ c = chr '\x7d' ∨ c = 0)
    (hfuel : 2 * v.render.length ≤ fuel) {β : Type}
    {f : Bytes × Bytes → Json N × Bytes → Bytes → Except Stop β} {b : β} {p : Prop}
    (hrest : Answers p (f (decode key, colon.2.1 ++ (v.render ++ (after.1 ++ c :: rest)))
      (v.denote N, after.1 ++ c :: rest) (c :: rest)) b) :
    Answers (Accepted key ∧ Acceptable N v.strings v.numerals ∧ p)
      (parseKeyColon (renderKey key colon ++ (v.render ++ (after.1 ++ c :: rest))) >>= fun k ↦
        parseText fuel k.2 >>= fun r ↦ parseWhitespace r.2 >>= f k r) b := by
  refine (parseKeyColon_answers key colon _).bind ?_
  change Answers _ (parseText fuel (colon.2.1 ++ (v.render ++ (after.1 ++ c :: rest))) >>= _) _
  rw [parseText_ws colon.2 (v.starts_render.append _)]
  exact hv.then after hc hfuel hrest

theorem parses_lastMember (key : List Item) (colon : Ws × Ws) {v : Value} (hv : ValueParses N v)
    (after : Ws) : MembersParse N (.last key colon v after) := by
  intro fuel acc rest hfuel
  have hlength : v.render.length ≤ (Members.last key colon v after).render.length := by
    simp only [Members.render, length_append]
    omega
  obtain ⟨k, rfl⟩ := Nat.exists_eq_add_one.mpr (Nat.zero_lt_of_lt hfuel)
  rw [Members.render, append_assoc, append_assoc, parseMembers]
  refine Answers.congr (parseMembers_answers key colon hv after (Or.inr (Or.inr (Or.inl rfl)))
    ?_ (answers_of_ok rfl)) ?_
  · omega
  · rw [and_true]
    exact acceptable_cons

theorem parses_consMember (key : List Item) (colon : Ws × Ws) {v : Value} (hv : ValueParses N v)
    (after before : Ws) {ms : Members} (hms : MembersParse N ms) :
    MembersParse N (.cons key colon v after before ms) := by
  intro fuel acc rest hfuel
  have hlength : v.render.length + ms.render.length + 1 ≤
      (Members.cons key colon v after before ms).render.length := by
    simp only [Members.render, length_append, length_cons]
    omega
  have hpos := v.starts_render.length_pos
  obtain ⟨k, rfl⟩ := Nat.exists_eq_add_one.mpr (Nat.zero_lt_of_lt hfuel)
  have hloop := hms k (OrderedMap.emplace (decode key) (v.denote N) acc) rest (by omega)
  have hskip : parseWhitespace (before.1 ++ (ms.render ++ chr '\x7d' :: rest)) =
      .ok (ms.render ++ chr '\x7d' :: rest) := by
    obtain ⟨t, ht⟩ := ms.head_render
    rw [ht, cons_append, parseWhitespace_append before (by decide)]
  have hassoc : (Members.cons key colon v after before ms).render ++ chr '\x7d' :: rest =
      renderKey key colon ++ (v.render ++ (after.1 ++ chr ',' ::
        (before.1 ++ (ms.render ++ chr '\x7d' :: rest)))) := by
    simp only [Members.render, append_assoc, cons_append]
  have hacceptable : Acceptable N (Members.cons key colon v after before ms).strings
      (Members.cons key colon v after before ms).numerals ↔
      Accepted key ∧ Acceptable N v.strings v.numerals ∧ Acceptable N ms.strings ms.numerals := by
    rw [← acceptable_append]
    exact acceptable_cons
  rw [hassoc, parseMembers]
  refine (parseMembers_answers key colon hv after (Or.inl rfl) ?_ ?_).congr hacceptable
  · omega
  · change Answers _ (parseWhitespace (before.1 ++ (ms.render ++ chr '\x7d' :: rest)) >>= _) _
    rw [hskip]
    exact hloop

/-! ## Texts -/

mutual

theorem valueParses (hN : Number.ReadsNumeral N) (v : Value) : ValueParses N v := by
  cases v with
  | null => exact parses_null
  | boolean b => exact parses_boolean b
  | number t => exact parses_number hN t
  | string items => exact parses_string items
  | emptyArray ws => exact parses_emptyArray ws
  | array before es => exact parses_array before (elementsParse hN es)
  | emptyObject ws => exact parses_emptyObject ws
  | object before ms => exact parses_object before (membersParse hN ms)

theorem elementsParse (hN : Number.ReadsNumeral N) (es : Elements) : ElementsParse N es := by
  cases es with
  | last v after => exact parses_lastElement (valueParses hN v) after
  | cons v after before es =>
    exact parses_consElement (valueParses hN v) after before (elementsParse hN es)

theorem membersParse (hN : Number.ReadsNumeral N) (ms : Members) : MembersParse N ms := by
  cases ms with
  | last key colon v after => exact parses_lastMember key colon (valueParses hN v) after
  | cons key colon v after before ms =>
    exact parses_consMember key colon (valueParses hN v) after before (membersParse hN ms)

end

/-- A text with something behind it that can follow a value: only a NUL ends it. -/
theorem parse_text_answers (hN : Number.ReadsNumeral N) (t : Text) {c : UInt8}
    (hc : c = chr ',' ∨ c = chr ']' ∨ c = chr '\x7d' ∨ c = 0) (junk : Bytes) :
    Answers (Acceptable N t.value.strings t.value.numerals ∧ c = 0) (parse (t.render ++ c :: junk))
      (t.value.denote N) := by
  have hassoc : t.render ++ c :: junk =
      t.before.1 ++ (t.value.render ++ (t.after.1 ++ c :: junk)) := by
    simp only [Text.render, append_assoc]
  have hfuel : 2 * t.value.render.length ≤
      2 * (t.before.1 ++ (t.value.render ++ (t.after.1 ++ c :: junk))).length := by
    simp only [length_append]
    omega
  rw [parse, hassoc, parseText_ws t.before (t.value.starts_render.append _)]
  refine (valueParses hN t.value).then t.after hc hfuel ⟨fun hzero ↦ ?_, fun hzero ↦ ?_⟩
  · exact if_neg (not_not.mpr hzero)
  · exact ⟨_, if_pos hzero⟩

/-- **Texts, parsed.** A text is read as the value that it denotes, or its failure is reported. -/
theorem parse_answers (hN : Number.ReadsNumeral N) (t : Text) (junk : Bytes) :
    Answers (Acceptable N t.value.strings t.value.numerals) (parse (t.render ++ 0 :: junk))
      (t.value.denote N) :=
  (parse_text_answers hN t (Or.inr (Or.inr (Or.inr rfl))) junk).congr
    (and_iff_left rfl).symm

/-- **Completeness of the parser, and its exception.** Of the texts whose surrogates are in pairs
and whose numerals are finite, those without an escaped U+10FFFF are accepted. -/
theorem parse_succeeds_iff (hN : Number.ReadsNumeral N) (t : Text)
    (hpaired : ∀ s ∈ t.value.strings, Paired s)
    (hfinite : ∀ n ∈ t.value.numerals, FiniteNumeral N n) (junk : Bytes) :
    (∃ json : Json N, parse (t.render ++ 0 :: junk) = .ok json) ↔
      ∀ s ∈ t.value.strings, ¬HasTop s := by
  rw [(parse_answers hN t junk).exists_ok_iff]
  constructor
  · exact fun h s hs ↦ (h.1 s hs).2
  · exact fun h ↦ ⟨fun s hs ↦ ⟨hpaired s hs, h s hs⟩, hfinite⟩

/-! ## Two texts -/

/-- A string with the surrogate pair of U+1F600 and a line feed. -/
def grin : List Item := [.unicode (hex4 0xD83D), .unicode (hex4 0xDE00), .escape .lineFeed]

theorem accepted_grin : Accepted grin :=
  (accepted_pair (by decide) (by decide)).mpr
    ⟨by decide, (accepted_cons fun _ h ↦ by cases h).mpr accepted_nil⟩

/-- An array of a number and an object. -/
def sampleText : Text where
  before := ⟨chars " ", by decide⟩
  value := .array noWs
    (.cons (.number ⟨Number.print (-15 : ℤ), Decimal.numberText_print _⟩) noWs
    ⟨chars " ", by decide⟩
    (.last (.object noWs (.last grin (⟨chars " ", by decide⟩, noWs) (.boolean true) noWs))
      ⟨chars "\n", by decide⟩))
  after := noWs

theorem acceptable_sampleText : Acceptable ℤ sampleText.value.strings sampleText.value.numerals :=
  ⟨fun _ hs ↦ mem_singleton.mp hs ▸ accepted_grin, fun _ _ ↦ rfl⟩

theorem parse_succeeds_sampleText :
    sampleText.render = chars " [-15, \x7b\"\\uD83D\\uDE00\\n\" :true\x7d\n]" ∧
      ∃ json : Json ℤ, parse (sampleText.render ++ [0]) = .ok json := by
  obtain ⟨hstrings, hnumerals⟩ := acceptable_sampleText
  refine ⟨by decide +kernel, ?_⟩
  exact (parse_succeeds_iff Decimal.readsNumeral sampleText (fun s hs ↦ (hstrings s hs).1)
    hnumerals []).mpr fun s hs ↦ (hstrings s hs).2

/-- The escapes of U+10FFFF. -/
def topPair : List Item := [.unicode (hex4 0xDBFF), .unicode (hex4 0xDFFF)]

theorem paired_topPair : Paired topPair := by
  refine paired_cons.mpr ⟨fun _ _ _ ↦ ⟨hex4 0xDFFF, [], rfl, by decide⟩, ?_⟩
  refine paired_cons.mpr ⟨fun hi heq hhi ↦ ?_, accepted_nil.1⟩
  rw [← Item.unicode.inj heq] at hhi
  exact absurd hhi (by decide)

/-- The last code point of Unicode is refused. -/
theorem parse_refuses_top : ∃ t : Text, t.render = chars "\"\\uDBFF\\uDFFF\"" ∧
    (∀ s ∈ t.value.strings, Paired s) ∧ t.value.numerals = [] ∧
      (parse (t.render ++ [0]) : Except Stop (Json ℤ)) = .error (.ret .invalidUnicodeHex) := by
  refine ⟨⟨⟨[], by decide⟩, .string topPair, ⟨[], by decide⟩⟩, by decide +kernel, ?_, rfl, rfl⟩
  exact fun s hs ↦ mem_singleton.mp hs ▸ paired_topPair

end Json

end Fishnet

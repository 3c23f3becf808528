import Fishnet.Json.GrammarSound
import Fishnet.Json.ParseSafe

/-!
# Parsing a view

`Json::parse(std::string_view)` passes on `text.data()` and drops the length, so what it reads are
the characters of the view and then the memory behind them, up to the first NUL. It returns a value
where these characters are an acceptable JSON text, and so the length of the view matters to it in
two cases only: where the view is the beginning of such a text, which the memory may complete or
spoil, and where such a text stands at the front of the view with a NUL right behind it, which hides
the rest. In all other cases the view is read as a text of its length
(`parseView_lengthDelimited_iff`), and also if it has no NUL in it and one right behind it.

That there is a NUL somewhere is assumed throughout: without one, the parser may read on behind
the end of the memory.
-/

namespace Fishnet

open List

namespace Json

open Grammar

variable {N : Type} [Number N] {view memory : Bytes}

/-- What `Json::parse(std::string_view)` does: it returns a value, it throws, or it reads memory
that is not there. -/
inductive Outcome (N : Type) where
  | value (json : Json N)
  | parseError
  | outOfBounds

/-- Every failure is thrown as the same error. -/
def outcome : Except Stop (Json N) → Outcome N
  | .ok json => .value json
  | .error (.ret _) => .parseError
  | .error (.fault _) => .outOfBounds
  | .error .outOfFuel => .outOfBounds

variable (N) in
/-- `Json::parse(std::string_view)` on a view that has `memory` behind it. Of the view, only
`data()` is used. -/
def parseView (view memory : Bytes) : Outcome N := outcome (parse (view ++ memory))

variable (N) in
/-- With such a memory behind it, a view is read as a text of its length: the memory does not change
the outcome, and a value is returned only if all characters of the view together are a JSON text. -/
structure LengthDelimited (Memory : Bytes → Prop) (view : Bytes) : Prop where
  same : ∀ m₁ m₂, Memory m₁ → Memory m₂ → parseView N view m₁ = parseView N view m₂
  text : ∀ m json, Memory m → parseView N view m = .value json → ∃ x : Text, x.render = view

theorem parseView_eq_value {json : Json N} :
    parseView N view memory = .value json ↔ parse (view ++ memory) = .ok json := by
  rw [parseView]
  obtain ⟨r | f⟩ | json' := (parse (view ++ memory) : Except Stop (Json N)) <;> simp [outcome]

theorem parseView_eq_parseError :
    parseView N view memory = .parseError ↔
      ∃ r, (parse (view ++ memory) : Except Stop (Json N)) = .error (.ret r) := by
  rw [parseView]
  obtain ⟨r | f⟩ | json' := (parse (view ++ memory) : Except Stop (Json N)) <;> simp [outcome]

/-- With a NUL in the view or behind it, the parser stays inside. -/
theorem parseView_of_mem (view memory : Bytes) (h : 0 ∈ view ++ memory) :
    (∃ json, parseView N view memory = .value json) ∨ parseView N view memory = .parseError := by
  obtain ⟨json, hjson, -⟩ | hreported := parse_safe (N := N) h
  · exact Or.inl ⟨json, parseView_eq_value.mpr hjson⟩
  · exact Or.inr (parseView_eq_parseError.mpr hreported)

/-- **When a value is returned.** Up to the first NUL there is an acceptable text. -/
theorem exists_parseView_eq_value_iff (hN : Number.ReadsNumeral N) (view memory : Bytes) :
    (∃ json, parseView N view memory = .value json) ↔
      ∃ (x : Text) (junk : Bytes), Acceptable N x.value.strings x.value.numerals ∧
        view ++ memory = x.render ++ 0 :: junk := by
  constructor
  · rintro ⟨json, hjson⟩
    rw [parseView_eq_value] at hjson
    obtain ⟨x, junk, hx⟩ := exists_text_of_parse hjson
    rw [hx] at hjson
    exact ⟨x, junk, ((parse_answers hN x junk).holds hjson).1, hx⟩
  · rintro ⟨x, junk, hacceptable, hx⟩
    refine ⟨x.value.denote N, parseView_eq_value.mpr ?_⟩
    rw [hx]
    exact (parse_answers hN x junk).1 hacceptable

/-- A bracket behind a text spoils it. -/
theorem parseView_bracket (hN : Number.ReadsNumeral N) (x : Text)
    (hx : x.render = view ++ memory) (junk : Bytes) :
    parseView N view (memory ++ chr ']' :: junk) = .parseError := by
  rw [parseView_eq_parseError, ← append_assoc, ← hx]
  exact (parse_text_answers hN x (Or.inr (Or.inl rfl)) junk).2 fun h ↦ absurd h.2 (by decide)

/-- A view that is the beginning of a text, or has one at its front, is not read as it is. -/
theorem LengthDelimited.not_prefix (hN : Number.ReadsNumeral N)
    (h : LengthDelimited N (fun m ↦ 0 ∈ view ++ m) view) (x : Text)
    (hx : Acceptable N x.value.strings x.value.numerals) :
    ¬view <+: x.render ∧ ¬x.render ++ [0] <+: view := by
  constructor
  · rintro ⟨s, hs⟩
    obtain ⟨json, hjson⟩ := (exists_parseView_eq_value_iff hN view (s ++ [0])).mpr
      ⟨x, [], hx, by rw [← append_assoc, hs]⟩
    have hsame := h.same (s ++ [0]) (s ++ chr ']' :: [0]) (by simp) (by simp)
    rw [hjson, parseView_bracket hN x hs.symm [0]] at hsame
    cases hsame
  · rintro ⟨s, hs⟩
    have hview : view = x.render ++ 0 :: s := by rw [← hs, append_assoc, singleton_append]
    have hzero : 0 ∈ view := by simp [hview]
    obtain ⟨json, hjson⟩ := (exists_parseView_eq_value_iff hN view []).mpr
      ⟨x, s, hx, by rw [append_nil, hview]⟩
    obtain ⟨y, hy⟩ := h.text [] json (mem_append_left _ hzero) hjson
    rw [← hy] at hzero
    exact y.zero_notMem_render hzero

/-- In all other cases no memory makes the view a text. -/
theorem parseView_of_not_begins (hN : Number.ReadsNumeral N)
    (h : ∀ x : Text, Acceptable N x.value.strings x.value.numerals →
      ¬view <+: x.render ∧ ¬x.render ++ [0] <+: view)
    (hzero : 0 ∈ view ++ memory) : parseView N view memory = .parseError := by
  refine (parseView_of_mem view memory hzero).resolve_left fun hvalue ↦ ?_
  obtain ⟨x, junk, hx, hsplit⟩ := (exists_parseView_eq_value_iff hN view memory).mp hvalue
  rcases append_eq_append_iff.mp hsplit with ⟨s, hs, -⟩ | ⟨s, hs, htail⟩
  · exact (h x hx).1 ⟨s, hs.symm⟩
  · -- the text ends inside the view, where its NUL is either the end of the view or in it
    cases s with
    | nil => exact (h x hx).1 ⟨[], by rw [hs, append_nil, append_nil]⟩
    | cons c s =>
      rw [cons_append, List.cons.injEq] at htail
      refine (h x hx).2 ⟨s, ?_⟩
      rw [hs, ← htail.1, append_assoc, singleton_append]

/-- A NUL right behind a view without one ends the text where the view ends. -/
theorem lengthDelimited_of_terminated (hN : Number.ReadsNumeral N) (hview : 0 ∉ view) :
    LengthDelimited N (fun m ↦ ∃ m', m = 0 :: m') view := by
  have htext {m' : Bytes} {json : Json N} (h : parseView N view (0 :: m') = .value json) :
      ∃ x : Text, x.render = view :=
    parse_eq_ok hview (parseView_eq_value.mp h)
  constructor
  swap
  · rintro _ json ⟨m, rfl⟩ hjson
    exact htext hjson
  rintro _ _ ⟨m₁, rfl⟩ ⟨m₂, rfl⟩
  by_cases hrender : ∃ x : Text, x.render = view
  · obtain ⟨x, rfl⟩ := hrender
    by_cases hx : Acceptable N x.value.strings x.value.numerals
    · have hvalue (m : Bytes) : parseView N x.render (0 :: m) = .value (x.value.denote N) :=
        parseView_eq_value.mpr ((parse_answers hN x m).1 hx)
      rw [hvalue, hvalue]
    · have herror (m : Bytes) : parseView N x.render (0 :: m) = .parseError :=
        parseView_eq_parseError.mpr ((parse_answers hN x m).2 hx)
      rw [herror, herror]
  · have herror (m : Bytes) : parseView N view (0 :: m) = .parseError :=
      (parseView_of_mem view (0 :: m) (by simp)).resolve_left fun h ↦ hrender (h.elim fun _ ↦ htext)
    rw [herror, herror]

/-- **Parsing a view.** Provided that there is a NUL in the view or behind it, a view is read as a
text of its length exactly if it is not the beginning of an acceptable text and has none at its
front with a NUL right behind. With a NUL right behind it, every view without a NUL is. -/
theorem parseView_lengthDelimited_iff (hN : Number.ReadsNumeral N) (view : Bytes) :
    (LengthDelimited N (fun m ↦ 0 ∈ view ++ m) view ↔
        ∀ x : Text, Acceptable N x.value.strings x.value.numerals →
          ¬view <+: x.render ∧ ¬x.render ++ [0] <+: view) ∧
      (0 ∉ view → LengthDelimited N (fun m ↦ ∃ m', m = 0 :: m') view) := by
  refine ⟨⟨fun h ↦ h.not_prefix hN, fun h ↦ ⟨fun m₁ m₂ hm₁ hm₂ ↦ ?_, fun m json hm hjson ↦ ?_⟩⟩,
    lengthDelimited_of_terminated hN⟩
  · rw [parseView_of_not_begins hN h hm₁, parseView_of_not_begins hN h hm₂]
  · rw [parseView_of_not_begins hN h hm] at hjson
    cases hjson

/-- No text begins with `[x`, and the view `1` may have a NUL behind it. -/
theorem parseView_lengthDelimited_samples :
    LengthDelimited ℤ (fun m ↦ 0 ∈ chars "[x" ++ m) (chars "[x") ∧
      LengthDelimited ℤ (fun m ↦ ∃ m', m = 0 :: m') (chars "1") := by
  have hN := Decimal.readsNumeral
  refine ⟨(parseView_lengthDelimited_iff hN (chars "[x")).1.mpr fun x hx ↦ ⟨?_, ?_⟩,
    (parseView_lengthDelimited_iff hN (chars "1")).2 (by decide)⟩
  · rintro ⟨s, hs⟩
    have hparse := (parse_answers hN x []).1 hx
    rw [← hs] at hparse
    cases hparse
  · rintro ⟨s, hs⟩
    have hzero : 0 ∈ chars "[x" := by simp [← hs]
    exact absurd hzero (by decide)

/-- The view `1` is read as 1 or as 12, depending on what is behind it, and the view of `1`, a NUL
and an `x` is read as 1, although it is no JSON text. -/
theorem parseView_reads_on :
    (parseView ℤ (chars "1") [0] = .value (.number 1) ∧
        parseView ℤ (chars "1") (chars "2" ++ [0]) = .value (.number 12)) ∧
      parseView ℤ (chars "1" ++ 0 :: chars "x") [] = .value (.number 1) ∧
        ¬∃ x : Text, x.render = chars "1" ++ 0 :: chars "x" := by
  refine ⟨⟨rfl, rfl⟩, rfl, ?_⟩
  rintro ⟨x, hx⟩
  have hzero : 0 ∈ x.render := by
    rw [hx]
    decide
  exact x.zero_notMem_render hzero

end Json

end Fishnet

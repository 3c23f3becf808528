import Fishnet.Json.Zjson
import Mathlib.Data.Nat.Digits.Lemmas

/-!
# Numbers, printed and parsed

Printing and reading a number is left to the C library, and `parse_number` adds a scanner for the
JSON grammar. `Number.Exact` collects what is assumed of the library for the numbers that count as
finite: `"%.17g"` prints a numeral of that grammar (`NumberText`), `strtod` reads it back when a
delimiter follows, and the number is not infinite.

The integers in decimal notation satisfy the assumptions.
-/

namespace Fishnet

open List

/-! ## The assumptions -/

/-- A list of digits. -/
def Digits (ds : Bytes) : Prop := ∀ d ∈ ds, Json.isdigit d

/-- An integer without superfluous zeros. -/
def IsInteger (t : Bytes) : Prop :=
  t = chars "0" ∨ ∃ d ds, t = d :: ds ∧ Json.isdigit d ∧ d ≠ chr '0' ∧ Digits ds

/-- A fraction, or nothing. -/
def IsFraction (t : Bytes) : Prop :=
  t = [] ∨ ∃ d ds, t = chr '.' :: d :: ds ∧ Json.isdigit d ∧ Digits ds

/-- An exponent, or nothing. -/
def IsExponent (t : Bytes) : Prop :=
  t = [] ∨ ∃ e s d ds, t = e :: (s ++ d :: ds) ∧ (e = chr 'e' ∨ e = chr 'E') ∧
    (s = [] ∨ s = chars "+" ∨ s = chars "-") ∧ Json.isdigit d ∧ Digits ds

/-- The numerals of JSON. -/
def NumberText (t : Bytes) : Prop :=
  ∃ sign int frac exp, t = sign ++ (int ++ (frac ++ exp)) ∧ (sign = [] ∨ sign = chars "-") ∧
    IsInteger int ∧ IsFraction frac ∧ IsExponent exp

/-- What can follow a value in a printed text: a comma, a closing bracket, or the end. -/
def Delimited (rest : Bytes) : Prop :=
  ∃ c rest', rest = c :: rest' ∧ (c = chr ',' ∨ c = chr ']' ∨ c = chr '\x7d' ∨ c = 0)

/-- The C library prints the finite numbers exactly. -/
structure Number.Exact (N : Type) [Number N] (finite : N → Prop) : Prop where
  numberText : ∀ n, finite n → NumberText (Number.print n)
  strtod_print : ∀ n, finite n → ∀ rest, Delimited rest →
    Number.strtod (Number.print n ++ rest) = n
  not_isinf : ∀ n, finite n → Number.isinf n = false

namespace Json

variable {N : Type} {rest r : Bytes}

/-! ## The scanner -/

/-- The text goes on with something other than a digit. -/
def Stops (r : Bytes) : Prop := ∃ c r', r = c :: r' ∧ ¬isdigit c

theorem skipDigits_append {ds : Bytes} (hds : Digits ds) (hr : Stops r) :
    skipDigits (ds ++ r) = .ok r := by
  induction ds with
  | nil =>
    obtain ⟨c, r', rfl, hc⟩ := hr
    rw [nil_append, skipDigits, if_neg hc]
  | cons d ds ih =>
    rw [cons_append, skipDigits, if_pos (hds d mem_cons_self)]
    exact ih fun d' hd' ↦ hds d' (mem_cons_of_mem _ hd')

theorem scanDigits_cons {d : UInt8} {ds : Bytes} (hd : isdigit d) (hds : Digits ds) (hr : Stops r) :
    scanDigits (d :: (ds ++ r)) = .ok r := by
  rw [scanDigits, deref]
  change (if isdigit d then skipDigits (ds ++ r) else _) = _
  rw [if_pos hd, skipDigits_append hds hr]

/-- The text goes on with something that does not continue a numeral. -/
def Ends (r : Bytes) : Prop :=
  ∃ c r', r = c :: r' ∧ ¬isdigit c ∧ c ≠ chr '.' ∧ ¬(c = chr 'e' ∨ c = chr 'E')

theorem Ends.stops (h : Ends r) : Stops r := by
  obtain ⟨c, r', hr, hdigit, -⟩ := h
  exact ⟨c, r', hr, hdigit⟩

theorem ends_of_delimited (h : Delimited rest) : Ends rest := by
  obtain ⟨c, rest', rfl, hc⟩ := h
  refine ⟨c, rest', rfl, ?_⟩
  rcases hc with rfl | rfl | rfl | rfl <;> decide

theorem scanExponent_append {exp : Bytes} (hexp : IsExponent exp) (hrest : Ends rest) :
    scanExponent (exp ++ rest) = .ok rest := by
  rcases hexp with rfl | ⟨e, s, d, ds, rfl, he, hs, hd, hds⟩
  · obtain ⟨c, rest', rfl, -, -, hne⟩ := hrest
    rw [nil_append, scanExponent, deref]
    exact if_neg hne
  · have hscan := scanDigits_cons hd hds hrest.stops
    have hdsign : ¬(d = chr '+' ∨ d = chr '-') := by
      rintro (rfl | rfl) <;> exact absurd hd (by decide)
    rw [cons_append, append_assoc, cons_append, scanExponent, deref]
    change (if e = chr 'e' ∨ e = chr 'E' then
      deref (s ++ d :: (ds ++ rest)) >>=
        fun sign ↦ scanDigits (if sign = chr '+' ∨ sign = chr '-' then
        (s ++ d :: (ds ++ rest)).tail else s ++ d :: (ds ++ rest)) else _) = _
    rw [if_pos he]
    rcases hs with rfl | rfl | rfl
    · change scanDigits (if d = chr '+' ∨ d = chr '-' then _ else d :: (ds ++ rest)) = _
      rw [if_neg hdsign, hscan]
    · exact hscan
    · exact hscan

theorem stops_exponent {exp : Bytes} (hexp : IsExponent exp) (hrest : Ends rest) :
    ∃ c r, exp ++ rest = c :: r ∧ ¬isdigit c ∧ c ≠ chr '.' := by
  rcases hexp with rfl | ⟨e, s, d, ds, rfl, he, -⟩
  · obtain ⟨c, rest', rfl, hdigit, hdot, -⟩ := hrest
    exact ⟨c, rest', rfl, hdigit, hdot⟩
  · refine ⟨e, _, rfl, ?_⟩
    rcases he with rfl | rfl <;> decide

theorem scanFraction_append {frac : Bytes} {c : UInt8} (hfrac : IsFraction frac)
    (hdigit : ¬isdigit c) (hdot : c ≠ chr '.') : scanFraction (frac ++ c :: r) = .ok (c :: r) := by
  rcases hfrac with rfl | ⟨d, ds, rfl, hd, hds⟩
  · rw [nil_append, scanFraction, deref]
    exact if_neg hdot
  · exact scanDigits_cons hd hds ⟨c, r, rfl, hdigit⟩

theorem stops_fraction {frac : Bytes} {c : UInt8} (hfrac : IsFraction frac) (hdigit : ¬isdigit c) :
    Stops (frac ++ c :: r) := by
  rcases hfrac with rfl | ⟨d, ds, rfl, -⟩
  · exact ⟨c, r, rfl, hdigit⟩
  · exact ⟨chr '.', _, rfl, by decide⟩

theorem scanInteger_append {int : Bytes} (hint : IsInteger int) (hr : Stops r) :
    scanInteger (int ++ r) = .ok r := by
  rcases hint with rfl | ⟨d, ds, rfl, hd, hzero, hds⟩
  · rfl
  · rw [cons_append, scanInteger, deref]
    change (if d = chr '0' then _ else scanDigits (d :: (ds ++ r))) = _
    rw [if_neg hzero, scanDigits_cons hd hds hr]

/-- The first character of a numeral after its sign is a digit. -/
theorem head_of_integer {int : Bytes} (hint : IsInteger int) :
    ∃ d ds, int = d :: ds ∧ isdigit d := by
  rcases hint with rfl | ⟨d, ds, rfl, hd, -⟩
  · exact ⟨chr '0', [], rfl, by decide⟩
  · exact ⟨d, ds, rfl, hd⟩

/-! ## The numeral -/

theorem head_of_numberText {t : Bytes} (h : NumberText t) :
    ∃ c t', t = c :: t' ∧ (c = chr '-' ∨ isdigit c) := by
  obtain ⟨sign, int, frac, exp, rfl, rfl | rfl, hint, -, -⟩ := h
  · obtain ⟨d, ds, rfl, hd⟩ := head_of_integer hint
    exact ⟨d, _, rfl, Or.inr hd⟩
  · exact ⟨chr '-', _, rfl, Or.inl rfl⟩

/-- The characters of a numeral. -/
theorem forall_mem_of_numberText {P : UInt8 → Prop} {t : Bytes} (h : NumberText t)
    (hdigit : ∀ d, isdigit d → P d) (hmark : ∀ c ∈ chars "-.eE+", P c) : ∀ c ∈ t, P c := by
  obtain ⟨sign, int, frac, exp, rfl, hsign, hint, hfrac, hexp⟩ := h
  have hdigits : ∀ d ds, isdigit d → Digits ds → ∀ c ∈ d :: ds, P c := fun d ds hd hds ↦
    forall_mem_cons.mpr ⟨hdigit d hd, fun c hc ↦ hdigit c (hds c hc)⟩
  have hmarks : ∀ ms, ms ⊆ chars "-.eE+" → ∀ c ∈ ms, P c := fun ms hms c hc ↦ hmark c (hms hc)
  simp only [forall_mem_append]
  refine ⟨?_, ?_, ?_, ?_⟩
  · rcases hsign with rfl | rfl <;> exact hmarks _ (by decide)
  · rcases hint with rfl | ⟨d, ds, rfl, hd, -, hds⟩
    · exact hdigits (chr '0') [] (by decide) nofun
    · exact hdigits d ds hd hds
  · rcases hfrac with rfl | ⟨d, ds, rfl, hd, hds⟩
    · exact nofun
    · exact forall_mem_cons.mpr ⟨hmark _ (by decide), hdigits d ds hd hds⟩
  · rcases hexp with rfl | ⟨e, s, d, ds, rfl, he, hs, hd, hds⟩
    · exact nofun
    · refine forall_mem_cons.mpr ⟨hmark e ?_, forall_mem_append.mpr
        ⟨hmarks s ?_, hdigits d ds hd hds⟩⟩
      · rcases he with rfl | rfl <;> decide
      · rcases hs with rfl | rfl | rfl <;> decide

theorem zero_notMem_of_numberText {t : Bytes} (h : NumberText t) : 0 ∉ t := by
  have hmarks : 0 ∉ chars "-.eE+" := by decide
  have hne : ∀ c ∈ t, c ≠ 0 := by
    refine forall_mem_of_numberText h ?_ fun c hc ↦ ne_of_mem_of_not_mem hc hmarks
    rintro d hd rfl
    exact absurd hd (by decide)
  exact fun hzero ↦ hne 0 hzero rfl

/-! ## Printed and parsed -/

variable [Number N] {finite : N → Prop} {n : N}

/-- **Numerals, parsed.** The scans stop exactly where the numeral ends. -/
theorem parseNumber_append {t : Bytes} (ht : NumberText t) (hrest : Ends rest) :
    parseNumber (t ++ rest) = if Number.isinf (Number.strtod (t ++ rest) : N) then
      fail .numberTooBig else .ok ((Number.strtod (t ++ rest) : N), rest) := by
  obtain ⟨sign, int, frac, exp, rfl, hsign, hint, hfrac, hexp⟩ := ht
  obtain ⟨c, r, hcr, hdigit, hdot⟩ := stops_exponent hexp hrest
  have hexponent := scanExponent_append hexp hrest
  have hscan (number : N) : (scanInteger (int ++ (frac ++ (exp ++ rest))) >>= fun p ↦
      scanFraction p >>= fun p ↦ scanExponent p >>= fun p ↦
        if Number.isinf number then fail .numberTooBig else .ok (number, p)) =
      if Number.isinf number then fail .numberTooBig else .ok (number, rest) := by
    rw [hcr] at hexponent ⊢
    rw [scanInteger_append hint (stops_fraction hfrac hdigit)]
    change (scanFraction (frac ++ c :: r) >>= _) = _
    rw [scanFraction_append hfrac hdigit hdot]
    change (scanExponent (c :: r) >>= _) = _
    rw [hexponent]
    rfl
  have hassoc : sign ++ (int ++ (frac ++ exp)) ++ rest =
      sign ++ (int ++ (frac ++ (exp ++ rest))) := by
    simp only [append_assoc]
  rw [hassoc, ← hscan, parseNumber]
  rcases hsign with rfl | rfl
  · obtain ⟨d, ds, rfl, hd⟩ := head_of_integer hint
    have hminus : d ≠ chr '-' := by
      rintro rfl
      exact absurd hd (by decide)
    change (scanInteger (if d = chr '-' then _ else _) >>= _) = _
    rw [if_neg hminus]
    rfl
  · rfl

/-- **Printed numbers, parsed.** -/
theorem parseNumber_print (hN : Number.Exact N finite) (hn : finite n) (hrest : Delimited rest) :
    parseNumber (Number.print n ++ rest) = .ok (n, rest) := by
  rw [parseNumber_append (hN.numberText n hn) (ends_of_delimited hrest),
    hN.strtod_print n hn rest hrest, hN.not_isinf n hn]
  rfl

/-! ## What is scanned is a numeral -/

theorem deref_eq_ok {p : Bytes} {c : UInt8} : deref p = .ok c ↔ ∃ p', p = c :: p' := by
  constructor
  · intro h
    cases p with
    | nil => cases h
    | cons d p => exact ⟨p, by rw [Except.ok.inj h]⟩
  · rintro ⟨p', rfl⟩
    rfl

theorem skipDigits_eq_ok {p : Bytes} (h : skipDigits p = .ok r) :
    ∃ ds, p = ds ++ r ∧ Digits ds := by
  induction p with
  | nil => cases h
  | cons c p ih =>
    rw [skipDigits] at h
    split_ifs at h with hc
    · obtain ⟨ds, rfl, hds⟩ := ih h
      refine ⟨c :: ds, rfl, fun d hd ↦ ?_⟩
      rcases mem_cons.mp hd with rfl | hd
      · exact hc
      · exact hds d hd
    · exact ⟨[], Except.ok.inj h, fun d hd ↦ by cases hd⟩

theorem scanDigits_eq_ok {p : Bytes} (h : scanDigits p = .ok r) :
    ∃ d ds, p = d :: (ds ++ r) ∧ isdigit d ∧ Digits ds := by
  obtain ⟨d, hd, h⟩ := bind_eq_ok.mp h
  obtain ⟨p, rfl⟩ := deref_eq_ok.mp hd
  split_ifs at h with hdigit
  · obtain ⟨ds, hp, hds⟩ := skipDigits_eq_ok h
    exact ⟨d, ds, congrArg (d :: ·) hp, hdigit, hds⟩
  · cases h

theorem scanInteger_eq_ok {p : Bytes} (h : scanInteger p = .ok r) :
    ∃ int, p = int ++ r ∧ IsInteger int := by
  obtain ⟨c, hc, h⟩ := bind_eq_ok.mp h
  obtain ⟨p, rfl⟩ := deref_eq_ok.mp hc
  split_ifs at h with hzero
  · exact ⟨chars "0", by rw [hzero, ← Except.ok.inj h]; rfl, Or.inl rfl⟩
  · obtain ⟨d, ds, hp, hd, hds⟩ := scanDigits_eq_ok h
    obtain ⟨rfl, rfl⟩ := List.cons.inj hp
    exact ⟨c :: ds, rfl, Or.inr ⟨c, ds, rfl, hd, hzero, hds⟩⟩

theorem scanFraction_eq_ok {p : Bytes} (h : scanFraction p = .ok r) :
    ∃ frac, p = frac ++ r ∧ IsFraction frac := by
  obtain ⟨c, hc, h⟩ := bind_eq_ok.mp h
  obtain ⟨p, rfl⟩ := deref_eq_ok.mp hc
  split_ifs at h with hdot
  · obtain ⟨d, ds, hp, hd, hds⟩ := scanDigits_eq_ok h
    refine ⟨chr '.' :: d :: ds, ?_, Or.inr ⟨d, ds, rfl, hd, hds⟩⟩
    rw [hdot]
    exact congrArg (chr '.' :: ·) hp
  · exact ⟨[], Except.ok.inj h, Or.inl rfl⟩

theorem scanExponent_eq_ok {p : Bytes} (h : scanExponent p = .ok r) :
    ∃ exp, p = exp ++ r ∧ IsExponent exp := by
  obtain ⟨e, he, h⟩ := bind_eq_ok.mp h
  obtain ⟨p, rfl⟩ := deref_eq_ok.mp he
  split_ifs at h with hexp
  · obtain ⟨sign, hsign, h⟩ := bind_eq_ok.mp h
    obtain ⟨q, rfl⟩ := deref_eq_ok.mp hsign
    obtain ⟨d, ds, hp, hd, hds⟩ := scanDigits_eq_ok h
    -- the sign is skipped if there is one
    have hscan : ∃ s, sign :: q = s ++ d :: (ds ++ r) ∧
        (s = [] ∨ s = chars "+" ∨ s = chars "-") := by
      split_ifs at hp with hs
      · refine ⟨[sign], congrArg (sign :: ·) hp, Or.inr ?_⟩
        rcases hs with rfl | rfl
        · exact Or.inl rfl
        · exact Or.inr rfl
      · exact ⟨[], hp, Or.inl rfl⟩
    obtain ⟨s, hq, hs⟩ := hscan
    refine ⟨e :: (s ++ d :: ds), ?_, Or.inr ⟨e, s, d, ds, rfl, hexp, hs, hd, hds⟩⟩
    rw [hq, cons_append, append_assoc, cons_append]
  · exact ⟨[], Except.ok.inj h, Or.inl rfl⟩

/-- The scanner of `parse_number`, without the value. -/
def scanNumber (text : Bytes) : Except Stop Bytes := do
  let c ← deref text
  let p ← scanInteger (if c = chr '-' then text.tail else text)
  let p ← scanFraction p
  scanExponent p

theorem parseNumber_eq (text : Bytes) :
    (parseNumber text : Except Stop (N × Bytes)) = scanNumber text >>= fun p ↦
      if Number.isinf (Number.strtod text : N) then fail .numberTooBig
      else .ok (Number.strtod text, p) := by
  simp only [parseNumber, scanNumber, bind_assoc]

omit [Number N] in
theorem scanNumber_eq_ok {text : Bytes} (h : scanNumber text = .ok r) :
    ∃ t, text = t ++ r ∧ NumberText t := by
  obtain ⟨c, hc, h⟩ := bind_eq_ok.mp h
  obtain ⟨text, rfl⟩ := deref_eq_ok.mp hc
  obtain ⟨p₁, h₁, h⟩ := bind_eq_ok.mp h
  obtain ⟨p₂, h₂, h₃⟩ := bind_eq_ok.mp h
  obtain ⟨int, hp, hint⟩ := scanInteger_eq_ok h₁
  obtain ⟨frac, rfl, hfrac⟩ := scanFraction_eq_ok h₂
  obtain ⟨exp, rfl, hexp⟩ := scanExponent_eq_ok h₃
  have hsign : ∃ sign, c :: text = sign ++ (int ++ (frac ++ (exp ++ r))) ∧
      (sign = [] ∨ sign = chars "-") := by
    split_ifs at hp with hc
    · exact ⟨chars "-", by rw [hc]; exact congrArg (chr '-' :: ·) hp, Or.inr rfl⟩
    · exact ⟨[], hp, Or.inl rfl⟩
  obtain ⟨sign, htext, hsign⟩ := hsign
  refine ⟨sign ++ (int ++ (frac ++ exp)), ?_, sign, int, frac, exp, rfl, hsign, hint, hfrac, hexp⟩
  rw [htext]
  simp only [append_assoc]

theorem parseNumber_eq_ok {text : Bytes} (h : parseNumber text = .ok (n, r)) :
    ∃ t, text = t ++ r ∧ NumberText t := by
  rw [parseNumber_eq] at h
  obtain ⟨p, hp, h⟩ := bind_eq_ok.mp h
  split_ifs at h
  · cases h
  · rw [← show p = r from congrArg Prod.snd (Except.ok.inj h)]
    exact scanNumber_eq_ok hp

end Json

/-! ## Integers in decimal notation -/

namespace Decimal

def digit (d : ℕ) : UInt8 := UInt8.ofNat (48 + d)

/-- A natural number, printed. -/
def print (n : ℕ) : Bytes :=
  if n = 0 then chars "0" else (Nat.digits 10 n).reverse.map digit

/-- A list of digits, read. -/
def read (ds : Bytes) : ℕ := Nat.ofDigits 10 (ds.reverse.map fun d ↦ d.toNat - 48)

theorem isdigit_digit {d : ℕ} (hd : d < 10) : Json.isdigit (digit d) := by
  have hall : ∀ d < 10, Json.isdigit (digit d) = true := by decide
  exact hall d hd

theorem toNat_digit {d : ℕ} (hd : d < 10) : (digit d).toNat - 48 = d := by
  have hall : ∀ d < 10, (digit d).toNat - 48 = d := by decide
  exact hall d hd

theorem digits_map_digit {l : List ℕ} (hl : ∀ d ∈ l, d < 10) : Digits (l.map digit) := by
  intro x hx
  obtain ⟨d, hd, rfl⟩ := mem_map.mp hx
  exact isdigit_digit (hl d hd)

theorem digits_lt_ten {n d : ℕ} (hd : d ∈ Nat.digits 10 n) : d < 10 :=
  Nat.digits_lt_base (by decide) hd

theorem isInteger_print (n : ℕ) : IsInteger (print n) := by
  rw [print]
  split_ifs with hn
  · exact Or.inl rfl
  · -- the leading digit is the last one of `Nat.digits`, which is not zero
    have hne : Nat.digits 10 n ≠ [] := Nat.digits_ne_nil_iff_ne_zero.mpr hn
    have hlast := Nat.getLast_digit_ne_zero 10 hn
    have hsplit := dropLast_append_getLast hne
    have hlt := digits_lt_ten (getLast_mem hne)
    have hzero : ∀ d < 10, d ≠ 0 → digit d ≠ chr '0' := by decide
    rw [← hsplit, reverse_append, map_append]
    exact Or.inr ⟨_, _, rfl, isdigit_digit hlt, hzero _ hlt hlast,
      digits_map_digit fun d hd ↦
        digits_lt_ten (mem_of_mem_dropLast (mem_reverse.mp hd))⟩

theorem digits_print (n : ℕ) : Digits (print n) := by
  rw [print]
  split_ifs
  · intro d hd
    rw [mem_singleton.mp hd]
    decide
  · exact digits_map_digit fun d hd ↦ digits_lt_ten (mem_reverse.mp hd)

theorem read_print (n : ℕ) : read (print n) = n := by
  rw [read, print]
  split_ifs with hn
  · rw [hn]
    rfl
  · have hid : ((Nat.digits 10 n).map digit).map (fun d ↦ d.toNat - 48) = Nat.digits 10 n := by
      rw [map_map]
      exact (map_congr_left fun d hd ↦ toNat_digit (digits_lt_ten hd)).trans (map_id _)
    rw [← map_reverse, reverse_reverse, hid, Nat.ofDigits_digits]

theorem takeWhile_isdigit {ds r : Bytes} (hds : Digits ds) (hr : Json.Stops r) :
    (ds ++ r).takeWhile Json.isdigit = ds := by
  obtain ⟨c, r', rfl, hc⟩ := hr
  rw [takeWhile_append_of_pos hds, takeWhile_cons_of_neg hc, append_nil]

theorem read_takeWhile (n : ℕ) {rest : Bytes} (hrest : Delimited rest) :
    read ((print n ++ rest).takeWhile Json.isdigit) = n := by
  rw [takeWhile_isdigit (digits_print n) (Json.ends_of_delimited hrest).stops, read_print]

end Decimal

instance : Number ℤ where
  print n := (if n < 0 then chars "-" else []) ++ Decimal.print n.natAbs
  strtod text :=
    if text.head? = some (chr '-') then -(Decimal.read (text.tail.takeWhile Json.isdigit) : ℤ)
    else Decimal.read (text.takeWhile Json.isdigit)
  isinf _ := false

theorem Decimal.numberText_print (n : ℤ) : NumberText (Number.print n) := by
  refine ⟨if n < 0 then chars "-" else [], Decimal.print n.natAbs, [], [], ?_, ?_,
    Decimal.isInteger_print _, Or.inl rfl, Or.inl rfl⟩
  · rw [append_nil, append_nil]
    rfl
  · split_ifs
    · exact Or.inr rfl
    · exact Or.inl rfl

theorem Decimal.strtod_print (n : ℤ) {rest : Bytes} (hrest : Delimited rest) :
    Number.strtod (Number.print n ++ rest) = n := by
  have hread := Decimal.read_takeWhile n.natAbs hrest
  have hprint : Number.print n = (if n < 0 then chars "-" else []) ++ Decimal.print n.natAbs := rfl
  by_cases hneg : n < 0
  · rw [hprint, if_pos hneg]
    change -(Decimal.read ((Decimal.print n.natAbs ++ rest).takeWhile Json.isdigit) : ℤ) = n
    rw [hread]
    omega
  · obtain ⟨d, ds, hd, hdigit⟩ := Json.head_of_integer (Decimal.isInteger_print n.natAbs)
    have hminus : ¬(Decimal.print n.natAbs ++ rest).head? = some (chr '-') := by
      rw [hd]
      intro hhead
      rw [Option.some.inj hhead] at hdigit
      exact absurd hdigit (by decide)
    rw [hprint, if_neg hneg, nil_append]
    change (if (Decimal.print n.natAbs ++ rest).head? = some (chr '-') then _ else
      (Decimal.read ((Decimal.print n.natAbs ++ rest).takeWhile Json.isdigit) : ℤ)) = n
    rw [if_neg hminus, hread]
    omega

theorem Decimal.exact : Number.Exact ℤ fun _ ↦ True where
  numberText n _ := Decimal.numberText_print n
  strtod_print n _ _ hrest := Decimal.strtod_print n hrest
  not_isinf _ _ := rfl

end Fishnet

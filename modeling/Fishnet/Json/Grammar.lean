import Fishnet.Json.RoundTrip

/-!
# The grammar of JSON texts

The concrete syntax of RFC 8259 as types. A `Text` is a derivation of the grammar, with its white
space and its escapes as they are written, `render` is the text that it derives, and `denote` is the
value that the text stands for. Nothing here follows the parser.

Strings are byte strings: a character that needs no escape is a byte from `0x20` on, other than the
quotation mark and the backslash.

## Escapes

An escape `\uXXXX` has any four hexadecimal digits. Two escapes in a row, a high and a low
surrogate, stand for one code point. A string is `Paired` if each high surrogate is followed by a
low one. A low surrogate on its own stands for its three-byte form (`encodePoint`).

## Numbers and objects

A numeral stands for what `strtod` makes of it when it is the whole C string. An object keeps the
first of the members that have the same key (`OrderedMap.firstBindings`).

## Main results

* `Text.zero_notMem_render`: a text has no NUL.
* `Value.starts_render`: how the text of a value starts.
* `paired_cons`, `decode_pair`, `decode_unicode`: pairs of escapes.
-/

namespace Fishnet

open List

namespace Grammar

/-! ## Tokens -/

/-- White space. -/
abbrev Ws := { w : Bytes // ∀ c ∈ w, Json.Blank c }

/-- No white space. -/
def noWs : Ws := ⟨[], forall_mem_nil _⟩

instance (w : Bytes) : Decidable (∀ c ∈ w, Json.Blank c) := List.decidableBAll _ w

/-- A numeral. -/
abbrev Numeral := { t : Bytes // NumberText t }

/-- The one-letter escapes. -/
inductive Escape where
  | quotationMark
  | reverseSolidus
  | solidus
  | backspace
  | formFeed
  | lineFeed
  | carriageReturn
  | tab
  deriving DecidableEq, Repr

/-- The letter after the backslash. -/
def Escape.letter : Escape → UInt8
  | .quotationMark => chr '\"'
  | .reverseSolidus => chr '\\'
  | .solidus => chr '/'
  | .backspace => chr 'b'
  | .formFeed => chr 'f'
  | .lineFeed => chr 'n'
  | .carriageReturn => chr 'r'
  | .tab => chr 't'

/-- The character that the escape stands for. -/
def Escape.char : Escape → UInt8
  | .quotationMark => 0x22
  | .reverseSolidus => 0x5C
  | .solidus => 0x2F
  | .backspace => 0x08
  | .formFeed => 0x0C
  | .lineFeed => 0x0A
  | .carriageReturn => 0x0D
  | .tab => 0x09

/-- A hexadecimal digit, in upper or lower case. -/
structure HexDigit where
  value : Fin 16
  upper : Bool
  deriving DecidableEq, Repr

def HexDigit.letter (d : HexDigit) : UInt8 :=
  UInt8.ofNat (if d.value.val < 10 then 0x30 + d.value.val
    else if d.upper then 0x41 + (d.value.val - 10) else 0x61 + (d.value.val - 10))

/-- The four digits of an escape. -/
structure Hex4 where
  d₁ : HexDigit
  d₂ : HexDigit
  d₃ : HexDigit
  d₄ : HexDigit
  deriving DecidableEq, Repr

namespace Hex4

def letters (u : Hex4) : Bytes := [u.d₁.letter, u.d₂.letter, u.d₃.letter, u.d₄.letter]

def code (u : Hex4) : ℕ :=
  ((u.d₁.value.val * 16 + u.d₂.value.val) * 16 + u.d₃.value.val) * 16 + u.d₄.value.val

/-- A high surrogate. -/
def High (u : Hex4) : Prop := 0xD800 ≤ u.code ∧ u.code < 0xDC00

/-- A low surrogate. -/
def Low (u : Hex4) : Prop := 0xDC00 ≤ u.code ∧ u.code < 0xE000

instance (u : Hex4) : Decidable u.High := inferInstanceAs (Decidable (_ ∧ _))

instance (u : Hex4) : Decidable u.Low := inferInstanceAs (Decidable (_ ∧ _))

theorem code_lt (u : Hex4) : u.code < 0x10000 := by
  have h₁ := u.d₁.value.isLt
  have h₂ := u.d₂.value.isLt
  have h₃ := u.d₃.value.isLt
  have h₄ := u.d₄.value.isLt
  rw [code]
  omega

end Hex4

/-- The escape of a code below `0x10000`, in upper case. -/
def hex4 (code : ℕ) : Hex4 where
  d₁ := ⟨Fin.ofNat 16 (code / 4096), true⟩
  d₂ := ⟨Fin.ofNat 16 (code / 256), true⟩
  d₃ := ⟨Fin.ofNat 16 (code / 16), true⟩
  d₄ := ⟨Fin.ofNat 16 code, true⟩

/-- The code point of a surrogate pair. -/
def codePoint (hi lo : Hex4) : ℕ := 0x10000 + (hi.code - 0xD800) * 0x400 + (lo.code - 0xDC00)

/-- The UTF-8 of a code point, and the three-byte form of a surrogate. -/
def encodePoint (code : ℕ) : Bytes :=
  if code.isValidChar then String.utf8EncodeChar (Char.ofNat code)
  else [UInt8.ofNat (0xE0 + code / 4096), UInt8.ofNat (0x80 + code / 64 % 64),
    UInt8.ofNat (0x80 + code % 64)]

/-! ## Strings -/

/-- One character of a string, as it is written. -/
inductive Item where
  | plain (b : UInt8) (h : 0x20 ≤ b ∧ b ≠ chr '\"' ∧ b ≠ chr '\\')
  | escape (e : Escape)
  | unicode (u : Hex4)
  deriving DecidableEq

def Item.render : Item → Bytes
  | .plain b _ => [b]
  | .escape e => [chr '\\', e.letter]
  | .unicode u => chr '\\' :: chr 'u' :: u.letters

/-- The inside of a string. -/
def renderItems (items : List Item) : Bytes := items.flatMap Item.render

/-- A string with its quotation marks. -/
def renderString (items : List Item) : Bytes := chr '\"' :: (renderItems items ++ [chr '\"'])

/-- The bytes that a string stands for. -/
def decode : List Item → Bytes
  | [] => []
  | .plain b _ :: items => b :: decode items
  | .escape e :: items => e.char :: decode items
  | .unicode hi :: .unicode lo :: items =>
    if hi.High ∧ lo.Low then encodePoint (codePoint hi lo) ++ decode items
    else encodePoint hi.code ++ decode (.unicode lo :: items)
  | .unicode u :: items => encodePoint u.code ++ decode items

/-- The string starts with the escape of a low surrogate. -/
def StartsLow (items : List Item) : Prop := ∃ lo rest, items = .unicode lo :: rest ∧ lo.Low

/-- The escape of a high surrogate is followed by the escape of a low one. -/
def Paired (items : List Item) : Prop :=
  ∀ hi rest, .unicode hi :: rest <:+ items → hi.High → StartsLow rest

/-- The escapes of U+10FFFF occur in the string. -/
def HasTop (items : List Item) : Prop :=
  ∃ hi lo rest, .unicode hi :: .unicode lo :: rest <:+ items ∧ hi.code = 0xDBFF ∧ lo.code = 0xDFFF

/-! ## Values -/

mutual

/-- A value. -/
inductive Value where
  | null
  | boolean (b : Bool)
  | number (t : Numeral)
  | string (items : List Item)
  | emptyArray (ws : Ws)
  | array (before : Ws) (elements : Elements)
  | emptyObject (ws : Ws)
  | object (before : Ws) (members : Members)

/-- The elements of an array. -/
inductive Elements where
  | last (value : Value) (after : Ws)
  | cons (value : Value) (after before : Ws) (elements : Elements)

/-- The members of an object. -/
inductive Members where
  | last (key : List Item) (colon : Ws × Ws) (value : Value) (after : Ws)
  | cons (key : List Item) (colon : Ws × Ws) (value : Value) (after before : Ws)
      (members : Members)

end

/-- A key and the colon, with the white space around it. -/
def renderKey (key : List Item) (colon : Ws × Ws) : Bytes :=
  renderString key ++ (colon.1.1 ++ chr ':' :: colon.2.1)

mutual

def Value.render : Value → Bytes
  | .null => chars "null"
  | .boolean b => if b then chars "true" else chars "false"
  | .number t => t.1
  | .string items => renderString items
  | .emptyArray ws => chr '[' :: (ws.1 ++ [chr ']'])
  | .array before elements => chr '[' :: (before.1 ++ (elements.render ++ [chr ']']))
  | .emptyObject ws => chr '\x7b' :: (ws.1 ++ [chr '\x7d'])
  | .object before members => chr '\x7b' :: (before.1 ++ (members.render ++ [chr '\x7d']))

def Elements.render : Elements → Bytes
  | .last value after => value.render ++ after.1
  | .cons value after before elements =>
    value.render ++ (after.1 ++ chr ',' :: (before.1 ++ elements.render))

def Members.render : Members → Bytes
  | .last key colon value after => renderKey key colon ++ (value.render ++ after.1)
  | .cons key colon value after before members =>
    renderKey key colon ++ (value.render ++ (after.1 ++ chr ',' :: (before.1 ++ members.render)))

end

section Denote

variable (N : Type) [Number N]

mutual

def Value.denote : Value → Json N
  | .null => .null
  | .boolean b => .boolean b
  | .number t => .number (Number.strtod (t.1 ++ [0]))
  | .string items => .string (decode items)
  | .emptyArray _ => .array []
  | .array _ elements => .array elements.denote
  | .emptyObject _ => .object []
  | .object _ members => .object (OrderedMap.firstBindings members.denote)

def Elements.denote : Elements → List (Json N)
  | .last value _ => [value.denote]
  | .cons value _ _ elements => value.denote :: elements.denote

def Members.denote : Members → List (Bytes × Json N)
  | .last key _ value _ => [(decode key, value.denote)]
  | .cons key _ value _ _ members => (decode key, value.denote) :: members.denote

end

end Denote

mutual

/-- The strings of a value, its keys among them. -/
def Value.strings : Value → List (List Item)
  | .string items => [items]
  | .array _ elements => elements.strings
  | .object _ members => members.strings
  | _ => []

def Elements.strings : Elements → List (List Item)
  | .last value _ => value.strings
  | .cons value _ _ elements => value.strings ++ elements.strings

def Members.strings : Members → List (List Item)
  | .last key _ value _ => key :: value.strings
  | .cons key _ value _ _ members => key :: (value.strings ++ members.strings)

end

mutual

/-- The numerals of a value. -/
def Value.numerals : Value → List Numeral
  | .number t => [t]
  | .array _ elements => elements.numerals
  | .object _ members => members.numerals
  | _ => []

def Elements.numerals : Elements → List Numeral
  | .last value _ => value.numerals
  | .cons value _ _ elements => value.numerals ++ elements.numerals

def Members.numerals : Members → List Numeral
  | .last _ _ value _ => value.numerals
  | .cons _ _ value _ _ members => value.numerals ++ members.numerals

end

/-- A text: a value with white space around it. -/
structure Text where
  before : Ws
  value : Value
  after : Ws

def Text.render (t : Text) : Bytes := t.before.1 ++ (t.value.render ++ t.after.1)

/-! ## The first character -/

variable {items : List Item} {c : UInt8}

theorem renderItems_cons (x : Item) (items : List Item) :
    renderItems (x :: items) = x.render ++ renderItems items := rfl

theorem Value.starts_render (v : Value) : Json.Starts v.render := by
  cases v with
  | null => exact ⟨_, _, rfl, by decide⟩
  | boolean b => cases b <;> exact ⟨_, _, rfl, by decide⟩
  | number t =>
    obtain ⟨c, t', ht, hc⟩ := Json.head_of_numberText t.2
    obtain ⟨hblank, hzero, hsquare, -⟩ := Json.number_start c hc
    exact ⟨c, t', ht, hblank, hzero, hsquare⟩
  | string | emptyArray | array | emptyObject | object => exact ⟨_, _, rfl, by decide⟩

theorem Elements.starts_render (es : Elements) : Json.Starts es.render := by
  cases es with
  | last value after => exact value.starts_render.append _
  | cons value after before elements => exact value.starts_render.append _

theorem Members.head_render (ms : Members) : ∃ t, ms.render = chr '\"' :: t := by
  cases ms <;> exact ⟨_, rfl⟩

theorem hex4_code {code : ℕ} (h : code < 0x10000) : (hex4 code).code = code := by
  change ((code / 4096 % 16 * 16 + code / 256 % 16) * 16 + code / 16 % 16) * 16 + code % 16 = code
  omega

/-! ## No NUL -/

theorem zero_notMem_ws (ws : Ws) : 0 ∉ ws.1 := fun h ↦ absurd (ws.2 0 h) (by decide)

theorem HexDigit.letter_spec (d : HexDigit) :
    Json.ch2hex d.letter = some d.value.val ∧ d.letter ≠ 0 := by
  have hall : ∀ (v : Fin 16) (b : Bool), Json.ch2hex (HexDigit.letter ⟨v, b⟩) = some v.val ∧
      HexDigit.letter ⟨v, b⟩ ≠ 0 := by
    decide +kernel
  exact hall d.value d.upper

theorem Item.zero_notMem_render (x : Item) : 0 ∉ x.render := by
  cases x with
  | plain b h =>
    intro hmem
    rw [← mem_singleton.mp hmem] at h
    exact absurd h.1 (by decide)
  | escape e => cases e <;> decide
  | unicode u =>
    have h₁ := u.d₁.letter_spec.2.symm
    have h₂ := u.d₂.letter_spec.2.symm
    have h₃ := u.d₃.letter_spec.2.symm
    have h₄ := u.d₄.letter_spec.2.symm
    have hback : (0 : UInt8) ≠ chr '\\' := by decide
    have hu : (0 : UInt8) ≠ chr 'u' := by decide
    simp only [Item.render, Hex4.letters, mem_cons, not_mem_nil, or_false, not_or]
    exact ⟨hback, hu, h₁, h₂, h₃, h₄⟩

theorem zero_notMem_renderString (items : List Item) : 0 ∉ renderString items := by
  have hquote : (0 : UInt8) ≠ chr '\"' := by decide
  have hitems : 0 ∉ renderItems items := fun h ↦ by
    obtain ⟨x, -, hx⟩ := mem_flatMap.mp h
    exact x.zero_notMem_render hx
  simp only [renderString, mem_cons, mem_append, not_mem_nil, or_false, not_or]
  exact ⟨hquote, hitems, hquote⟩

theorem zero_notMem_renderKey (key : List Item) (colon : Ws × Ws) : 0 ∉ renderKey key colon := by
  have hcolon : (0 : UInt8) ≠ chr ':' := by decide
  simp only [renderKey, mem_append, mem_cons, not_or]
  exact ⟨zero_notMem_renderString key, zero_notMem_ws _, hcolon, zero_notMem_ws _⟩

mutual

theorem Value.zero_notMem_render (v : Value) : 0 ∉ v.render := by
  have hsquare : (0 : UInt8) ≠ chr '[' ∧ (0 : UInt8) ≠ chr ']' := by decide
  have hcurly : (0 : UInt8) ≠ chr '\x7b' ∧ (0 : UInt8) ≠ chr '\x7d' := by decide
  cases v with
  | null => decide
  | boolean b => cases b <;> decide
  | number t => exact Json.zero_notMem_of_numberText t.2
  | string items => exact zero_notMem_renderString items
  | emptyArray ws => simp [Value.render, hsquare, zero_notMem_ws ws]
  | array before elements =>
    simp [Value.render, hsquare, zero_notMem_ws before, elements.zero_notMem_render]
  | emptyObject ws => simp [Value.render, hcurly, zero_notMem_ws ws]
  | object before members =>
    simp [Value.render, hcurly, zero_notMem_ws before, members.zero_notMem_render]

theorem Elements.zero_notMem_render (es : Elements) : 0 ∉ es.render := by
  have hcomma : (0 : UInt8) ≠ chr ',' := by decide
  cases es with
  | last value after => simp [Elements.render, zero_notMem_ws after, value.zero_notMem_render]
  | cons value after before elements =>
    simp [Elements.render, hcomma, zero_notMem_ws after, zero_notMem_ws before,
      value.zero_notMem_render, elements.zero_notMem_render]

theorem Members.zero_notMem_render (ms : Members) : 0 ∉ ms.render := by
  have hcomma : (0 : UInt8) ≠ chr ',' := by decide
  cases ms with
  | last key colon value after =>
    simp [Members.render, zero_notMem_renderKey, zero_notMem_ws after, value.zero_notMem_render]
  | cons key colon value after before members =>
    simp [Members.render, hcomma, zero_notMem_renderKey, zero_notMem_ws after,
      zero_notMem_ws before, value.zero_notMem_render, members.zero_notMem_render]

end

theorem Text.zero_notMem_render (t : Text) : 0 ∉ t.render := by
  simp [Text.render, zero_notMem_ws t.before, zero_notMem_ws t.after, t.value.zero_notMem_render]

/-! ## Pairs of escapes -/

variable {hi lo u : Hex4}

theorem decode_pair (hhi : hi.High) (hlo : lo.Low) (items : List Item) :
    decode (.unicode hi :: .unicode lo :: items) =
      encodePoint (codePoint hi lo) ++ decode items := by
  rw [decode, if_pos ⟨hhi, hlo⟩]

theorem decode_unicode (hu : ¬u.High) (items : List Item) :
    decode (.unicode u :: items) = encodePoint u.code ++ decode items := by
  cases items with
  | nil => rfl
  | cons x items =>
    cases x with
    | plain | escape => rfl
    | unicode lo => rw [decode, if_neg fun h ↦ hu h.1]

theorem paired_cons {x : Item} : Paired (x :: items) ↔
    (∀ hi, x = .unicode hi → hi.High → StartsLow items) ∧ Paired items := by
  constructor
  · intro h
    refine ⟨fun hi hx hhi ↦ h hi items (by rw [hx]) hhi, fun hi rest hsuffix ↦ ?_⟩
    exact h hi rest (hsuffix.trans (suffix_cons _ _))
  · rintro ⟨hhead, htail⟩ hi rest hsuffix hhi
    rcases suffix_cons_iff.mp hsuffix with heq | hsuffix
    · obtain ⟨rfl, rfl⟩ := List.cons.inj heq
      exact hhead hi rfl hhi
    · exact htail hi rest hsuffix hhi

theorem hasTop_cons {x : Item} : HasTop (x :: items) ↔
    (∃ hi lo rest, x = .unicode hi ∧ items = .unicode lo :: rest ∧ hi.code = 0xDBFF ∧
      lo.code = 0xDFFF) ∨ HasTop items := by
  constructor
  · rintro ⟨hi, lo, rest, hsuffix, hcodes⟩
    rcases suffix_cons_iff.mp hsuffix with heq | hsuffix
    · obtain ⟨rfl, rfl⟩ := List.cons.inj heq
      exact Or.inl ⟨hi, lo, rest, rfl, rfl, hcodes⟩
    · exact Or.inr ⟨hi, lo, rest, hsuffix, hcodes⟩
  · rintro (⟨hi, lo, rest, rfl, rfl, hcodes⟩ | ⟨hi, lo, rest, hsuffix, hcodes⟩)
    · exact ⟨hi, lo, rest, suffix_rfl, hcodes⟩
    · exact ⟨hi, lo, rest, hsuffix.trans (suffix_cons _ _), hcodes⟩

end Grammar

end Fishnet

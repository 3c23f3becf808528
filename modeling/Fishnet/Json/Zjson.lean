import Fishnet.Library.Checked
import Fishnet.Library.OrderedMap
import Fishnet.Library.Utf8

/-!
# JSON values, printed and parsed

The model of `zjson::Json`. A value is a tree. `std::string` is a list of bytes, which need not be
UTF-8, and `std::map` is the list of its bindings in the order of the keys.

`char` is signed, `int` has 32 bits and faults when it overflows, and a `const char*` is the list of
the bytes that may be read from there on. Reading where the list is empty is a fault. A string
passed as a pointer ends with a NUL, which is part of the list.

## Numbers

The code leaves numbers to the C library. `Number` has the three functions it calls.

## The two directions

`dump` prints into a vector of characters. The strings that it copies into that vector with
`stack_push(const char*)` end at their first NUL (`cString`). `parse` is a recursive descent. Its
loops take a bound on the number of rounds, and `Stop.outOfFuel` is the outcome when it is too
small.
-/

namespace Fishnet

/-- A `char` constant of the source. -/
def chr (c : Char) : UInt8 := UInt8.ofNat c.toNat

/-- A string constant of the source. -/
def chars (s : String) : Bytes := s.toList.map chr

/-- Conversion of a `size_t` to `int`. -/
def toInt (n : ℕ) : ℤ :=
  if n % 2 ^ 32 < 2 ^ 31 then (n % 2 ^ 32 : ℕ) else (n % 2 ^ 32 : ℕ) - 2 ^ 32

/-- Addition of two `int` that are not negative. -/
def addInt (a b : ℕ) : Checked ℕ := if a + b < 2 ^ 31 then .ok (a + b) else .error .overflow

/-- The C string that starts with these bytes. -/
def cString (s : Bytes) : Bytes := s.takeWhile (· ≠ 0)

/-- What the C library does for numbers. -/
class Number (N : Type) where
  /-- `sprintf(buf, "%.17g", number)`. -/
  print : N → Bytes
  /-- `strtod(text, nullptr)`. -/
  strtod : Bytes → N
  /-- `std::isinf`. -/
  isinf : N → Bool

/-- `zjson::Json`: the type and the value of that type. -/
inductive Json (N : Type) where
  | null
  | boolean (b : Bool)
  | number (n : N)
  | string (s : Bytes)
  | array (elements : List (Json N))
  | object (members : List (Bytes × Json N))

/-- The failures among the values of `zjson::Ret`. -/
inductive Ret where
  | invalidValue
  | expectValue
  | rootNotSingular
  | numberTooBig
  | missQuotationMark
  | invalidStringEscape
  | invalidStringChar
  | invalidUnicodeHex
  | invalidUnicodeSurrogate
  | missCommaOrSquareBracket
  | missKey
  | missColon
  | missCommaOrCurlyBracket
  deriving DecidableEq, Repr

/-- Why a parse stops. -/
inductive Stop where
  | ret (r : Ret)
  | fault (f : Fault)
  | outOfFuel
  deriving DecidableEq, Repr

namespace Json

variable {N : Type}

/-! ## Printing strings -/

/-- `*str` while printing. -/
def charAt : Bytes → Checked UInt8
  | c :: _ => .ok c
  | [] => .error .badAccess

/-- One digit of `stringify_hex4`. -/
def hexDigit (x : ℕ) : UInt8 := UInt8.ofNat (if x < 10 then x + 48 else x - 10 + 65)

/-- `stringify_hex4`. The buffer is filled from its end. -/
def stringifyHex4 (code : ℕ) : Bytes :=
  [hexDigit (code / 16 / 16 / 16 % 16), hexDigit (code / 16 / 16 % 16), hexDigit (code / 16 % 16),
    hexDigit (code % 16)]

/-- The number of bytes that `stringify_utf8` takes, from the first one. -/
def sequenceLength (ch : UInt8) : ℕ :=
  if ch.toNat &&& 0xF0 = 0xF0 then 4
  else if ch.toNat &&& 0xE0 = 0xE0 then 3
  else if ch.toNat &&& 0xC0 = 0xC0 then 2
  else 1

/-- The loop of `stringify_utf8` over the bytes after the first. -/
def continueCode : ℕ → ℕ → Bytes → Checked ℕ
  | 0, code, _ => .ok code
  | count + 1, code, str => do
    let c ← charAt str
    continueCode count ((code <<< 6) + (c.toNat &&& 0x3F)) str.tail

/-- The escapes that `stringify_utf8` pushes for a code. -/
def pushCode (code : ℕ) : Bytes :=
  if code < 0x10000 then chars "\\u" ++ stringifyHex4 code
  else
    let code := code &&& 0xFFFF
    chars "\\u" ++ stringifyHex4 (code / 0x400 + 0xD800) ++
      (chars "\\u" ++ stringifyHex4 (code % 0x400 + 0xDC00))

/-- `stringify_utf8`: the text pushed and the number of bytes taken. -/
def stringifyUtf8 (str : Bytes) : Checked (Bytes × ℕ) := do
  let ch ← charAt str
  let count := sequenceLength ch
  let code ← continueCode (count - 1) (((ch.toNat <<< count) &&& 0xFF) >>> count) str.tail
  return (pushCode code, count)

/-- The characters that `stringify_string_raw` prints in a way of their own. -/
def shortEscape (c : UInt8) : Option Bytes :=
  if c = chr '\x08' then some (chars "\\b")
  else if c = chr '\x0c' then some (chars "\\f")
  else if c = chr '\n' then some (chars "\\n")
  else if c = chr '\r' then some (chars "\\r")
  else if c = chr '\t' then some (chars "\\t")
  else if c = chr '/' then some (chars "/")
  else if c = chr '\"' then some (chars "\\\"")
  else if c = chr '\\' then some (chars "\\\\")
  else none

/-- One round of the loop of `stringify_string_raw`: the text pushed and the number of bytes taken.
The comparison with `0x20` is one of signed characters. -/
def stringifyChar (str : Bytes) : Checked (Bytes × ℕ) := do
  let c ← charAt str
  match shortEscape c with
  | some text => return (text, 1)
  | none => if c.toInt8.toInt < 0x20 then stringifyUtf8 str else return ([c], 1)

/-- The loop of `stringify_string_raw`. A round takes at least one byte, so the number of bytes is
enough fuel. -/
def stringifyChars (str : Bytes) (len : ℤ) : ℕ → ℕ → Checked Bytes
  | 0, _ => .ok []
  | fuel + 1, pos =>
    if (pos : ℤ) < len then do
      let r ← stringifyChar (str.drop pos)
      let pos ← addInt pos r.2
      let rest ← stringifyChars str len fuel pos
      return r.1 ++ rest
    else .ok []

/-- `stringify_string_raw`, called with the data and the size of a `std::string`. -/
def stringifyStringRaw (s : Bytes) : Checked Bytes := do
  let body ← stringifyChars (s ++ [0]) (toInt s.length) s.length 0
  return chars "\"" ++ body ++ chars "\""

/-! ## Printing values -/

section Dump

variable [Number N]

mutual

/-- `stringify`. -/
def stringify : Json N → Checked Bytes
  | .null => .ok (chars "null")
  | .boolean b => .ok (if b then chars "true" else chars "false")
  | .number n => .ok (Number.print n)
  | .string s => stringifyStringRaw s
  | .array elements => do
    let body ← stringifyElements elements
    return chars "[" ++ body ++ chars "]"
  | .object members => do
    let body ← stringifyMembers (toInt members.length) 0 members
    return chars "\x7b" ++ body ++ chars "\x7d"

/-- The loop of `stringify_array`. -/
def stringifyElements : List (Json N) → Checked Bytes
  | [] => .ok []
  | json :: elements => do
    let subtext ← stringify json
    let rest ← stringifyElements elements
    return cString subtext ++ (if elements.isEmpty then [] else chars ",") ++ rest

/-- The loop of `stringify_object`, after `cnt` members of `sz`. -/
def stringifyMembers (sz : ℤ) : ℕ → List (Bytes × Json N) → Checked Bytes
  | _, [] => .ok []
  | cnt, (key, json) :: members => do
    let ktext ← stringifyStringRaw key
    let vtext ← stringify json
    let cnt ← addInt cnt 1
    let rest ← stringifyMembers sz cnt members
    return cString ktext ++ chars ":" ++ cString vtext ++
      (if (cnt : ℤ) < sz then chars "," else []) ++ rest

end

/-- `dump`. -/
def dump (json : Json N) : Checked Bytes := do
  let str ← stringify json
  return cString str

end Dump

/-! ## Parsing tokens -/

/-- `*text`. -/
def deref : Bytes → Except Stop UInt8
  | c :: _ => .ok c
  | [] => .error (.fault .badAccess)

/-- `return Ret::…` with a failure. -/
def fail {α : Type} (r : Ret) : Except Stop α := .error (.ret r)

/-- `parse_whitespace`. -/
def parseWhitespace : Bytes → Except Stop Bytes
  | [] => .error (.fault .badAccess)
  | c :: text =>
    if c = chr ' ' ∨ c = chr '\t' ∨ c = chr '\n' ∨ c = chr '\r' then parseWhitespace text
    else .ok (c :: text)

/-- The loop of `parse_literal` and `parse_boolean`. -/
def parseLiteral : Bytes → Bytes → Except Stop Bytes
  | text, [] => .ok text
  | text, c :: literal => do
    let x ← deref text
    if x ≠ c then fail .invalidValue else parseLiteral text.tail literal

def isdigit (c : UInt8) : Bool := decide (chr '0' ≤ c ∧ c ≤ chr '9')

/-- `while (isdigit(*p)) ++p`. -/
def skipDigits : Bytes → Except Stop Bytes
  | [] => .error (.fault .badAccess)
  | c :: p => if isdigit c then skipDigits p else .ok (c :: p)

/-- At least one digit, where `parse_number` demands it. -/
def scanDigits (p : Bytes) : Except Stop Bytes := do
  let c ← deref p
  if isdigit c then skipDigits p.tail else fail .invalidValue

/-- `parse_number`, the part before the decimal point. -/
def scanInteger (p : Bytes) : Except Stop Bytes := do
  let c ← deref p
  if c = chr '0' then .ok p.tail else scanDigits p

/-- `parse_number`, the fraction. -/
def scanFraction (p : Bytes) : Except Stop Bytes := do
  let c ← deref p
  if c = chr '.' then scanDigits p.tail else .ok p

/-- `parse_number`, the exponent. -/
def scanExponent (p : Bytes) : Except Stop Bytes := do
  let c ← deref p
  if c = chr 'e' ∨ c = chr 'E' then
    let sign ← deref p.tail
    scanDigits (if sign = chr '+' ∨ sign = chr '-' then p.tail.tail else p.tail)
  else .ok p

/-- `parse_number`. The value is what `strtod` makes of the text, not of the characters scanned. -/
def parseNumber [Number N] (text : Bytes) : Except Stop (N × Bytes) := do
  let c ← deref text
  let p ← scanInteger (if c = chr '-' then text.tail else text)
  let p ← scanFraction p
  let p ← scanExponent p
  let number : N := Number.strtod text
  if Number.isinf number then fail .numberTooBig else .ok (number, p)

/-! ## Parsing strings -/

/-- `ch2hex`, where `none` is `-1`. -/
def ch2hex (ch : UInt8) : Option ℕ :=
  if chr '0' ≤ ch ∧ ch ≤ chr '9' then some (ch.toNat - 48)
  else if chr 'a' ≤ ch ∧ ch ≤ chr 'f' then some (ch.toNat - 97 + 10)
  else if chr 'A' ≤ ch ∧ ch ≤ chr 'F' then some (ch.toNat - 65 + 10)
  else none

/-- The loop of `parse_hex4`, where `none` is `-1`. -/
def parseHex : ℕ → ℕ → Bytes → Except Stop (Option ℕ × Bytes)
  | 0, code, text => .ok (some code, text)
  | i + 1, code, text => do
    let ch ← deref text
    match ch2hex ch with
    | none => .ok (none, text.tail)
    | some hex => parseHex i ((code <<< 4) + hex) text.tail

/-- `parse_hex4`. -/
def parseHex4 (text : Bytes) : Except Stop (Option ℕ × Bytes) := parseHex 4 0 text

/-- The second half of a surrogate pair in `encode_utf8`. -/
def parseSurrogate (code : ℕ) (text : Bytes) : Except Stop (ℕ × Bytes) := do
  let c ← deref text
  if c ≠ chr '\\' then fail .invalidUnicodeSurrogate
  else
    let c ← deref text.tail
    if c ≠ chr 'u' then fail .invalidUnicodeSurrogate
    else
      let r ← parseHex4 text.tail.tail
      match r.1 with
      | none => fail .invalidUnicodeSurrogate
      | some surrogate =>
        if 0xDC00 ≤ surrogate ∧ surrogate < 0xE000 then
          .ok (0x10000 + (code - 0xD800) * 0x400 + (surrogate - 0xDC00), r.2)
        else fail .invalidUnicodeSurrogate

/-- The bytes that `encode_utf8` pushes for a code. -/
def pushUtf8 (code : ℕ) : Except Stop Bytes :=
  if code < 0x80 then .ok [UInt8.ofNat code]
  else if code < 0x800 then
    .ok [UInt8.ofNat (0xC0 ||| (0x1F &&& (code >>> 6))), UInt8.ofNat (0x80 ||| (0x3F &&& code))]
  else if code < 0x10000 then
    .ok [UInt8.ofNat (0xE0 ||| (0x0F &&& (code >>> 12))),
      UInt8.ofNat (0x80 ||| (0x3F &&& (code >>> 6))), UInt8.ofNat (0x80 ||| (0x3F &&& code))]
  else if code < 0x10FFFF then
    .ok [UInt8.ofNat (0xF0 ||| (0x07 &&& (code >>> 18))),
      UInt8.ofNat (0x80 ||| (0x3F &&& (code >>> 12))),
      UInt8.ofNat (0x80 ||| (0x3F &&& (code >>> 6))), UInt8.ofNat (0x80 ||| (0x3F &&& code))]
  else fail .invalidUnicodeHex

/-- `encode_utf8`: the bytes pushed and the text after the escape. -/
def encodeUtf8 (text : Bytes) : Except Stop (Bytes × Bytes) := do
  let r ← parseHex4 text
  match r.1 with
  | none => fail .invalidUnicodeHex
  | some code =>
    let r ← if 0xD800 ≤ code ∧ code < 0xDC00 then parseSurrogate code r.2 else .ok (code, r.2)
    let bytes ← pushUtf8 r.1
    return (bytes, r.2)

/-- The character that a one-letter escape stands for. -/
def unescape (e : UInt8) : Option UInt8 :=
  if e = chr 'b' then some (chr '\x08')
  else if e = chr 'f' then some (chr '\x0c')
  else if e = chr 'n' then some (chr '\n')
  else if e = chr 'r' then some (chr '\r')
  else if e = chr 't' then some (chr '\t')
  else if e = chr '/' then some (chr '/')
  else if e = chr '\"' then some (chr '\"')
  else if e = chr '\\' then some (chr '\\')
  else none

/-- The loop of `parse_string_raw`: the stack and the text where it ends. A round takes at least one
character, so their number is enough fuel. -/
def parseChars : ℕ → Bytes → Bytes → Except Stop (Bytes × Bytes)
  | 0, _, _ => .error .outOfFuel
  | fuel + 1, text, stack => do
    let ch ← deref text
    if ch = 0 ∨ ch = chr '\"' then .ok (stack, text)
    else if ch = chr '\\' then
      let e ← deref text.tail
      match unescape e with
      | some c => parseChars fuel text.tail.tail (stack ++ [c])
      | none =>
        if e = chr 'u' then
          let r ← encodeUtf8 text.tail.tail
          parseChars fuel r.2 (stack ++ r.1)
        else fail .invalidStringEscape
    else if ch < 0x20 then fail .invalidStringChar
    else parseChars fuel text.tail (stack ++ [ch])

/-- `parse_string_raw`: the stack and the text after the string. -/
def parseStringRaw (text stack : Bytes) : Except Stop (Bytes × Bytes) := do
  let r ← parseChars text.tail.length text.tail stack
  let c ← deref r.2
  if c ≠ chr '\"' then fail .missQuotationMark else .ok (r.1, r.2.tail)

/-- `parse_string`, and the part of `parse_object` that reads a key. The stack of a value is empty
when its parse starts and again after each key, so `old_top` is 0 and the string is the whole stack.
-/
def parseString (text : Bytes) : Except Stop (Bytes × Bytes) := parseStringRaw text []

/-! ## Parsing values -/

section Parse

variable [Number N]

/-- `parse_array`, with the loop over its elements. -/
def parseArray (loop : Bytes → Except Stop (List (Json N) × Bytes)) (text : Bytes) :
    Except Stop (Json N × Bytes) := do
  let text ← parseWhitespace text.tail
  let c ← deref text
  if c = 0 then fail .missCommaOrSquareBracket
  else if c = chr ']' then .ok (.array [], text.tail)
  else
    let r ← loop text
    return (.array r.1, r.2)

/-- `parse_object`, with the loop over its members. -/
def parseObject (loop : Bytes → Except Stop (List (Bytes × Json N) × Bytes)) (text : Bytes) :
    Except Stop (Json N × Bytes) := do
  let text ← parseWhitespace text.tail
  let c ← deref text
  if c = 0 then fail .missCommaOrCurlyBracket
  else if c = chr '\x7d' then .ok (.object [], text.tail)
  else
    let r ← loop text
    return (.object r.1, r.2)

/-- The key of a member. A failure to read it is a missing key, whatever it was. -/
def parseKey (text : Bytes) : Except Stop (Bytes × Bytes) := do
  let c ← deref text
  if c ≠ chr '\"' then fail .missKey
  else
    match parseString text with
    | .ok r => .ok r
    | .error (.ret _) => fail .missKey
    | .error e => .error e

/-- The key of a member and the colon after it. -/
def parseKeyColon (text : Bytes) : Except Stop (Bytes × Bytes) := do
  let r ← parseKey text
  let text ← parseWhitespace r.2
  let c ← deref text
  if c ≠ chr ':' then fail .missColon else .ok (r.1, text.tail)

mutual

/-- `parse_text`. -/
def parseText : ℕ → Bytes → Except Stop (Json N × Bytes)
  | 0, _ => .error .outOfFuel
  | fuel + 1, text => do
    let text ← parseWhitespace text
    let c ← deref text
    if c = 0 then fail .expectValue
    else if c = chr 'n' then
      let text ← parseLiteral text (chars "null")
      return (.null, text)
    else if c = chr 't' then
      let text ← parseLiteral text (chars "true")
      return (.boolean true, text)
    else if c = chr 'f' then
      let text ← parseLiteral text (chars "false")
      return (.boolean false, text)
    else if c = chr '\"' then
      let r ← parseString text
      return (.string r.1, r.2)
    else if c = chr '[' then parseArray (fun text ↦ parseElements fuel [] text) text
    else if c = chr '\x7b' then parseObject (fun text ↦ parseMembers fuel [] text) text
    else
      let r ← parseNumber text
      return (.number r.1, r.2)

/-- The loop of `parse_array`. -/
def parseElements : ℕ → List (Json N) → Bytes → Except Stop (List (Json N) × Bytes)
  | 0, _, _ => .error .outOfFuel
  | fuel + 1, elements, text => do
    let r ← parseText fuel text
    let text ← parseWhitespace r.2
    let c ← deref text
    if c = chr ']' then .ok (elements ++ [r.1], text.tail)
    else if c ≠ chr ',' then fail .missCommaOrSquareBracket
    else parseElements fuel (elements ++ [r.1]) text.tail

/-- The loop of `parse_object`. -/
def parseMembers :
    ℕ → List (Bytes × Json N) → Bytes → Except Stop (List (Bytes × Json N) × Bytes)
  | 0, _, _ => .error .outOfFuel
  | fuel + 1, members, text => do
    let k ← parseKeyColon text
    let r ← parseText fuel k.2
    let members := OrderedMap.emplace k.1 r.1 members
    let text ← parseWhitespace r.2
    let c ← deref text
    if c = chr '\x7d' then .ok (members, text.tail)
    else if c ≠ chr ',' then fail .missCommaOrCurlyBracket
    else
      let text ← parseWhitespace text.tail
      parseMembers fuel members text

end

/-- `parse(const char*)`. Two rounds for each character are enough fuel. -/
def parse (text : Bytes) : Except Stop (Json N) := do
  let r ← parseText (2 * text.length) text
  let text ← parseWhitespace r.2
  let c ← deref text
  if c ≠ 0 then fail .rootNotSingular else .ok r.1

/-- `Json::parse(std::string_view)` on a `std::string`, whose data end with a NUL. -/
def parseStdString (s : Bytes) : Except Stop (Json N) := parse (s ++ [0])

end Parse

end Json

end Fishnet

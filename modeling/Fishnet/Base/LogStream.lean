import Fishnet.Base.AsyncLogging
import Fishnet.Base.IntegerText
import Fishnet.Base.StringPiece

/-!
# The log stream

A `LogStream` formats what is inserted into it into a fixed array of characters. `FixedBuffer` is
modelled here as it is in memory, with the array and the pointer `cur_`, since the numbers are
formatted in place behind `cur_` before the pointer is moved past them. The result of moving `cur_`
past the end of the array is not a pointer, and a fault.

There are two tests for room. Texts that are copied need `avail() > len`, so one character always
stays free. Numbers need `avail() >= kMaxNumericSize` and are written with a terminator.

## The abstract stream

In the end each item is appended as a whole or dropped: `Inserted` says so for one item, and
`appended_or_dropped` for a whole run. For copied texts this is `FixedBuffer.append`, the operation
that the asynchronous logger relies on (`append_refines`).
-/

namespace Fishnet

open List

/-! ## Buffers in memory -/

/-- `FixedBuffer<SIZE>`. -/
structure CharBuffer (size : ℕ) where
  /-- `data_`. -/
  data : Bytes
  /-- `cur_`, as an index. -/
  cur : ℕ

namespace CharBuffer

variable {size : ℕ}

/-- A new buffer: the array holds whatever was there. -/
def new (data : List.Vector UInt8 size) : CharBuffer size := ⟨data.toList, 0⟩

def length (b : CharBuffer size) : ℤ := b.cur

def avail (b : CharBuffer size) : ℤ := size - b.cur

def add (b : CharBuffer size) (len : ℕ) : Checked (CharBuffer size) :=
  if b.cur + len ≤ size then .ok { b with cur := b.cur + len } else .error .badAccess

/-- `append(buf, len)`. The test compares with `avail()` as a `size_t`. -/
def append (b : CharBuffer size) (buf : Bytes) (len : ℕ) : Checked (CharBuffer size) :=
  if (b.avail % 2 ^ 64).toNat > len then do
    let bytes ← load buf len
    let data ← store b.data b.cur bytes
    add { b with data := data } len
  else .ok b

def reset (b : CharBuffer size) : CharBuffer size := { b with cur := 0 }

/-- `debugString()`: the buffer with the terminator. -/
def debugString (b : CharBuffer size) : Checked (CharBuffer size) := do
  let data ← store b.data b.cur [0]
  .ok { b with data := data }

def toStringPiece (b : CharBuffer size) : StringPiece := ⟨b.data, BitVec.ofNat 32 b.cur⟩

/-- The characters before `cur_`. -/
def content (b : CharBuffer size) : Bytes := b.data.take b.cur

/-- The array has its size, and there is a character left. -/
structure Valid (b : CharBuffer size) : Prop where
  length_data : b.data.length = size
  cur_lt : b.cur < size

end CharBuffer

/-! ## The stream -/

namespace LogStream

open IntegerText CharBuffer

def kSmallBuffer : ℕ := 4000

def kMaxNumericSize : ℤ := 32

/-- `LogStream::Buffer`. -/
abbrev Buffer := CharBuffer kSmallBuffer

/-- `snprintf(buf, size, ...)` for the given output: what does not fit is cut off, and the length of
the whole output is returned. -/
def snprintf (mem : Bytes) (buf size : ℕ) (text : Bytes) :
    Checked (Bytes × ℕ) := do
  let mem ← store mem buf (text.take (size - 1) ++ [0])
  .ok (mem, text.length)

/-- The output of `"%.12g"`: a sign, a digit, a point, eleven digits and an exponent of at most five
characters. -/
structure DoubleFormat (δ : Type) where
  text : δ → Bytes
  length_le (v : δ) : (text v).length ≤ 19

/-- A `double` that is an integer of at most twelve digits. -/
abbrev WholeDouble := {v : ℤ // v.natAbs < 10 ^ 12}

/-- These are printed in decimal. -/
def wholeDoubles : DoubleFormat WholeDouble where
  text v := decimalText v
  length_le v := by
    have hlen := (Nat.length_toDigits_le_iff (b := 10) (by norm_num) (by norm_num)).2 v.2
    rw [length_decimalText]
    split_ifs <;> omega

/-- The integer types that can be inserted. -/
inductive Integer where
  | short
  | unsignedShort
  | int
  | unsignedInt
  | long
  | unsignedLong
  | longLong
  | unsignedLongLong
  deriving DecidableEq, Repr

/-- The type itself. -/
def Integer.type : Integer → IntType
  | short => ⟨16, true⟩
  | unsignedShort => ⟨16, false⟩
  | int => ⟨32, true⟩
  | unsignedInt => ⟨32, false⟩
  | long | longLong => ⟨64, true⟩
  | unsignedLong | unsignedLongLong => ⟨64, false⟩

/-- The type `formatInteger` is called at: the short ones are inserted as `int` and `unsigned`. -/
def Integer.formatted : Integer → IntType
  | short => int.type
  | unsignedShort => unsignedInt.type
  | T => T.type

/-- What can be inserted. -/
inductive Item (δ : Type) where
  | bool (v : Bool)
  | char (v : UInt8)
  | integer (T : Integer) (v : {x : ℤ // T.type.Holds x})
  | pointer (p : BitVec 64)
  | double (v : δ)
  /-- A null pointer, or a pointer to characters with a terminator among them. -/
  | cString (str : Option {s : Bytes // 0 ∈ s})
  | string (v : Bytes)
  | stringPiece (v : {v : StringPiece // v.Readable})
  | buffer (v : {v : Buffer // v.Valid})
  /-- `append(data, len)`. -/
  | append (v : {v : StringPiece // v.Readable})

section Operations

variable {δ : Type} (printf : DoubleFormat δ) (b : Buffer)

def formatInteger (T : IntType) (v : ℤ) : Checked Buffer :=
  if b.avail ≥ kMaxNumericSize then do
    let (data, len) ← convert T b.data b.cur v
    add { b with data := data } len
  else .ok b

def insertPointer (p : BitVec 64) : Checked Buffer :=
  if b.avail ≥ kMaxNumericSize then do
    let data ← store b.data b.cur [byteOf '0']
    let data ← store data (b.cur + 1) [byteOf 'x']
    let (data, len) ← convertHex data (b.cur + 2) p
    add { b with data := data } (len + 2)
  else .ok b

def insertDouble (v : δ) : Checked Buffer :=
  if b.avail ≥ kMaxNumericSize then do
    let (data, len) ← snprintf b.data b.cur kMaxNumericSize.toNat (printf.text v)
    add { b with data := data } len
  else .ok b

/-- `strlen`. -/
def strlen (s : Bytes) : ℕ := s.idxOf 0

/-- `operator<<`, and `append`. -/
def insert : Item δ → Checked Buffer
  | .bool v => CharBuffer.append b (literal (if v then "1" else "0")) 1
  | .char v => CharBuffer.append b [v] 1
  | .integer T v => formatInteger b T.formatted v
  | .pointer p => insertPointer b p
  | .double v => insertDouble printf b v
  | .cString (some str) => CharBuffer.append b str (strlen str)
  | .cString none => CharBuffer.append b (literal "(null)") 6
  | .string v => CharBuffer.append b (v ++ [0]) v.length
  | .stringPiece v => CharBuffer.append b v.1.ptr v.1.size
  | .buffer v => CharBuffer.append b v.1.toStringPiece.ptr v.1.toStringPiece.size
  | .append v => CharBuffer.append b v.1.ptr v.1.size

/-- An operation on the stream. -/
inductive Op (δ : Type) where
  | insert (item : Item δ)
  | resetBuffer

def step : Op δ → Checked Buffer
  | .insert item => insert printf b item
  | .resetBuffer => .ok b.reset

end Operations

/-! ## The texts -/

/-- The text of an item. -/
def text {δ : Type} (printf : DoubleFormat δ) : Item δ → Bytes
  | .bool v => literal (if v then "1" else "0")
  | .char v => [v]
  | .integer _ v => decimalText v
  | .pointer p => literal "0x" ++ hexText p.toNat
  | .double v => printf.text v
  | .cString (some str) => str.1.takeWhile (· ≠ 0)
  | .cString none => literal "(null)"
  | .string v => v
  | .stringPiece v => v.1.text
  | .buffer v => v.1.content
  | .append v => v.1.text

/-- The items inserted since the last reset. -/
def sinceReset {δ : Type} (items : List (Item δ)) : Op δ → List (Item δ)
  | .insert item => items ++ [item]
  | .resetBuffer => []

end LogStream

/-! ## Copied texts -/

namespace CharBuffer

variable {size : ℕ} {b : CharBuffer size}

theorem Valid.reset (h : b.Valid) : b.reset.Valid := ⟨h.length_data, Nat.zero_lt_of_lt h.cur_lt⟩

theorem Valid.length_content (h : b.Valid) : b.content.length = b.cur := by
  rw [content, length_take, h.length_data]
  exact min_eq_left h.cur_lt.le

theorem Valid.debugString (h : b.Valid) :
    ∃ b', b.debugString = .ok b' ∧ b'.content = b.content := by
  have hroom : b.cur + [(0 : UInt8)].length ≤ b.data.length := by
    rw [h.length_data, length_singleton]
    exact h.cur_lt
  refine ⟨_, bind_of_ok (store_of_le hroom) _, ?_⟩
  have hcur : (b.data.take b.cur).length = b.cur := h.length_content
  rw [content, content, writeAt, append_assoc, take_left' hcur]

theorem Valid.size_toStringPiece (h : b.Valid) (hsize : size ≤ 2 ^ 31) :
    b.toStringPiece.size = b.cur := by
  have hcur := h.cur_lt
  have hlength : b.toStringPiece.length.toNat = b.cur := by
    rw [toStringPiece, BitVec.toNat_ofNat]
    omega
  rw [StringPiece.size_eq, hlength, if_neg (by omega), Nat.add_zero]

/-- The abstract buffer. -/
def Valid.view (h : b.Valid) : FixedBuffer size :=
  ⟨b.content, by rw [h.length_content]; exact h.cur_lt.le⟩

/-- **Moving past what has been written.** A text stands behind `cur_`, perhaps with a terminator,
and one character stays free. -/
theorem Valid.add_written (h : b.Valid) {t : Bytes} (e : Bytes)
    (hroom : b.cur + t.length < size) (hwrite : b.cur + (t ++ e).length ≤ size) :
    ∃ b' : CharBuffer size, add { b with data := writeAt b.data b.cur (t ++ e) } t.length = .ok b' ∧
      b'.Valid ∧ b'.content = b.content ++ t := by
  have hlen : (writeAt b.data b.cur (t ++ e)).length = size :=
    (length_writeAt (by rw [h.length_data]; exact hwrite)).trans h.length_data
  refine ⟨_, if_pos hroom.le, ⟨hlen, hroom⟩, ?_⟩
  have hcur : (b.data.take b.cur ++ t).length = b.cur + t.length := by
    rw [length_append, show (b.data.take b.cur).length = _ from h.length_content]
  rw [content, writeAt, ← append_assoc, append_assoc (_ ++ t), take_left' hcur]
  rfl

/-- **`append`.** A text is copied exactly if the abstract buffer has room for it. A length that
cannot be read is too large for any buffer. -/
theorem append_refines (h : b.Valid) (hsize : size < 2 ^ 63) {src : Bytes} {len : ℕ}
    (hread : len < size → len ≤ src.length) :
    ∃ b', b.append src len = .ok b' ∧ b'.Valid ∧
      b'.content = if len < size then (h.view.append (src.take len)).data else b.content := by
  have hcur := h.cur_lt
  have hview : h.view.avail = size - b.cur := by
    rw [FixedBuffer.avail, Valid.view, h.length_content]
  have havail : (b.avail % 2 ^ 64).toNat = size - b.cur := by
    rw [avail]
    omega
  rw [append, havail]
  by_cases hlen : size - b.cur > len
  · have htake : (src.take len).length = len := by
      rw [length_take]
      exact min_eq_left (hread (by omega))
    obtain ⟨b', hadd, hvalid, hcontent⟩ := h.add_written (t := src.take len) []
      (by rw [htake]; omega) (by rw [append_nil, htake]; omega)
    rw [append_nil, htake] at hadd
    refine ⟨b', ?_, hvalid, ?_⟩
    · rw [if_pos hlen, load_of_le (hread (by omega)), ok_bind,
        store_of_le (by rw [htake, h.length_data]; omega), ok_bind]
      exact hadd
    · rw [if_pos (by omega), FixedBuffer.data_append _ (by rw [htake, hview]; omega), hcontent]
      rfl
  · refine ⟨b, if_neg hlen, h, ?_⟩
    split_ifs with hsmall
    · have htake : (src.take len).length = len := by
        rw [length_take]
        exact min_eq_left (hread hsmall)
      rw [FixedBuffer.append, dif_neg (by rw [htake, hview]; omega)]
      rfl
    · rfl

end CharBuffer

/-! ## One item -/

namespace LogStream

open IntegerText CharBuffer

/-- What is left of an item: all of it or nothing. -/
structure Inserted (b b' : Buffer) (t : Bytes) : Prop where
  valid : b'.Valid
  content : b'.content = b.content ∨ b'.content = b.content ++ t

section Insert

variable {δ : Type} {printf : DoubleFormat δ} {b : Buffer}

section

variable (h : b.Valid)
include h

theorem append_inserted {src t : Bytes} {len : ℕ}
    (hread : len < kSmallBuffer → len ≤ src.length) (ht : len < kSmallBuffer → src.take len = t) :
    ∃ b', CharBuffer.append b src len = .ok b' ∧ Inserted b b' t := by
  obtain ⟨b', hok, hvalid, hcontent⟩ := append_refines h (by decide) hread
  refine ⟨b', hok, hvalid, ?_⟩
  by_cases hlen : len < kSmallBuffer
  · rw [if_pos hlen, ht hlen] at hcontent
    by_cases hroom : t.length < h.view.avail
    · exact Or.inr (hcontent.trans (FixedBuffer.data_append _ hroom))
    · rw [FixedBuffer.append, dif_neg hroom] at hcontent
      exact Or.inl hcontent
  · exact Or.inl (hcontent.trans (if_neg hlen))

/-- A text that is written in place, with its terminator. -/
theorem written_inserted (hroom : b.avail ≥ kMaxNumericSize) {t : Bytes}
    (ht : t.length < 32) :
    ∃ b' : Buffer, add { b with data := writeAt b.data b.cur (t ++ [0]) } t.length = .ok b' ∧
      Inserted b b' t := by
  have hcur : b.cur + 32 ≤ kSmallBuffer := by
    rw [avail, kMaxNumericSize] at hroom
    omega
  obtain ⟨b', hadd, hvalid, hcontent⟩ := h.add_written (t := t) [0] (by omega)
    (by rw [length_append, length_singleton]; omega)
  exact ⟨b', hadd, hvalid, Or.inr hcontent⟩

theorem Valid.room (hroom : b.avail ≥ kMaxNumericSize) {n : ℕ} (hn : n < 32) :
    b.cur + n < b.data.length := by
  rw [avail, kMaxNumericSize] at hroom
  rw [h.length_data]
  omega

theorem unchanged (t : Bytes) :
    ∃ b', (.ok b : Checked Buffer) = .ok b' ∧ Inserted b b' t := ⟨b, rfl, h, Or.inl rfl⟩

theorem formatInteger_inserted {T : IntType} (hT : T.bits = 32 ∨ T.bits = 64) {v : ℤ}
    (hv : T.Holds v) : ∃ b', formatInteger b T v = .ok b' ∧ Inserted b b' (decimalText v) := by
  have hlen := length_decimalText_le hT hv
  rw [formatInteger]
  split_ifs with hroom
  · rw [convert_eq b.data b.cur (by omega) hv (Valid.room h hroom (by omega)), ok_bind]
    exact written_inserted h hroom (by omega)
  · exact unchanged h _

theorem insertPointer_inserted (p : BitVec 64) :
    ∃ b', insertPointer b p = .ok b' ∧ Inserted b b' (literal "0x" ++ hexText p.toNat) := by
  have hlen := length_hexText_le p
  rw [insertPointer]
  split_ifs with hroom
  · have hlong := Valid.room h hroom (n := 20) (by norm_num)
    -- the two characters of the prefix are one write
    have hx : store (writeAt b.data b.cur [byteOf '0']) (b.cur + 1) [byteOf 'x'] =
        .ok (writeAt b.data b.cur (literal "0x")) :=
      store_writeAt (d := [byteOf '0']) (show b.cur + 2 ≤ _ by omega)
    have hmem : (writeAt b.data b.cur (literal "0x")).length = b.data.length :=
      length_writeAt (show b.cur + 2 ≤ _ by omega)
    have hwrite : writeAt (writeAt b.data b.cur (literal "0x")) (b.cur + 2)
        (hexText p.toNat ++ [0]) =
        writeAt b.data b.cur (literal "0x" ++ hexText p.toNat ++ [0]) := by
      rw [append_assoc]
      refine writeAt_writeAt_append (d := literal "0x") ?_
      rw [length_append, length_append, length_singleton]
      exact show b.cur + (2 + _) ≤ _ by omega
    have hlength : (literal "0x" ++ hexText p.toNat).length = (hexText p.toNat).length + 2 := by
      rw [length_append, Nat.add_comm]
      rfl
    rw [store_of_le (show b.cur + 1 ≤ _ by omega), ok_bind, hx, ok_bind,
      convertHex_eq _ _ p (by rw [hmem]; omega), ok_bind]
    simp only [hwrite, ← hlength]
    exact written_inserted h hroom (by omega)
  · exact unchanged h _

theorem insertDouble_inserted (v : δ) :
    ∃ b', insertDouble printf b v = .ok b' ∧ Inserted b b' (printf.text v) := by
  have hlen := printf.length_le v
  rw [insertDouble]
  split_ifs with hroom
  · have htake : (printf.text v).take (kMaxNumericSize.toNat - 1) = printf.text v :=
      take_of_length_le (hlen.trans (by decide))
    have hlong := Valid.room h hroom (n := 20) (by norm_num)
    rw [snprintf, htake, store_of_le (by rw [length_append, length_singleton]; omega)]
    exact written_inserted h hroom (by omega)
  · exact unchanged h _

end

/-- The wider type has every value of the type. -/
theorem Integer.formatted_holds {T : Integer} {v : ℤ} (h : T.type.Holds v) :
    T.formatted.Holds v := by
  cases T with
  | short =>
    have hshort : CInt.Fits 16 v := h
    refine CInt.fits32.2 ?_
    unfold CInt.Fits at hshort
    norm_num at hshort
    omega
  | unsignedShort =>
    have hshort : 0 ≤ v ∧ v < 2 ^ 16 := h
    exact show 0 ≤ v ∧ v < 2 ^ 32 by omega
  | _ => exact h

theorem take_strlen (s : Bytes) : s.take (strlen s) = s.takeWhile (· ≠ 0) := by
  have htest : (fun x : UInt8 ↦ x == 0) = fun x ↦ !decide (x ≠ 0) := by
    funext x
    rw [Bool.eq_iff_iff]
    simp
  rw [takeWhile_eq_take_findIdx_not, strlen, List.idxOf, htest]

theorem readable_of_lt {v : StringPiece} (hv : v.Readable) (hlt : v.size < kSmallBuffer) :
    v.size ≤ v.ptr.length :=
  hv.size_le (hlt.trans (by decide))

/-- **One insertion.** -/
theorem insert_inserted (h : b.Valid) (item : Item δ) :
    ∃ b', insert printf b item = .ok b' ∧ Inserted b b' (text printf item) := by
  cases item with
  | bool v =>
    have hone : (literal (if v then "1" else "0")).length = 1 := by cases v <;> rfl
    exact append_inserted h (fun _ ↦ hone.ge) fun _ ↦ take_of_length_le hone.le
  | char v => exact append_inserted h (fun _ ↦ le_rfl) fun _ ↦ rfl
  | integer T v =>
    exact formatInteger_inserted h (by cases T <;> decide) (Integer.formatted_holds v.2)
  | pointer p => exact insertPointer_inserted h p
  | double v => exact insertDouble_inserted h v
  | cString str =>
    cases str with
    | none => exact append_inserted h (fun _ ↦ le_rfl) fun _ ↦ rfl
    | some str =>
      exact append_inserted h (fun _ ↦ idxOf_le_length) fun _ ↦ take_strlen str
  | string v =>
    refine append_inserted h (fun _ ↦ ?_) fun _ ↦ take_left
    rw [length_append]
    omega
  | stringPiece v => exact append_inserted h (readable_of_lt v.2) fun _ ↦ rfl
  | buffer v =>
    have hsize := v.2.size_toStringPiece (by decide)
    have hread : v.1.toStringPiece.size ≤ v.1.toStringPiece.ptr.length := by
      rw [hsize, toStringPiece, v.2.length_data]
      exact v.2.cur_lt.le
    refine append_inserted h (fun _ ↦ hread) fun _ ↦ ?_
    rw [hsize]
    rfl
  | append v => exact append_inserted h (readable_of_lt v.2) fun _ ↦ rfl

end Insert

/-! ## Whole runs -/

section Run

variable {δ : Type} (printf : DoubleFormat δ)

/-- The buffer holds, since the last reset, the texts of some of the items, in their order. -/
structure Holds (b : Buffer) (items : List (Item δ)) : Prop where
  valid : b.Valid
  kept : ∃ kept : List (Item δ), kept.Sublist items ∧ b.content = kept.flatMap (text printf)

theorem holds_step {b : Buffer} {items : List (Item δ)} (h : Holds printf b items) (op : Op δ) :
    ∃ b', step printf b op = .ok b' ∧ Holds printf b' (sinceReset items op) := by
  obtain ⟨hvalid, kept, hsub, hcontent⟩ := h
  cases op with
  | insert item =>
    obtain ⟨b', hok, hvalid', hins⟩ := insert_inserted hvalid item
    refine ⟨b', hok, hvalid', ?_⟩
    rcases hins with hdrop | hkeep
    · exact ⟨kept, hsub.trans (sublist_append_left ..), hdrop.trans hcontent⟩
    · refine ⟨kept ++ [item], hsub.append_right _, ?_⟩
      rw [hkeep, hcontent, flatMap_append, flatMap_singleton]
  | resetBuffer => exact ⟨b.reset, rfl, hvalid.reset, [], List.Sublist.refl [], rfl⟩

/-- **The stream neither overflows nor cuts an item.** Every sequence of insertions and resets runs
through, so no character is written outside the array. In the end the length is not negative, a
character is free, the terminator of `debugString` is inside, and the content is made of the whole
texts of some of the items inserted since the last reset, in their order. -/
theorem appended_or_dropped (data : List.Vector UInt8 kSmallBuffer) (ops : List (Op δ)) :
    ∃ b, runAll (step printf) (CharBuffer.new data) ops = .ok b ∧
      0 ≤ b.length ∧ 1 ≤ b.avail ∧ (∃ b', b.debugString = .ok b' ∧ b'.content = b.content) ∧
      ∃ kept : List (Item δ), kept.Sublist (ops.foldl sinceReset []) ∧
        b.content = kept.flatMap (text printf) := by
  have hnew : Holds printf (CharBuffer.new data) [] :=
    ⟨⟨data.toList_length, show 0 < kSmallBuffer by decide⟩, [], List.Sublist.refl [], rfl⟩
  have hops : Along (step printf) (fun _ _ ↦ True) (CharBuffer.new data) ops :=
    along_of_forall fun _ _ _ ↦ trivial
  obtain ⟨b, hrun, hvalid, hkept⟩ := runAll_simulates (R := Holds printf)
    (fun b items op h _ ↦ holds_step printf h op) hnew hops
  have hcur := hvalid.cur_lt
  refine ⟨b, hrun, ?_, ?_, hvalid.debugString, hkept⟩
  · exact Int.natCast_nonneg b.cur
  · rw [avail]
    omega

/-- After a reset a long text leaves 33 characters. There is room for one number, not for two, and
again for a character. -/
def nearEnd : List (Op WholeDouble) :=
  [.insert (.bool true), .resetBuffer, .insert (.string (replicate 3967 120)),
    .insert (.double ⟨-42, by norm_num⟩), .insert (.integer .int ⟨7, by decide⟩),
    .insert (.char 33)]

theorem appended_or_dropped_nearEnd :
    ∃ b, runAll (step wholeDoubles) (CharBuffer.new (.replicate kSmallBuffer 0)) nearEnd = .ok b ∧
      b.content = replicate 3967 120 ++ literal "-42!" ∧ 1 ≤ b.avail ∧
      ∃ kept : List (Item WholeDouble), kept.Sublist (nearEnd.foldl sinceReset []) ∧
        b.content = kept.flatMap (text wholeDoubles) := by
  have hcontent : (runAll (step wholeDoubles) (CharBuffer.new (.replicate kSmallBuffer 0))
      nearEnd).map CharBuffer.content = .ok (replicate 3967 120 ++ literal "-42!") := by
    decide +kernel
  obtain ⟨b, hrun, -, havail, -, hkept⟩ := appended_or_dropped wholeDoubles (.replicate _ 0) nearEnd
  rw [hrun] at hcontent
  exact ⟨b, hrun, Except.ok.inj hcontent, havail, hkept⟩

end Run

end LogStream

end Fishnet

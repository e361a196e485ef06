import ZenohPicoPerf.Common.Clock

/-!
# Micro-CDR

The functions of the serialisation library that the XRCE-DDS programs call.
They are parameters of the programs; `Aligns`, `WritesString`, `WritesArray`,
`ReadsString` and `ReadsArray` are what the programs rely on.  A size is
computed in `size_t` and then added to a 32-bit offset that may wrap.

## Main results

* `topicSize_toNat` — the wrap of the offset does not reach the size.
* `aligns_alignment`, `writesString_serializeString`,
  `writesArray_serializeArray`, `readsArray_deserializeArray`,
  `readsString_deserializeString` — the library's own formulas meet what is
  relied on.
-/

namespace ZenohPicoPerf.Common.MicroCdr

open ZenohPicoPerf.Foundation.Memory

/-- `ucdrBuffer`: the offset in the stream that alignment refers to, the
bytes written, and the error flag.  The memory has room for what is
written. -/
structure UcdrBuffer where
  offset : Word
  written : List Byte
  error : Bool
deriving DecidableEq, Repr

/-- A writer before its first byte. -/
def UcdrBuffer.startAt (offset : Word) : UcdrBuffer :=
  { offset := offset, written := [], error := false }

/-! ## What the programs rely on -/

/-- `ucdr_alignment(o, 4)` is the padding up to the next multiple of 4. -/
def Aligns (ucdrAlignment : Word → Word → Word) : Prop :=
  ∀ o : Word, IsPadding 4 o.toNat (ucdrAlignment o 4).toNat

/-- The start of a stream needs no padding. -/
theorem isPadding_start : IsPadding 4 0 0 where
  lt := by decide
  dvd := ⟨0, rfl⟩

theorem Aligns.start {ucdrAlignment : Word → Word → Word}
    (h : Aligns ucdrAlignment) : (ucdrAlignment 0 4).toNat = 0 :=
  (h 0).unique isPadding_start

/-- A string on the wire: its length with the terminator, and its
characters. -/
def stringBytes (string : List Byte) : List Byte :=
  leBytes 4 ((cString string).length + 1) ++ (cString string ++ [0])

/-- `ucdr_serialize_string` pads to a multiple of 4 and writes the string. -/
def WritesString (ucdrSerializeString : UcdrBuffer → List Byte → UcdrBuffer) :
    Prop :=
  ∀ (writer : UcdrBuffer) (string : List Byte), writer.error = false →
    0 ∈ string → ∃ pad : List Byte,
      IsPadding 4 writer.offset.toNat pad.length ∧
      (ucdrSerializeString writer string).written =
        writer.written ++ (pad ++ stringBytes string) ∧
      (ucdrSerializeString writer string).error = false

/-- `ucdr_serialize_array_uint8_t` writes `size` bytes and nothing else: those
of the array, as far as the array reaches. -/
def WritesArray
    (ucdrSerializeArray : UcdrBuffer → List Byte → Word → UcdrBuffer) : Prop :=
  ∀ (writer : UcdrBuffer) (array : List Byte) (size : Word),
    writer.error = false → ∃ bytes : List Byte,
      bytes.length = size.toNat ∧
      (size.toNat ≤ array.length → bytes = array.take size.toNat) ∧
      (ucdrSerializeArray writer array size).written =
        writer.written ++ bytes ∧
      (ucdrSerializeArray writer array size).error = false

/-- `ucdrBuffer` of a reader: the offset, the bytes still to be read, and the
error flag. -/
structure UcdrReader where
  offset : Word
  unread : List Byte
  error : Bool
deriving DecidableEq, Repr

/-- `ucdr_deserialize_array_uint8_t` moves `size` bytes to the start of the
array, if there are as many and the array has room for them. -/
def ReadsArray (ucdrDeserializeArray :
    UcdrReader → List Byte → Word → UcdrReader × List Byte) : Prop :=
  ∀ (reader : UcdrReader) (array : List Byte) (size : Word),
    reader.error = false → size.toNat ≤ reader.unread.length →
    size.toNat ≤ array.length →
    (ucdrDeserializeArray reader array size).2 =
        reader.unread.take size.toNat ++ array.drop size.toNat ∧
      (ucdrDeserializeArray reader array size).1.error = false

/-- `ucdr_deserialize_string` skips the padding and moves a string with its
terminator to the start of the array, if `capacity` is enough for it. -/
def ReadsString (ucdrDeserializeString :
    UcdrReader → List Byte → Word → UcdrReader × List Byte) : Prop :=
  ∀ (reader : UcdrReader) (array : List Byte) (capacity : Word)
    (pad string rest : List Byte), reader.error = false →
    reader.unread = pad ++ (stringBytes string ++ rest) →
    IsPadding 4 reader.offset.toNat pad.length →
    (cString string).length + 1 < 2 ^ 32 → capacity.toNat ≤ array.length →
    ((ucdrDeserializeString reader array capacity).1.error = false ↔
      (cString string).length + 1 ≤ capacity.toNat) ∧
    ((cString string).length + 1 ≤ capacity.toNat →
      (ucdrDeserializeString reader array capacity).2 =
        cString string ++
          0 :: array.drop ((cString string).length + 1))

theorem stringBytes_length (string : List Byte) :
    (stringBytes string).length = 4 + ((cString string).length + 1) := by
  simp [stringBytes]

/-! ## The size of a topic -/

/-- `MyDataType_size_of_topic` of the publishers: the sum in `size_t` is
converted to `uint32_t` and added to `size`. -/
def topicSize (ucdrAlignment : Word → Word → Word) (msgSize : Word)
    (size : BitVec 32) : BitVec 32 :=
  let previousSize := size
  let size := size +
    (ucdrAlignment (size.setWidth 64) 4 + 4 + msgSize + 1).setWidth 32
  size - previousSize

/-- The offset cancels, and a size that fits in 32 bits is kept. -/
theorem topicSize_toNat {ucdrAlignment : Word → Word → Word}
    (halign : Aligns ucdrAlignment) {msgSize : Word}
    (hfits : msgSize.toNat + 8 < 2 ^ 32) (size : BitVec 32) :
    (topicSize ucdrAlignment msgSize size).toNat =
      (ucdrAlignment (size.setWidth 64) 4).toNat +
        (4 + (msgSize.toNat + 1)) := by
  have hpad := (halign (size.setWidth 64)).lt
  have hcancel : topicSize ucdrAlignment msgSize size =
      (ucdrAlignment (size.setWidth 64) 4 + 4 + msgSize + 1).setWidth 32 := by
    rw [topicSize, BitVec.add_comm, BitVec.add_sub_cancel]
  have hfour : (4 : Word).toNat = 4 := rfl
  have hone : (1 : Word).toNat = 1 := rfl
  rw [hcancel, BitVec.toNat_setWidth, BitVec.toNat_add, BitVec.toNat_add,
    BitVec.toNat_add, hfour, hone]
  omega

/-! ## The library's formulas -/

def alignment (currentAlignment dataSize : Word) : Word :=
  (dataSize - currentAlignment % dataSize) &&& (dataSize - 1)

def serializeString (writer : UcdrBuffer) (string : List Byte) : UcdrBuffer :=
  let pad := List.replicate (alignment writer.offset 4).toNat 0
  let bytes := pad ++ stringBytes string
  { offset := writer.offset + BitVec.ofNat 64 bytes.length
    written := writer.written ++ bytes
    error := writer.error }

/-- Behind the end of the array stands anything, here zeros. -/
def serializeArray (writer : UcdrBuffer) (array : List Byte) (size : Word) :
    UcdrBuffer :=
  let bytes := array.take size.toNat ++
    List.replicate (size.toNat - array.length) 0
  { offset := writer.offset + size
    written := writer.written ++ bytes
    error := writer.error }

theorem aligns_alignment : Aligns alignment := by
  intro o
  have hfour : (4 : Word).toNat = 4 := rfl
  have hrem : (o % 4).toNat = o.toNat % 4 := by rw [BitVec.toNat_umod, hfour]
  have hle : o % 4 ≤ 4 := by
    rw [BitVec.le_def, hrem, hfour]
    omega
  have hmask : (alignment o 4).toNat = (4 - o.toNat % 4) % 2 ^ 2 := by
    rw [alignment, BitVec.toNat_and, BitVec.toNat_sub_of_le hle, hrem, hfour,
      show (4 - 1 : Word).toNat = 2 ^ 2 - 1 from rfl,
      Nat.and_two_pow_sub_one_eq_mod]
  rw [hmask]
  constructor <;> omega

theorem writesString_serializeString : WritesString serializeString := by
  intro writer string herror _
  refine ⟨List.replicate (alignment writer.offset 4).toNat 0, ?_, rfl, herror⟩
  rw [List.length_replicate]
  exact aligns_alignment writer.offset

theorem writesArray_serializeArray : WritesArray serializeArray := by
  intro writer array size herror
  refine ⟨_, ?_, ?_, rfl, herror⟩
  · rw [List.length_append, List.length_take, List.length_replicate]
    omega
  · intro hfits
    rw [Nat.sub_eq_zero_of_le hfits, List.replicate_zero, List.append_nil]

/-- A reader with too few bytes left sets its error flag and moves none. -/
def deserializeArray (reader : UcdrReader) (array : List Byte) (size : Word) :
    UcdrReader × List Byte :=
  if reader.unread.length < size.toNat then
    ({ reader with error := true }, array)
  else
    ({ reader with
        offset := reader.offset + size
        unread := reader.unread.drop size.toNat },
      reader.unread.take size.toNat ++ array.drop size.toNat)

theorem readsArray_deserializeArray : ReadsArray deserializeArray := by
  intro reader array size herror hunread _
  rw [deserializeArray, if_neg (by omega)]
  exact ⟨rfl, herror⟩

/-- The length on the wire counts the terminator; a string that is cut off or
longer than `capacity` sets the error flag. -/
def deserializeString (reader : UcdrReader) (array : List Byte)
    (capacity : Word) : UcdrReader × List Byte :=
  let unread := reader.unread.drop (alignment reader.offset 4).toNat
  let length := leNat (unread.take 4)
  if unread.length < 4 + length ∨ capacity.toNat < length then
    ({ reader with error := true }, array)
  else
    ({ reader with
        offset := reader.offset + BitVec.ofNat 64
          ((alignment reader.offset 4).toNat + (4 + length))
        unread := unread.drop (4 + length) },
      (unread.drop 4).take length ++ array.drop length)

theorem readsString_deserializeString : ReadsString deserializeString := by
  intro reader array capacity pad string rest herror hunread hpad hfits _
  have hskip : reader.unread.drop (alignment reader.offset 4).toNat =
      stringBytes string ++ rest := by
    rw [hunread, (aligns_alignment reader.offset).unique hpad, List.drop_left]
  have htake : (stringBytes string ++ rest).take 4 =
      leBytes 4 ((cString string).length + 1) := by
    rw [stringBytes, List.append_assoc, List.take_left' (leBytes_length 4 _)]
  have hdrop : (stringBytes string ++ rest).drop 4 =
      cString string ++ [0] ++ rest := by
    rw [stringBytes, List.append_assoc, List.drop_left' (leBytes_length 4 _)]
  have hlength : leNat (leBytes 4 ((cString string).length + 1)) =
      (cString string).length + 1 := by
    rw [leNat_leBytes, Nat.mod_eq_of_lt (by omega)]
  have hwhole : ¬ (stringBytes string ++ rest).length <
      4 + ((cString string).length + 1) := by
    rw [List.length_append, stringBytes_length]
    omega
  unfold deserializeString
  simp only [hskip, htake, hdrop, hlength, hwhole, false_or]
  by_cases hcap : capacity.toNat < (cString string).length + 1
  · rw [if_pos hcap]
    exact ⟨⟨fun hclear => absurd hclear Bool.noConfusion,
      fun hle => by omega⟩, fun hle => by omega⟩
  · rw [if_neg hcap]
    refine ⟨⟨fun _ => by omega, fun _ => herror⟩, fun _ => ?_⟩
    have hstring : (cString string ++ [0]).length =
        (cString string).length + 1 := List.length_append
    rw [List.take_left' hstring, List.append_assoc]
    rfl

end ZenohPicoPerf.Common.MicroCdr

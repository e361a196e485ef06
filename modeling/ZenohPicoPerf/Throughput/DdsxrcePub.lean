import ZenohPicoPerf.Common.MicroCdr

/-!
# ddsxrce_pub_thr

The publisher asks for as many bytes as `MyDataType_size_of_topic` says and
then serialises the topic.  The size is computed from `msg_size`, the bytes
from `strlen` of the buffer that `main` builds.

## Main results

* `topic_eq` — the string that `main` builds.
* `thr_reserves_exactly` — the size is the number of bytes written.
-/

namespace ZenohPicoPerf.Throughput.DdsxrcePub

open ZenohPicoPerf.Foundation.Memory
open ZenohPicoPerf.Foundation.Signed
open ZenohPicoPerf.Common.Clock
open ZenohPicoPerf.Common.MicroCdr

/-- `buf` is the memory that the member points to. -/
structure MyDataType where
  buf : List Byte
deriving DecidableEq, Repr

/-- `MyDataType_serialize_topic` -/
def serializeTopic (ucdrSerializeString : UcdrBuffer → List Byte → UcdrBuffer)
    (writer : UcdrBuffer) (data : MyDataType) : UcdrBuffer × Bool :=
  let writer := ucdrSerializeString writer data.buf
  (writer, !writer.error)

/-- `MyDataType_size_of_topic` does not look at `data`. -/
def sizeOfTopic (ucdrAlignment : Word → Word → Word) (msgSize : CInt)
    (_data : MyDataType) (size : BitVec 32) : BitVec 32 :=
  topicSize ucdrAlignment msgSize.toWord size

/-- The topic of `main`; `fresh` is the memory that `malloc` returns. -/
def topic (msgSize : CInt) (fresh : Buffer (msgSize + 1).toWord.toNat) :
    Option MyDataType := do
  let data ← memset fresh.bytes 1 msgSize.toWord.toNat
  let data ← storeByte data msgSize.toWord.toNat 0
  some { buf := data }

/-! ## The buffer of main -/

theorem toNat_succ {msgSize : CInt} (hnonneg : 0 ≤ msgSize.toInt)
    (hmax : msgSize.toInt < 2 ^ 31 - 1) :
    (msgSize + 1).toWord.toNat = msgSize.toNat + 1 := by
  have hlt := CInt.toNat_lt_of_nonneg hnonneg
  have htoInt := toInt_of_nonneg hnonneg
  have hsucc : (msgSize + 1).toNat = msgSize.toNat + 1 := by
    rw [BitVec.toNat_add, show (1 : CInt).toNat = 1 from rfl]
    omega
  have hsuccInt : (msgSize + 1).toInt = (msgSize + 1).toNat :=
    BitVec.toInt_eq_toNat_of_lt (by omega)
  rw [CInt.toWord_toNat (by omega), hsucc]

/-- `main` builds a string of `msg_size` bytes of value 1. -/
theorem topic_eq {msgSize : CInt} (hnonneg : 0 ≤ msgSize.toInt)
    (hmax : msgSize.toInt < 2 ^ 31 - 1)
    (fresh : Buffer (msgSize + 1).toWord.toNat) :
    topic msgSize fresh =
      some { buf := List.replicate msgSize.toNat 1 ++ [0] } := by
  have hsize : fresh.bytes.length = msgSize.toNat + 1 := by
    rw [fresh.size, toNat_succ hnonneg hmax]
  obtain ⟨last, hlast⟩ : ∃ b, fresh.bytes.drop msgSize.toNat = [b] :=
    List.length_eq_one_iff.mp (by rw [List.length_drop, hsize]; omega)
  have hset : memset fresh.bytes 1 msgSize.toNat =
      some (List.replicate msgSize.toNat 1 ++ [last]) :=
    memset_eq_some.mpr ⟨by omega, by rw [hlast]⟩
  have hstore : storeByte (List.replicate msgSize.toNat 1 ++ [last])
      msgSize.toNat 0 = some (List.replicate msgSize.toNat 1 ++ [0]) := by
    simp [storeByte]
  rw [topic, CInt.toWord_toNat hnonneg, hset, Option.bind_eq_bind,
    Option.bind_some, hstore, Option.bind_some]

theorem strlen_topic (n : Nat) :
    (cString (List.replicate n 1 ++ [0])).length = n := by
  have hones : ∀ b ∈ List.replicate n (1 : Byte), b ≠ 0 := by
    intro b hb
    rw [List.eq_of_mem_replicate hb]
    decide
  rw [cString_terminated [] hones, List.length_replicate]

/-! ## The size and the bytes -/

/-- **Reservation.**  For every message size and every stream offset, the size
of the topic is the number of bytes that serialising it there writes. -/
theorem thr_reserves_exactly (ucdrAlignment : Word → Word → Word)
    (halign : Aligns ucdrAlignment)
    (ucdrSerializeString : UcdrBuffer → List Byte → UcdrBuffer)
    (hstring : WritesString ucdrSerializeString) (msgSize : CInt)
    (hnonneg : 0 ≤ msgSize.toInt) (hmax : msgSize.toInt < 2 ^ 31 - 1)
    (fresh : Buffer (msgSize + 1).toWord.toNat) (size : BitVec 32) :
    ∃ data writer, topic msgSize fresh = some data ∧
      serializeTopic ucdrSerializeString
        (UcdrBuffer.startAt (size.setWidth 64)) data = (writer, true) ∧
      (sizeOfTopic ucdrAlignment msgSize data size).toNat =
        writer.written.length := by
  have hlt := CInt.toNat_lt_of_nonneg hnonneg
  have hword := CInt.toWord_toNat hnonneg
  obtain ⟨pad, hpad, hwritten, herror⟩ :=
    hstring (UcdrBuffer.startAt (size.setWidth 64))
      (List.replicate msgSize.toNat 1 ++ [0]) rfl (by simp)
  refine ⟨_, ucdrSerializeString (UcdrBuffer.startAt (size.setWidth 64))
    (List.replicate msgSize.toNat 1 ++ [0]), topic_eq hnonneg hmax fresh,
    ?_, ?_⟩
  · rw [serializeTopic, herror]
    rfl
  · -- both paddings are those of the same offset
    have hsame := (halign (size.setWidth 64)).unique hpad
    rw [sizeOfTopic, topicSize_toNat halign (by omega), hword, hsame, hwritten,
      List.length_append, List.length_append, stringBytes_length, strlen_topic]
    exact (Nat.zero_add _).symm

/-- One byte before the wrap of the offset, with three bytes of payload. -/
theorem thr_reserves_at_wrap :
    0 ≤ (3 : CInt).toInt ∧ (3 : CInt).toInt < 2 ^ 31 - 1 ∧
    ∃ data writer, topic 3 ⟨[9, 9, 9, 9], rfl⟩ = some data ∧
      serializeTopic serializeString
        (UcdrBuffer.startAt ((0xFFFFFFFF : BitVec 32).setWidth 64)) data =
          (writer, true) ∧
      (sizeOfTopic alignment 3 data 0xFFFFFFFF).toNat =
        writer.written.length :=
  ⟨by decide, by decide,
    thr_reserves_exactly alignment aligns_alignment serializeString
      writesString_serializeString 3 (by decide) (by decide)
      ⟨[9, 9, 9, 9], rfl⟩ 0xFFFFFFFF⟩

/-- One byte of padding, four of length, three characters and a NUL. -/
example : (sizeOfTopic alignment 3 ⟨[]⟩ 0xFFFFFFFF).toNat = 9 := by decide

end ZenohPicoPerf.Throughput.DdsxrcePub

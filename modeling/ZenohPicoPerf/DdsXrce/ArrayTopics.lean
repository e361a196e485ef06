import ZenohPicoPerf.Common.MicroCdr
import ZenohPicoPerf.Foundation.Run

/-!
# ddsxrce_pub_lat and ddsxrce_pub_ovh

Both publishers ask for as many bytes as `MyDataType_size_of_topic` says and
then serialise `msg_size + 1` bytes of an array.  The size is that of a string:
it contains a padding and a length that an array does not have.

## Main results

* `reserved_eq` — how many bytes are asked for too many.
* `lat_reads_in_bounds`, `ovh_reads_out_of_bounds` — whether `main` builds an
  array that is long enough.
* `array_topics_never_exact` — neither size is ever right.
-/

namespace ZenohPicoPerf.DdsXrce

open ZenohPicoPerf.Foundation.Memory
open ZenohPicoPerf.Foundation.Run
open ZenohPicoPerf.Common.Clock
open ZenohPicoPerf.Common.MicroCdr

/-- `buf` is the memory that the member points to. -/
structure MyDataType where
  buf : List Byte
deriving DecidableEq, Repr

/-- The serialiser of both programs, for the value `msgSize` of their global
variable. -/
def serializeArrayTopic
    (ucdrSerializeArray : UcdrBuffer → List Byte → Word → UcdrBuffer)
    (msgSize : Word) (writer : UcdrBuffer) (data : MyDataType) :
    UcdrBuffer × Bool :=
  let writer := ucdrSerializeArray writer data.buf (msgSize + 1)
  (writer, !writer.error)

/-- What it reads of `buf`. -/
def serializeReads (msgSize : Word) : List Access :=
  [{ off := 0, len := (msgSize + 1).toNat }]

/-! ## ddsxrce_pub_lat -/

namespace PubLat

/-- `MyDataType_serialize_topic` -/
def serializeTopic
    (ucdrSerializeArray : UcdrBuffer → List Byte → Word → UcdrBuffer) :=
  serializeArrayTopic ucdrSerializeArray

/-- `MyDataType_size_of_topic` does not look at `data`. -/
def sizeOfTopic (ucdrAlignment : Word → Word → Word) (msgSize : Word)
    (_data : MyDataType) (size : BitVec 32) : BitVec 32 :=
  topicSize ucdrAlignment msgSize size

/-- The topic before the loop of `main`; `fresh` is the memory that `malloc`
returns. -/
def topic (msgSize : Word) (fresh : Buffer (msgSize + 1).toNat) :
    Option MyDataType := do
  let data ← storeByte fresh.bytes msgSize.toNat 0
  some { buf := data }

/-- One iteration stamps the topic. -/
def refresh (data : MyDataType) (start : Timeval) : Option MyDataType := do
  let half ← memcpy data.buf 0 (wordBytes start.tvSec)
  let full ← memcpy half 8 (wordBytes start.tvUsec)
  some { buf := full }

end PubLat

/-! ## ddsxrce_pub_ovh -/

namespace PubOvh

/-- `MyDataType_serialize_topic` -/
def serializeTopic
    (ucdrSerializeArray : UcdrBuffer → List Byte → Word → UcdrBuffer) :=
  serializeArrayTopic ucdrSerializeArray

/-- `MyDataType_size_of_topic` does not look at `data`. -/
def sizeOfTopic (ucdrAlignment : Word → Word → Word) (msgSize : Word)
    (_data : MyDataType) (size : BitVec 32) : BitVec 32 :=
  topicSize ucdrAlignment msgSize size

/-- The topic of `main`. -/
def topic (msgSize : Word) (fresh : Buffer msgSize.toNat) :
    Option MyDataType := do
  let data ← memset fresh.bytes 1 msgSize.toNat
  some { buf := data }

end PubOvh

/-! ## The array that is serialised -/

theorem toNat_succ {msgSize : Word} (hmax : msgSize.toNat < 2 ^ 31) :
    (msgSize + 1).toNat = msgSize.toNat + 1 := by
  rw [BitVec.toNat_add, show (1 : Word).toNat = 1 from rfl]
  omega

theorem inBounds_serialize_iff {msgSize : Word}
    (hmax : msgSize.toNat < 2 ^ 31) {size : Nat} :
    InBounds size (serializeReads msgSize) ↔ msgSize.toNat < size := by
  simp only [serializeReads, inBounds_cons, inBounds_nil, and_true,
    toNat_succ hmax]
  omega

theorem refresh_length {data data' : MyDataType} {start : Timeval}
    (h : PubLat.refresh data start = some data') :
    data'.buf.length = data.buf.length := by
  obtain ⟨half, hhalf, hrest⟩ := Option.bind_eq_some_iff.mp h
  obtain ⟨full, hfull, hdata⟩ := Option.bind_eq_some_iff.mp hrest
  obtain rfl := Option.some.inj hdata
  exact (memcpy_length hfull).trans (memcpy_length hhalf)

/-- ddsxrce_pub_lat has the array that it serialises, in every iteration. -/
theorem lat_reads_in_bounds {msgSize : Word} (hmax : msgSize.toNat < 2 ^ 31)
    {fresh : Buffer (msgSize + 1).toNat} {data data' : MyDataType}
    (h : PubLat.topic msgSize fresh = some data) {starts : List Timeval}
    (hrun : exec PubLat.refresh data starts = some data') :
    InBounds data'.buf.length (serializeReads msgSize) := by
  have hlength : data.buf.length = msgSize.toNat + 1 := by
    simp only [PubLat.topic, storeByte, fresh.size, toNat_succ hmax,
      Nat.lt_succ_self, if_true, Option.bind_eq_bind, Option.bind_some,
      Option.some.injEq] at h
    rw [← h, List.length_set, fresh.size, toNat_succ hmax]
  have hkept : data'.buf.length = msgSize.toNat + 1 :=
    exec_history (fun _ d => d.buf.length = msgSize.toNat + 1) hlength
      (fun _ _ _ _ hd hstep => (refresh_length hstep).trans hd)
      starts data' hrun
  rw [inBounds_serialize_iff hmax, hkept]
  exact Nat.lt_succ_self _

/-- ddsxrce_pub_ovh reads one byte behind its array. -/
theorem ovh_reads_out_of_bounds {msgSize : Word}
    (hmax : msgSize.toNat < 2 ^ 31) {fresh : Buffer msgSize.toNat}
    {data : MyDataType} (h : PubOvh.topic msgSize fresh = some data) :
    ¬InBounds data.buf.length (serializeReads msgSize) := by
  obtain ⟨array, harray, hdata⟩ := Option.bind_eq_some_iff.mp h
  obtain rfl := Option.some.inj hdata
  have hlength : array.length = msgSize.toNat := by
    rw [memcpy_length harray, fresh.size]
  rw [inBounds_serialize_iff hmax, hlength]
  exact Nat.lt_irrefl _

/-! ## The size and the bytes -/

/-- The size of the topic at the offset `size` is the number of bytes that
serialising it there writes. -/
def ReservesExactly (sizeOfTopic : MyDataType → BitVec 32 → BitVec 32)
    (serializeTopic : UcdrBuffer → MyDataType → UcdrBuffer × Bool)
    (data : MyDataType) (size : BitVec 32) : Prop :=
  (sizeOfTopic data size).toNat = (serializeTopic
    (UcdrBuffer.startAt (size.setWidth 64)) data).1.written.length

instance (sizeOfTopic : MyDataType → BitVec 32 → BitVec 32)
    (serializeTopic : UcdrBuffer → MyDataType → UcdrBuffer × Bool)
    (data : MyDataType) (size : BitVec 32) :
    Decidable (ReservesExactly sizeOfTopic serializeTopic data size) :=
  inferInstanceAs (Decidable (_ = _))

section Excess

variable {ucdrAlignment : Word → Word → Word}
  {ucdrSerializeArray : UcdrBuffer → List Byte → Word → UcdrBuffer}
  {msgSize : Word}

/-- The serialiser writes `msg_size + 1` bytes at any offset. -/
theorem serialize_length (harray : WritesArray ucdrSerializeArray)
    (hmax : msgSize.toNat < 2 ^ 31) (data : MyDataType) (offset : Word) :
    (serializeArrayTopic ucdrSerializeArray msgSize
      (UcdrBuffer.startAt offset) data).1.written.length =
        msgSize.toNat + 1 := by
  obtain ⟨bytes, hbytes, -, hwritten, -⟩ :=
    harray (UcdrBuffer.startAt offset) data.buf (msgSize + 1) rfl
  rw [serializeArrayTopic, hwritten, List.length_append, hbytes,
    toNat_succ hmax]
  exact Nat.zero_add _

/-- The padding and the length of a string are asked for too many. -/
theorem reserved_eq (halign : Aligns ucdrAlignment)
    (harray : WritesArray ucdrSerializeArray) (hmax : msgSize.toNat < 2 ^ 31)
    (data : MyDataType) (size : BitVec 32) :
    (topicSize ucdrAlignment msgSize size).toNat =
      (serializeArrayTopic ucdrSerializeArray msgSize
        (UcdrBuffer.startAt (size.setWidth 64)) data).1.written.length +
      ((ucdrAlignment (size.setWidth 64) 4).toNat + 4) := by
  rw [topicSize_toNat halign (by omega), serialize_length harray hmax]
  omega

theorem not_reservesExactly (halign : Aligns ucdrAlignment)
    (harray : WritesArray ucdrSerializeArray) (hmax : msgSize.toNat < 2 ^ 31)
    (data : MyDataType) (size : BitVec 32) :
    ¬ReservesExactly (fun _ => topicSize ucdrAlignment msgSize)
      (serializeArrayTopic ucdrSerializeArray msgSize) data size := by
  intro hexact
  have hreserved := reserved_eq halign harray hmax data size
  have hsame := hreserved.symm.trans hexact
  omega

end Excess

/-- **Array topics.**  For no message size, no stream offset and no data does
either program reserve as many bytes as it serialises. -/
theorem array_topics_never_exact (ucdrAlignment : Word → Word → Word)
    (halign : Aligns ucdrAlignment)
    (ucdrSerializeArray : UcdrBuffer → List Byte → Word → UcdrBuffer)
    (harray : WritesArray ucdrSerializeArray) (msgSize : Word)
    (hmax : msgSize.toNat < 2 ^ 31) (data : MyDataType) (size : BitVec 32) :
    ¬ReservesExactly (PubLat.sizeOfTopic ucdrAlignment msgSize)
        (PubLat.serializeTopic ucdrSerializeArray msgSize) data size ∧
      ¬ReservesExactly (PubOvh.sizeOfTopic ucdrAlignment msgSize)
        (PubOvh.serializeTopic ucdrSerializeArray msgSize) data size :=
  -- the two programs have the same two functions
  ⟨not_reservesExactly halign harray hmax data size,
    not_reservesExactly halign harray hmax data size⟩

/-- The 16 bytes of `msg_size`, three bytes behind a multiple of 4. -/
theorem array_topics_never_exact_default :
    ¬ReservesExactly (PubLat.sizeOfTopic alignment 16)
        (PubLat.serializeTopic serializeArray 16)
        ⟨List.replicate 17 0⟩ 7 ∧
      ¬ReservesExactly (PubOvh.sizeOfTopic alignment 16)
        (PubOvh.serializeTopic serializeArray 16)
        ⟨List.replicate 17 0⟩ 7 :=
  array_topics_never_exact alignment aligns_alignment serializeArray
    writesArray_serializeArray 16 (by decide) ⟨List.replicate 17 0⟩ 7

/-- At offset 0 both programs reserve 21 bytes and write 17. -/
theorem array_topics_excess :
    Aligns alignment ∧ WritesArray serializeArray ∧
      (PubLat.sizeOfTopic alignment 16 ⟨List.replicate 17 0⟩ 0).toNat = 21 ∧
      (PubLat.serializeTopic serializeArray 16 (UcdrBuffer.startAt 0)
        ⟨List.replicate 17 0⟩).1.written.length = 17 ∧
      ¬ReservesExactly (PubLat.sizeOfTopic alignment 16)
        (PubLat.serializeTopic serializeArray 16) ⟨List.replicate 17 0⟩ 0 ∧
      ¬ReservesExactly (PubOvh.sizeOfTopic alignment 16)
        (PubOvh.serializeTopic serializeArray 16) ⟨List.replicate 16 1⟩ 0 :=
  ⟨aligns_alignment, writesArray_serializeArray, by decide, by decide,
    by decide, by decide⟩

end ZenohPicoPerf.DdsXrce

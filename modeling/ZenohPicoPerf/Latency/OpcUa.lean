import ZenohPicoPerf.Latency.Stamp

/-!
# opcua_pub_lat and opcua_sub_lat: a stamp inside a string

The stamp travels as an OPC-UA string, which ends at the first NUL byte.  The
publisher therefore overwrites the nine bytes that it takes to be always zero
with `0x01`, and the subscriber writes zeros over them again.  The other seven
bytes are sent as they are, so the encoding fails whenever one of them is
zero.

## Main results

* `encode_eq` — the buffer that the publisher turns into a string.
* `opcua_stamp_survives_iff` — which clock readings survive the encoding.
-/

namespace ZenohPicoPerf.Latency.OpcUa

open ZenohPicoPerf.Foundation.Memory

/-- `sizeof(size_t) + sizeof(size_t)` -/
def msgSize : Nat := 16

/-- The positions that both programs overwrite, in their order. -/
def maskedPositions : List Nat := [4, 5, 6, 7, 11, 12, 13, 14, 15]

/-- One pass of the publisher over its buffer of `msgSize + 1` bytes. -/
def encode (buf : List Byte) (sec usec : Word) : Option (List Byte) := do
  let terminated ← storeByte buf msgSize 0
  let half ← memcpy terminated 0 (wordBytes sec)
  let full ← memcpy half 8 (wordBytes usec)
  storeBytes full maskedPositions 1

/-- `UA_STRING`: the length is `strlen`. -/
def uaString (buf : List Byte) : List Byte := cString buf

/-- The subscriber's stores to the received string. -/
def unmask (data : List Byte) : Option (List Byte) :=
  storeBytes data maskedPositions 0

/-- The two `size_t` values that the subscriber reads. -/
def readBack (data : List Byte) : Option (Word × Word) := do
  let buf ← unmask data
  decode buf

/-! ## The encoded buffer -/

/-- The bytes that are sent as they are: four of the seconds and three of the
microseconds. -/
def dataBytes (sec usec : Word) : List Byte :=
  (wordBytes sec).take 4 ++ (wordBytes usec).take 3

/-- The 16 bytes in front of the terminator. -/
def masked (sec usec : Word) : List Byte :=
  ((wordBytes sec).take 4 ++ List.replicate 4 1) ++
    ((wordBytes usec).take 3 ++ List.replicate 5 1)

@[simp] theorem masked_length (sec usec : Word) :
    (masked sec usec).length = msgSize := by
  simp [masked, msgSize]

theorem masked_ne_zero_iff {sec usec : Word} :
    (∀ b ∈ masked sec usec, b ≠ 0) ↔ ∀ b ∈ dataBytes sec usec, b ≠ 0 := by
  simp only [masked, dataBytes, List.mem_append, List.mem_replicate]
  constructor
  · intro h b hb
    exact h b (by tauto)
  · rintro h b ((hb | ⟨-, rfl⟩) | (hb | ⟨-, rfl⟩))
    · exact h b (Or.inl hb)
    · decide
    · exact h b (Or.inr hb)
    · decide

/-- The nine stores, on any 16 bytes. -/
theorem storeBytes_masked (a b c d e f g h i j k l m n o p z : Byte)
    (rest : List Byte) :
    storeBytes (a :: b :: c :: d :: e :: f :: g :: h ::
        i :: j :: k :: l :: m :: n :: o :: p :: rest) maskedPositions z =
      some (a :: b :: c :: d :: z :: z :: z :: z ::
        i :: j :: k :: z :: z :: z :: z :: z :: rest) := by
  simp [storeBytes, maskedPositions, storeByte]

theorem mask_words (sec usec : Word) :
    storeBytes (wordBytes sec ++ (wordBytes usec ++ [0])) maskedPositions 1 =
      some (masked sec usec ++ [0]) :=
  storeBytes_masked _ _ _ _ _ _ _ _ _ _ _ _ _ _ _ _ 1 [0]

/-- The terminator leaves 16 bytes for the two words. -/
theorem set_terminator (buf : Buffer (msgSize + 1)) :
    ∃ old₁ old₂, buf.bytes.set msgSize 0 = old₁ ++ (old₂ ++ [0]) ∧
      old₁.length = 8 ∧ old₂.length = 8 := by
  have hsize : (buf.bytes.set msgSize 0).length = 17 := by
    rw [List.length_set]
    exact buf.size
  have hlast : (buf.bytes.set msgSize 0).drop 16 = [0] := by
    rw [List.drop_eq_getElem_cons (by omega),
      List.drop_of_length_le (by omega)]
    simp [msgSize]
  refine ⟨(buf.bytes.set msgSize 0).take 8,
    ((buf.bytes.set msgSize 0).drop 8).take 8, ?_, ?_, ?_⟩
  · rw [← hlast, ← List.drop_drop (i := 8) (j := 8), List.take_append_drop,
      List.take_append_drop]
  · rw [List.length_take]
    omega
  · rw [List.length_take, List.length_drop]
    omega

/-- What the publisher's statements leave, whatever was in the buffer. -/
theorem encode_eq (buf : Buffer (msgSize + 1)) (sec usec : Word) :
    encode buf.bytes sec usec = some (masked sec usec ++ [0]) := by
  obtain ⟨old₁, old₂, hset, hold₁, hold₂⟩ := set_terminator buf
  have hterminated : storeByte buf.bytes msgSize 0 =
      some (old₁ ++ (old₂ ++ [0])) := by
    rw [storeByte, if_pos (by rw [buf.size]; exact Nat.lt_succ_self _), hset]
  have hhalf := memcpy_append [] (old₂ ++ [0])
    ((wordBytes_length sec).trans hold₁.symm)
  have hfull := memcpy_append (wordBytes sec) [0]
    ((wordBytes_length usec).trans hold₂.symm)
  rw [wordBytes_length] at hfull
  simp only [List.nil_append, List.length_nil, List.append_assoc]
    at hhalf hfull
  rw [encode, hterminated]
  simp only [Option.bind_eq_bind, Option.bind_some, hhalf, hfull]
  exact mask_words sec usec

/-- The subscriber restores the zeros of both words. -/
theorem unmask_masked {sec usec : Word} (hsec : sec.toNat < 2 ^ 32)
    (husec : usec.toNat < 10 ^ 6) :
    unmask (masked sec usec) = some (stampBytes sec usec) := by
  have hsplit : unmask (masked sec usec) =
      some (((wordBytes sec).take 4 ++ List.replicate 4 0) ++
        ((wordBytes usec).take 3 ++ List.replicate 5 0)) :=
    storeBytes_masked _ _ _ _ _ _ _ _ _ _ _ _ _ _ _ _ 0 []
  rw [hsplit, stampBytes, ← wordBytes_split (show sec.toNat < 256 ^ 4 by omega),
    ← wordBytes_split (show usec.toNat < 256 ^ 3 by omega)]

/-! ## Which readings survive -/

/-- The subscriber touches only bytes of the string and reads the clock
reading back. -/
def Survives (data : List Byte) (sec usec : Word) : Prop :=
  (∀ i < msgSize, i < data.length) ∧ readBack data = some (sec, usec)

/-- **The stamp in the string.**  The string that the publisher makes of a
clock reading is read back by the subscriber, without touching a byte outside
it, if and only if none of the seven data bytes is zero. -/
theorem opcua_stamp_survives_iff (buf : Buffer (msgSize + 1))
    (sec usec : Word) (hsec : sec.toNat < 2 ^ 32)
    (husec : usec.toNat < 10 ^ 6) :
    ∃ enc, encode buf.bytes sec usec = some enc ∧
      (Survives (uaString enc) sec usec ↔
        ∀ b ∈ dataBytes sec usec, b ≠ 0) := by
  refine ⟨masked sec usec ++ [0], encode_eq buf sec usec, ?_⟩
  rw [← masked_ne_zero_iff]
  constructor
  · rintro ⟨hinside, -⟩
    apply ne_zero_of_length_le
    rw [masked_length]
    exact hinside 15 (by decide)
  · intro hdata
    have hstring : uaString (masked sec usec ++ [0]) = masked sec usec :=
      cString_terminated [] hdata
    have hdecode := decode_words sec usec []
    rw [List.append_nil] at hdecode
    rw [hstring]
    constructor
    · intro i hi
      rw [masked_length]
      exact hi
    · simp only [readBack, unmask_masked hsec husec, Option.bind_eq_bind,
        Option.bind_some]
      exact hdecode

/-- On a string that is too short, the subscriber writes past its end. -/
theorem readBack_of_short {data : List Byte} (h : data.length < msgSize) :
    readBack data = none := by
  have hunmask : unmask data = none :=
    storeBytes_eq_none maskedPositions data
      (show 15 ∈ maskedPositions by decide) (Nat.le_of_lt_succ h)
  rw [readBack, hunmask]
  rfl

/-- A buffer of zeros. -/
def zeros : Buffer (msgSize + 1) := ⟨List.replicate (msgSize + 1) 0, rfl⟩

theorem opcua_stamp_survives_nonzero :
    ∃ enc, encode zeros.bytes 0x65432101 0x0e4321 = some enc ∧
      (Survives (uaString enc) 0x65432101 0x0e4321 ↔
        ∀ b ∈ dataBytes 0x65432101 0x0e4321, b ≠ 0) :=
  opcua_stamp_survives_iff zeros 0x65432101 0x0e4321 (by decide)
    (by decide)

/-- Early in every second the highest data byte of the microseconds is zero:
the string ends after ten bytes and the subscriber writes past its end. -/
theorem opcua_stamp_survives_early :
    ∃ enc, encode zeros.bytes 0x65432101 0x1234 = some enc ∧
      (uaString enc).length = 10 ∧ readBack (uaString enc) = none ∧
      ¬Survives (uaString enc) 0x65432101 0x1234 := by
  have hlen : (uaString (masked 0x65432101 0x1234 ++ [0])).length = 10 := rfl
  have hnone : readBack (uaString (masked 0x65432101 0x1234 ++ [0])) = none :=
    readBack_of_short (by rw [hlen]; decide)
  refine ⟨masked 0x65432101 0x1234 ++ [0], encode_eq zeros _ _, hlen, hnone,
    ?_⟩
  rintro ⟨-, hread⟩
  rw [hnone] at hread
  cases hread

end ZenohPicoPerf.Latency.OpcUa

import ZenohPicoPerf.Common.Clock

/-!
# Time stamps in a payload

The latency senders put the two words of a clock reading into the first 16
bytes of a zeroed buffer: the same three statements stand in tcp_pub_lat,
mqtt_pub_lat and z_ping_lat, which differ in the number of bytes that they
zero.  The receivers read the two words back from offsets 0 and 8.

## Main results

* `stamp_eq` — the buffer after the three statements.
* `decode_words` — decoding undoes stamping, for all words and all lengths.
* `stamp_defined_iff`, `decode_defined_iff` — what is touched is there.
-/

namespace ZenohPicoPerf.Latency

open ZenohPicoPerf.Foundation.Memory
open ZenohPicoPerf.Common.Clock

/-- `memset(buf, 0, n)` and the two copies of a `size_t`. -/
def stamp (buf : List Byte) (n : Nat) (first second : Word) :
    Option (List Byte) := do
  let zeroed ← memset buf 0 n
  let half ← memcpy zeroed 0 (wordBytes first)
  memcpy half 8 (wordBytes second)

/-- `*(size_t *) &buf[0]` and `*(size_t *) &buf[sizeof(size_t)]`. -/
def decode (buf : List Byte) : Option (Word × Word) := do
  let first ← loadWord buf 0
  let second ← loadWord buf 8
  some (first, second)

/-- The 16 bytes of a stamp. -/
def stampBytes (first second : Word) : List Byte :=
  wordBytes first ++ wordBytes second

@[simp] theorem stampBytes_length (first second : Word) :
    (stampBytes first second).length = 16 := by
  simp [stampBytes]

theorem decode_words (first second : Word) (rest : List Byte) :
    decode (stampBytes first second ++ rest) = some (first, second) := by
  have hfirst := loadWord_append [] (wordBytes second ++ rest) first
  have hsecond := loadWord_append (wordBytes first) rest second
  rw [wordBytes_length] at hsecond
  simp only [List.nil_append, List.length_nil, List.append_assoc]
    at hfirst hsecond
  simp only [decode, stampBytes, List.append_assoc, hfirst, hsecond,
    Option.bind_eq_bind, Option.bind_some]

/-- Decoding is defined on every buffer of 16 bytes or more. -/
theorem decode_of_length {buf : List Byte} (h : 16 ≤ buf.length) :
    decode buf = some (wordOfBytes (buf.take 8),
      wordOfBytes ((buf.drop 8).take 8)) := by
  have hfirst : loadWord buf 0 = some (wordOfBytes (buf.take 8)) :=
    loadWord_eq_some.mpr ⟨by omega, rfl⟩
  have hsecond : loadWord buf 8 = some (wordOfBytes ((buf.drop 8).take 8)) :=
    loadWord_eq_some.mpr ⟨by omega, rfl⟩
  rw [decode, hfirst, hsecond]
  rfl

/-- Whatever stands in the first 16 bytes, it is the stamp of the decoded
words. -/
theorem stampBytes_of_take {buf : List Byte} (h : 16 ≤ buf.length) :
    stampBytes (wordOfBytes (buf.take 8))
      (wordOfBytes ((buf.drop 8).take 8)) = buf.take 16 := by
  have hfirst : (buf.take 8).length = 8 := by
    rw [List.length_take]
    omega
  have hsecond : ((buf.drop 8).take 8).length = 8 := by
    rw [List.length_take, List.length_drop]
    omega
  rw [stampBytes, wordBytes_wordOfBytes hfirst, wordBytes_wordOfBytes hsecond,
    show 16 = 8 + 8 from rfl, List.take_add]

/-- Stamping a buffer that is long enough is defined: it leaves the two words,
zeros up to `n` and the rest of the buffer. -/
theorem stamp_eq {buf : List Byte} {n : Nat} (hn : 16 ≤ n)
    (hbuf : n ≤ buf.length) (first second : Word) :
    stamp buf n first second =
      some (stampBytes first second ++
        (List.replicate (n - 16) 0 ++ buf.drop n)) := by
  have hzeroed : memset buf 0 n =
      some (List.replicate n 0 ++ buf.drop n) :=
    memset_eq_some.mpr ⟨hbuf, rfl⟩
  have hsplit : List.replicate n (0 : Byte) = List.replicate 8 0 ++
      (List.replicate 8 0 ++ List.replicate (n - 16) 0) := by
    rw [List.replicate_append_replicate, List.replicate_append_replicate]
    congr 1
    omega
  have hhalf := memcpy_append []
    (List.replicate 8 0 ++ (List.replicate (n - 16) 0 ++ buf.drop n))
    (show (wordBytes first).length = (List.replicate 8 (0 : Byte)).length by
      simp)
  have hfull := memcpy_append (wordBytes first)
    (List.replicate (n - 16) 0 ++ buf.drop n)
    (show (wordBytes second).length = (List.replicate 8 (0 : Byte)).length by
      simp)
  rw [wordBytes_length] at hfull
  simp only [List.nil_append, List.length_nil, List.append_assoc]
    at hhalf hfull
  rw [stamp, hzeroed, hsplit]
  simp only [List.append_assoc, Option.bind_eq_bind, Option.bind_some, hhalf,
    hfull, stampBytes]

/-- The two words at the start of a payload. -/
def leadingWords (buf : List Byte) : Word × Word :=
  (wordOfBytes (buf.take 8), wordOfBytes ((buf.drop 8).take 8))

theorem leadingWords_stampBytes (first second : Word) (rest : List Byte) :
    leadingWords (stampBytes first second ++ rest) = (first, second) := by
  have hdecode := decode_words first second rest
  rw [decode_of_length (by simp)] at hdecode
  exact Option.some.inj hdecode

/-- A buffer that holds a stamp and nothing else. -/
theorem leadingWords_stamp (first second : Word) :
    leadingWords (stampBytes first second) = (first, second) := by
  have hwords := leadingWords_stampBytes first second []
  rwa [List.append_nil] at hwords

/-! ## The bytes that are touched -/

/-- What the three statements write. -/
def stampAccesses (n : Nat) : List Access :=
  [{ off := 0, len := n }, { off := 0, len := 8 }, { off := 8, len := 8 }]

/-- What the two loads read. -/
def decodeAccesses : List Access :=
  [{ off := 0, len := 8 }, { off := 8, len := 8 }]

theorem inBounds_stamp_iff {size n : Nat} :
    InBounds size (stampAccesses n) ↔ n ≤ size ∧ 16 ≤ size := by
  simp only [stampAccesses, inBounds_cons, inBounds_nil, and_true]
  omega

theorem inBounds_decode_iff {size : Nat} :
    InBounds size decodeAccesses ↔ 16 ≤ size := by
  simp only [decodeAccesses, inBounds_cons, inBounds_nil, and_true]
  omega

/-- The statements are defined exactly when they touch bytes of the buffer
only. -/
theorem stamp_defined_iff {buf : List Byte} {n : Nat} {first second : Word} :
    (∃ r, stamp buf n first second = some r) ↔
      InBounds buf.length (stampAccesses n) := by
  rw [inBounds_stamp_iff]
  constructor
  · rintro ⟨r, hr⟩
    obtain ⟨zeroed, hzeroed, hcopies⟩ := Option.bind_eq_some_iff.mp hr
    obtain ⟨half, hhalf, hfull⟩ := Option.bind_eq_some_iff.mp hcopies
    have hn := (memset_eq_some.mp hzeroed).1
    have hfits := (memcpy_eq_some.mp hfull).1
    rw [memcpy_length hhalf, memcpy_length hzeroed, wordBytes_length] at hfits
    exact ⟨hn, hfits⟩
  · rintro ⟨hn, hfits⟩
    have hzeroed : memset buf 0 n = some _ := memset_eq_some.mpr ⟨hn, rfl⟩
    have hlength := memcpy_length hzeroed
    have hhalf : memcpy _ 0 (wordBytes first) = some _ :=
      memcpy_eq_some.mpr ⟨by rw [hlength, wordBytes_length]; omega, rfl⟩
    have hlength' := (memcpy_length hhalf).trans hlength
    have hfull : memcpy _ 8 (wordBytes second) = some _ :=
      memcpy_eq_some.mpr ⟨by rw [hlength', wordBytes_length]; omega, rfl⟩
    exact ⟨_, Option.bind_eq_some_iff.mpr ⟨_, hzeroed,
      Option.bind_eq_some_iff.mpr ⟨_, hhalf, hfull⟩⟩⟩

theorem stamp_length {buf r : List Byte} {n : Nat} {first second : Word}
    (h : stamp buf n first second = some r) : r.length = buf.length := by
  obtain ⟨zeroed, hzeroed, hcopies⟩ := Option.bind_eq_some_iff.mp h
  obtain ⟨half, hhalf, hfull⟩ := Option.bind_eq_some_iff.mp hcopies
  rw [memcpy_length hfull, memcpy_length hhalf, memcpy_length hzeroed]

theorem decode_defined_iff {buf : List Byte} :
    (∃ words, decode buf = some words) ↔
      InBounds buf.length decodeAccesses := by
  rw [inBounds_decode_iff]
  constructor
  · rintro ⟨words, hwords⟩
    obtain ⟨first, -, hrest⟩ := Option.bind_eq_some_iff.mp hwords
    obtain ⟨second, hsecond, -⟩ := Option.bind_eq_some_iff.mp hrest
    exact (loadWord_eq_some.mp hsecond).1
  · intro hlong
    exact ⟨_, decode_of_length hlong⟩

/-! ## One-way latency -/

/-- What a receiver prints in front of the latency. -/
structure Labels where
  layer : String
  name : String
  test : String
  scenario : String
  msgsPerSecond : Word
deriving DecidableEq, Repr

/-- The latency in microseconds as an exact integer.  The stamps are
`size_t`, so both differences wrap as unsigned words; the sum is taken in
`double`. -/
def oneWayLat (stop : Timeval) (sec usec : Word) : Nat :=
  let lat := (stop.tvUsec - usec).toNat
  if lat ≤ 0 then lat + ((stop.tvSec - sec) * 1000000).toNat else lat

/-- One printed line. -/
structure Line where
  labels : Labels
  sec : Word
  usec : Word
  stop : Timeval
deriving DecidableEq, Repr

/-- The stamp of a line. -/
def Line.words (l : Line) : Word × Word := (l.sec, l.usec)

/-- The last column. -/
def Line.lat (l : Line) : Nat := oneWayLat l.stop l.sec l.usec

end ZenohPicoPerf.Latency

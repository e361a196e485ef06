import Mathlib.Data.List.Basic
import Mathlib.Data.BitVec
import Mathlib.Data.Nat.ModEq

/-!
# Bytes, machine words and byte buffers

A buffer is the list of its bytes.  Every access is bounds checked: a load or
a store outside the buffer is undefined (`none`), so a program whose accesses
all succeed has touched only bytes that exist.  Words are stored little
endian.

## Main results

* `wordOfBytes_wordBytes` — a stored 64-bit word is read back.
* `memcpy_eq_some`, `loadWord_append` — what a store leaves and a load sees.
* `storeBytes_spec` — single-byte stores at a list of positions.
* `IsPadding.unique` — an offset has one padding.
* `inBounds_cons`, `inBounds_append` — the accesses of a program, one by one
  and part by part.
-/

namespace ZenohPicoPerf.Foundation.Memory

abbrev Byte := BitVec 8

/-- A 64-bit machine word. -/
abbrev Word := BitVec 64

/-! ## Little-endian words -/

/-- The `k` low-order bytes of `n`, least significant first. -/
def leBytes : Nat → Nat → List Byte
  | 0, _ => []
  | k + 1, n => BitVec.ofNat 8 n :: leBytes k (n / 256)

/-- The number denoted by a little-endian byte list. -/
def leNat : List Byte → Nat
  | [] => 0
  | b :: bs => b.toNat + 256 * leNat bs

@[simp] theorem leBytes_length (k n : Nat) : (leBytes k n).length = k := by
  induction k generalizing n with
  | zero => rfl
  | succ k ih => simp [leBytes, ih]

theorem leNat_leBytes (k n : Nat) : leNat (leBytes k n) = n % 256 ^ k := by
  induction k generalizing n with
  | zero => simp [leBytes, leNat, Nat.mod_one]
  | succ k ih =>
      have hlow : (BitVec.ofNat 8 n).toNat = n % 256 := BitVec.toNat_ofNat n 8
      calc leNat (leBytes (k + 1) n)
          = n % 256 + 256 * (n / 256 % 256 ^ k) := by
            rw [leBytes, leNat, ih, hlow]
        _ = n % (256 * 256 ^ k) := Nat.mod_mul.symm
        _ = n % 256 ^ (k + 1) := by rw [Nat.pow_succ']

theorem leNat_lt (bs : List Byte) : leNat bs < 256 ^ bs.length := by
  induction bs with
  | nil => simp [leNat]
  | cons b bs ih =>
      have hb := b.isLt
      rw [leNat, List.length_cons, Nat.pow_succ']
      omega

/-- The bytes of the number that a list of bytes denotes. -/
theorem leBytes_leNat (bs : List Byte) : leBytes bs.length (leNat bs) = bs := by
  induction bs with
  | nil => rfl
  | cons b bs ih =>
      have hb : b.toNat < 256 := b.isLt
      have hlow : BitVec.ofNat 8 (leNat (b :: bs)) = b := by
        apply BitVec.eq_of_toNat_eq
        rw [BitVec.toNat_ofNat, leNat]
        omega
      have hhigh : leNat (b :: bs) / 256 = leNat bs := by
        rw [leNat]
        omega
      rw [List.length_cons, leBytes, hlow, hhigh, ih]

/-- Beyond `j` bytes stands what is left of the number after `j` divisions. -/
theorem leBytes_drop (k j n : Nat) :
    (leBytes k n).drop j = leBytes (k - j) (n / 256 ^ j) := by
  induction j generalizing k n with
  | zero => simp
  | succ j ih =>
      cases k with
      | zero => simp [leBytes]
      | succ k =>
          rw [leBytes, List.drop_succ_cons, ih, Nat.div_div_eq_div_mul,
            Nat.pow_succ', Nat.add_sub_add_right]

theorem leBytes_zero (k : Nat) : leBytes k 0 = List.replicate k 0 := by
  induction k with
  | zero => rfl
  | succ k ih => simp [leBytes, ih, List.replicate_succ]

/-- The eight bytes of a word in memory. -/
def wordBytes (w : Word) : List Byte := leBytes 8 w.toNat

/-- The word held by a byte list. -/
def wordOfBytes (bs : List Byte) : Word := BitVec.ofNat 64 (leNat bs)

@[simp] theorem wordBytes_length (w : Word) : (wordBytes w).length = 8 :=
  leBytes_length 8 _

@[simp] theorem wordOfBytes_wordBytes (w : Word) :
    wordOfBytes (wordBytes w) = w := by
  apply BitVec.eq_of_toNat_eq
  have hlt : w.toNat < 2 ^ 64 := w.isLt
  rw [wordOfBytes, wordBytes, leNat_leBytes, BitVec.toNat_ofNat,
    Nat.mod_eq_of_lt (show w.toNat < 256 ^ 8 by omega), Nat.mod_eq_of_lt hlt]

theorem wordBytes_wordOfBytes {bs : List Byte} (h : bs.length = 8) :
    wordBytes (wordOfBytes bs) = bs := by
  have hlt := leNat_lt bs
  rw [h] at hlt
  rw [wordBytes, wordOfBytes, BitVec.toNat_ofNat,
    Nat.mod_eq_of_lt (by omega), ← h, leBytes_leNat]

/-- The high-order bytes of a small word are zero. -/
theorem wordBytes_split {w : Word} {j : Nat} (h : w.toNat < 256 ^ j) :
    wordBytes w = (wordBytes w).take j ++ List.replicate (8 - j) 0 := by
  have hhigh : (wordBytes w).drop j = List.replicate (8 - j) 0 := by
    rw [wordBytes, leBytes_drop, Nat.div_eq_of_lt h, leBytes_zero]
  rw [← hhigh, List.take_append_drop]

/-! ## Alignment -/

/-- `p` bytes after offset `o` lead to the next multiple of `k`. -/
structure IsPadding (k o p : Nat) : Prop where
  lt : p < k
  dvd : k ∣ o + p

/-- Two descriptions of the padding at one offset agree. -/
theorem IsPadding.unique {k o p q : Nat} (hp : IsPadding k o p)
    (hq : IsPadding k o q) : p = q := by
  have hmod : o + p ≡ o + q [MOD k] :=
    (Nat.modEq_zero_iff_dvd.mpr hp.dvd).trans
      (Nat.modEq_zero_iff_dvd.mpr hq.dvd).symm
  exact (Nat.ModEq.add_left_cancel' o hmod).eq_of_lt_of_lt hp.lt hq.lt

/-! ## Buffer accesses -/

/-- Copy `src` into `dst` from offset `off` on. -/
def memcpy (dst : List Byte) (off : Nat) (src : List Byte) :
    Option (List Byte) :=
  if off + src.length ≤ dst.length then
    some (dst.take off ++ src ++ dst.drop (off + src.length))
  else none

/-- Fill the first `n` bytes of `dst` with `c`. -/
def memset (dst : List Byte) (c : Byte) (n : Nat) : Option (List Byte) :=
  memcpy dst 0 (List.replicate n c)

/-- `memcmp(a, b, n) == 0` -/
def memeq (a b : List Byte) (n : Nat) : Option Bool :=
  if n ≤ a.length ∧ n ≤ b.length then some (a.take n = b.take n) else none

/-- Store one byte. -/
def storeByte (dst : List Byte) (i : Nat) (c : Byte) : Option (List Byte) :=
  if i < dst.length then some (dst.set i c) else none

/-- Store the byte `c` at each of the positions `is`, in order. -/
def storeBytes (dst : List Byte) (is : List Nat) (c : Byte) :
    Option (List Byte) :=
  is.foldlM (fun b i => storeByte b i c) dst

/-- Load the 64-bit word at offset `off`. -/
def loadWord (src : List Byte) (off : Nat) : Option Word :=
  if off + 8 ≤ src.length then
    some (wordOfBytes ((src.drop off).take 8))
  else none

/-- The bytes of a NUL-terminated string, terminator excluded; `strlen` is
its length. -/
def cString (buf : List Byte) : List Byte := buf.takeWhile (· ≠ 0)

theorem memcpy_eq_some {dst src r : List Byte} {off : Nat} :
    memcpy dst off src = some r ↔
      off + src.length ≤ dst.length ∧
        r = dst.take off ++ src ++ dst.drop (off + src.length) := by
  unfold memcpy
  split
  · rename_i h
    simp only [Option.some.injEq, h, true_and]
    exact eq_comm
  · rename_i h
    simp [h]

theorem memcpy_length {dst src r : List Byte} {off : Nat}
    (h : memcpy dst off src = some r) : r.length = dst.length := by
  obtain ⟨hfits, rfl⟩ := memcpy_eq_some.mp h
  simp only [List.length_append, List.length_take, List.length_drop]
  omega

/-- A copy replaces the bytes at its offset. -/
theorem memcpy_append (pre post : List Byte) {old src : List Byte}
    (h : src.length = old.length) :
    memcpy (pre ++ old ++ post) pre.length src =
      some (pre ++ src ++ post) := by
  rw [memcpy_eq_some]
  constructor
  · simp only [List.length_append]
    omega
  · rw [List.append_assoc pre old post, List.take_left,
      ← List.append_assoc pre old post, h, ← List.length_append,
      List.drop_left]

theorem memset_eq_some {dst r : List Byte} {c : Byte} {n : Nat} :
    memset dst c n = some r ↔
      n ≤ dst.length ∧ r = List.replicate n c ++ dst.drop n := by
  rw [memset, memcpy_eq_some]
  simp

theorem loadWord_eq_some {src : List Byte} {off : Nat} {w : Word} :
    loadWord src off = some w ↔
      off + 8 ≤ src.length ∧ w = wordOfBytes ((src.drop off).take 8) := by
  unfold loadWord
  split
  · rename_i h
    simp only [Option.some.injEq, h, true_and]
    exact eq_comm
  · rename_i h
    simp [h]

/-- A load sees the word stored at its offset. -/
theorem loadWord_append (pre post : List Byte) (w : Word) :
    loadWord (pre ++ wordBytes w ++ post) pre.length = some w := by
  rw [loadWord_eq_some]
  constructor
  · simp only [List.length_append, wordBytes_length]
    omega
  · rw [List.append_assoc, List.drop_left, List.take_left' (wordBytes_length w),
      wordOfBytes_wordBytes]

/-! ### Footprints -/

/-- An access to `len` bytes from offset `off` on. -/
structure Access where
  off : Nat
  len : Nat
deriving DecidableEq, Repr

/-- The byte indices that it touches. -/
def Access.indices (a : Access) : List Nat := List.range' a.off a.len

/-- Every byte index that the accesses touch is below `size`. -/
def InBounds (size : Nat) (accesses : List Access) : Prop :=
  ∀ a ∈ accesses, ∀ i ∈ a.indices, i < size

instance (size : Nat) (accesses : List Access) :
    Decidable (InBounds size accesses) :=
  inferInstanceAs (Decidable (∀ a ∈ accesses, ∀ i ∈ a.indices, i < size))

@[simp] theorem inBounds_nil (size : Nat) : InBounds size [] := by
  intro a ha
  cases ha

/-- An access that is not empty ends inside the memory. -/
theorem Access.forall_indices_iff {a : Access} {size : Nat} :
    (∀ i ∈ a.indices, i < size) ↔ a.len = 0 ∨ a.off + a.len ≤ size := by
  simp only [Access.indices, List.mem_range'_1]
  constructor
  · intro h
    by_cases hempty : a.len = 0
    · exact Or.inl hempty
    · have hlast := h (a.off + a.len - 1) (by omega)
      omega
  · intro h i hi
    omega

theorem inBounds_cons {size : Nat} {a : Access} {accesses : List Access} :
    InBounds size (a :: accesses) ↔
      (a.len = 0 ∨ a.off + a.len ≤ size) ∧ InBounds size accesses := by
  rw [← Access.forall_indices_iff]
  exact List.forall_mem_cons

theorem inBounds_append {size : Nat} {accesses more : List Access} :
    InBounds size (accesses ++ more) ↔
      InBounds size accesses ∧ InBounds size more :=
  List.forall_mem_append

/-! ### Buffers of fixed size -/

/-- A buffer of exactly `n` bytes. -/
structure Buffer (n : Nat) where
  bytes : List Byte
  size : bytes.length = n
deriving DecidableEq, Repr

/-- What a read of the bytes `src` leaves in the buffer. -/
def Buffer.fill {n : Nat} (b : Buffer n) (src : List Byte)
    (h : src.length ≤ n) : Buffer n where
  bytes := src ++ b.bytes.drop src.length
  size := by
    rw [List.length_append, List.length_drop, b.size]
    omega

/-- A read that returns as many bytes as the buffer holds replaces it. -/
theorem Buffer.fill_full {n : Nat} (b : Buffer n) {src : List Byte}
    (h : src.length = n) : (b.fill src h.le).bytes = src := by
  show src ++ b.bytes.drop src.length = src
  rw [List.drop_of_length_le (by rw [b.size, h]), List.append_nil]

/-! ### Single-byte stores -/

/-- Stores inside the buffer succeed, keep its length, write `c` at every
listed position and leave the others alone. -/
theorem storeBytes_spec (c : Byte) (is : List Nat) (dst : List Byte)
    (hbound : ∀ i ∈ is, i < dst.length) :
    ∃ r, storeBytes dst is c = some r ∧ r.length = dst.length ∧
      ∀ j, r[j]? = if j ∈ is then (dst[j]?).map fun _ => c else dst[j]? := by
  induction is generalizing dst with
  | nil => exact ⟨dst, rfl, rfl, by simp⟩
  | cons i is ih =>
      have hi : i < dst.length := hbound i (by simp)
      have hset : (dst.set i c).length = dst.length := List.length_set
      obtain ⟨r, hr, hlen, hget⟩ := ih (dst.set i c) (by
        intro j hj
        rw [hset]
        exact hbound j (by simp [hj]))
      refine ⟨r, ?_, hlen.trans hset, ?_⟩
      · simpa [storeBytes, storeByte, hi] using hr
      · intro j
        rw [hget j, List.getElem?_set]
        by_cases hij : i = j
        · subst hij
          simp [hi]
        · have hji : j ≠ i := fun h => hij h.symm
          simp [hij, hji]

/-- A store outside the buffer makes the whole sequence undefined. -/
theorem storeBytes_eq_none {c : Byte} {i : Nat} (is : List Nat) :
    ∀ (dst : List Byte), i ∈ is → dst.length ≤ i →
      storeBytes dst is c = none := by
  induction is with
  | nil => intro dst hi _; simp at hi
  | cons j is ih =>
      intro dst hi hle
      by_cases hj : j < dst.length
      · have hmem : i ∈ is := by
          rcases List.mem_cons.mp hi with rfl | hmem
          · omega
          · exact hmem
        have hnone := ih (dst.set j c) hmem (by simpa using hle)
        simpa [storeBytes, storeByte, hj] using hnone
      · simp [storeBytes, storeByte, hj]

/-! ### C strings -/

/-- The bytes of a string literal, terminator excluded. -/
def literal (s : String) : List Byte :=
  s.toList.map fun c => BitVec.ofNat 8 c.toNat

/-- A string without NUL bytes is recovered from its terminated buffer. -/
theorem cString_terminated {xs : List Byte} (rest : List Byte)
    (h : ∀ x ∈ xs, x ≠ 0) : cString (xs ++ 0 :: rest) = xs := by
  unfold cString
  rw [List.takeWhile_append_of_pos (by simpa using h),
    List.takeWhile_cons_of_neg (by simp), List.append_nil]

/-- A buffer that is filled and then terminated holds a string of `n` equal
characters. -/
theorem cString_filled {buf filled string : List Byte} {c : Byte} {n : Nat}
    (hc : c ≠ 0) (hfill : memset buf c n = some filled)
    (hstore : storeByte filled n 0 = some string) :
    cString string = List.replicate n c := by
  obtain ⟨-, rfl⟩ := memset_eq_some.mp hfill
  unfold storeByte at hstore
  split at hstore
  · rename_i hlt
    obtain rfl := Option.some.inj hstore
    rw [List.length_append, List.length_replicate, List.length_drop] at hlt
    obtain ⟨b, rest, hrest⟩ : ∃ b rest, buf.drop n = b :: rest :=
      List.exists_cons_of_length_pos (by rw [List.length_drop]; omega)
    have hset : (List.replicate n c ++ b :: rest).set n 0 =
        List.replicate n c ++ 0 :: rest := by
      simp
    rw [hrest, hset]
    exact cString_terminated rest fun x hx => List.eq_of_mem_replicate hx ▸ hc
  · cases hstore

/-- `strlen` does not reach beyond the first NUL byte. -/
theorem ne_zero_of_length_le {xs : List Byte} {rest : List Byte}
    (h : xs.length ≤ (cString (xs ++ rest)).length) : ∀ x ∈ xs, x ≠ 0 := by
  unfold cString at h
  induction xs with
  | nil => simp
  | cons x xs ih =>
      by_cases hx : x = 0
      · subst hx
        simp at h
      · rw [List.cons_append, List.takeWhile_cons_of_pos (by simpa using hx)]
          at h
        have htail := ih (by simpa using h)
        intro y hy
        rcases List.mem_cons.mp hy with rfl | hmem
        · exact hx
        · exact htail y hmem

/-- `strncmp`: the difference of the first differing bytes among the first
`n`, or `0`; a string is the list of its bytes before the terminator. -/
def strncmp : List Byte → List Byte → Nat → Int
  | _, _, 0 => 0
  | [], [], _ + 1 => 0
  | [], b :: _, _ + 1 => 0 - (b.toNat : Int)
  | a :: _, [], _ + 1 => (a.toNat : Int)
  | a :: as, b :: bs, n + 1 =>
      if a = b then (if a = 0 then 0 else strncmp as bs n)
      else (a.toNat : Int) - (b.toNat : Int)

theorem ofNat_sub_ne_zero {a b : Byte} (h : a ≠ b) :
    (a.toNat : Int) - (b.toNat : Int) ≠ 0 := by
  have hne : a.toNat ≠ b.toNat := fun heq => h (BitVec.eq_of_toNat_eq heq)
  omega

/-- `strncmp` compares at most `n` bytes, so it finds no difference exactly
when the first `n` bytes agree. -/
theorem strncmp_eq_zero_iff {a b : List Byte} (n : Nat) (ha : ∀ x ∈ a, x ≠ 0)
    (hb : ∀ x ∈ b, x ≠ 0) : strncmp a b n = 0 ↔ a.take n = b.take n := by
  induction n generalizing a b with
  | zero => simp [strncmp]
  | succ n ih =>
      cases a with
      | nil =>
          cases b with
          | nil => simp [strncmp]
          | cons y ys =>
              have hy := ofNat_sub_ne_zero (hb y (by simp)).symm
              simpa [strncmp] using hy
      | cons x xs =>
          have hx : x ≠ 0 := ha x (by simp)
          cases b with
          | nil =>
              have hne := ofNat_sub_ne_zero hx
              simpa [strncmp] using hne
          | cons y ys =>
              rw [List.take_succ_cons, List.take_succ_cons, List.cons.injEq]
              by_cases hxy : x = y
              · have hxs : ∀ z ∈ xs, z ≠ 0 := fun z hz => ha z (by simp [hz])
                have hys : ∀ z ∈ ys, z ≠ 0 := fun z hz => hb z (by simp [hz])
                rw [strncmp, if_pos hxy, if_neg hx, ih hxs hys]
                exact (and_iff_right hxy).symm
              · rw [strncmp, if_neg hxy]
                exact iff_of_false (ofNat_sub_ne_zero hxy) fun h => hxy h.1

/-- A string does not differ from itself, however much of it is compared. -/
theorem strncmp_self {a : List Byte} (h : ∀ x ∈ a, x ≠ 0) (n : Nat) :
    strncmp a a n = 0 :=
  (strncmp_eq_zero_iff n h h).mpr rfl

end ZenohPicoPerf.Foundation.Memory

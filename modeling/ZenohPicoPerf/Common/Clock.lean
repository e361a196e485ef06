import ZenohPicoPerf.Foundation.Memory
import ZenohPicoPerf.Foundation.Signed
import ZenohPicoPerf.Foundation.Atoi

/-!
# Clock readings and C integers

All programs are LP64: `time_t`, `suseconds_t`, `long` and `size_t` are 64-bit
words.  Signed and unsigned readings of a word differ only in the operation
that consumes it, so the fields are plain bit vectors and each use picks
`toNat` or `toInt`.
-/

namespace ZenohPicoPerf.Common.Clock

open ZenohPicoPerf.Foundation.Memory
open ZenohPicoPerf.Foundation.Signed
open ZenohPicoPerf.Foundation.Atoi

/-- A C `int`. -/
abbrev CInt := BitVec 32

/-- The conversion of an `int` to a 64-bit type. -/
def CInt.toWord (i : CInt) : Word := i.signExtend 64

/-- `struct timeval`, filled by `gettimeofday`. -/
structure Timeval where
  tvSec : Word
  tvUsec : Word
deriving DecidableEq, Repr

/-- `struct timespec`, filled by `clock_gettime`. -/
structure Timespec where
  tvSec : Word
  tvNsec : Word
deriving DecidableEq, Repr

/-- The conversion to a wider type keeps the value. -/
theorem CInt.toWord_toInt (i : CInt) : i.toWord.toInt = i.toInt :=
  BitVec.toInt_signExtend_of_le (by decide)

/-- So does the one of a non-negative `int` to an unsigned type. -/
theorem CInt.toWord_toNat {i : CInt} (h : 0 ≤ i.toInt) :
    i.toWord.toNat = i.toNat := by
  have hnonneg : 0 ≤ i.toWord.toInt := by
    rw [i.toWord_toInt]
    exact h
  have hword := toInt_of_nonneg hnonneg
  rw [i.toWord_toInt, toInt_of_nonneg h] at hword
  exact (Int.ofNat_inj.mp hword).symm

theorem CInt.toNat_lt_of_nonneg {i : CInt} (h : 0 ≤ i.toInt) :
    i.toNat < 2 ^ 31 := by
  have htwice := BitVec.toInt_pos_iff.mp h
  omega

/-! ## Sizes from arguments -/

/-- The value of an `int` variable that is assigned `atoi(arg)`, if the number
is an `int`; C leaves open what `atoi` returns for any other. -/
def intArgument (arg : List Byte) : Option CInt :=
  if Fits 32 (atoi arg) then some (BitVec.ofInt 32 (atoi arg)) else none

/-- The value of a `size_t` variable that is assigned `atoi(arg)`: the `int`
is converted to 64 bits. -/
def sizeArgument (arg : List Byte) : Word :=
  CInt.toWord (BitVec.ofInt 32 (atoi arg))

/-- As a signed number it is the argument. -/
theorem sizeArgument_toInt {arg : List Byte} (h : Fits 32 (atoi arg)) :
    (sizeArgument arg).toInt = atoi arg := by
  rw [sizeArgument, CInt.toWord_toInt, toInt_ofInt_of_fits h]

/-- Text without digits is taken for zero. -/
theorem sizeArgument_of_text {arg : List Byte}
    (h : ∀ b ∈ arg, digit b = none) : sizeArgument arg = 0 := by
  rw [sizeArgument, atoi_of_text h]
  rfl

/-- A non-negative argument keeps its value. -/
theorem sizeArgument_toNat {arg : List Byte} (h : Fits 32 (atoi arg))
    (hnonneg : 0 ≤ atoi arg) : ((sizeArgument arg).toNat : Int) = atoi arg := by
  have htoInt := sizeArgument_toInt h
  rw [← htoInt] at hnonneg ⊢
  exact (toInt_of_nonneg hnonneg).symm

end ZenohPicoPerf.Common.Clock

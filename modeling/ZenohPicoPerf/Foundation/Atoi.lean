import ZenohPicoPerf.Foundation.Memory

/-!
# atoi

`atoi` skips white space, takes an optional sign and reads decimal digits up
to the first other character.  It reports no errors: text without digits is
the number zero.  The result is the exact number; the C function is defined
when that fits in an `int`.

## Main result

* `atoi_of_text` — text without digits is zero.
-/

namespace ZenohPicoPerf.Foundation.Atoi

open ZenohPicoPerf.Foundation.Memory

/-- `isspace` -/
def isSpace (b : Byte) : Bool := b = 32 ∨ 9 ≤ b.toNat ∧ b.toNat ≤ 13

def digit (b : Byte) : Option Nat :=
  if 48 ≤ b.toNat ∧ b.toNat ≤ 57 then some (b.toNat - 48) else none

/-- The digits at the start of the string, read behind the number `acc`. -/
def number (acc : Nat) : List Byte → Nat
  | [] => acc
  | b :: bs =>
      match digit b with
      | some d => number (10 * acc + d) bs
      | none => acc

/-- An optional sign and digits: `45` is the minus and `43` the plus. -/
def signed : List Byte → Int
  | [] => 0
  | b :: bs =>
      if b = 45 then -(number 0 bs : Int)
      else if b = 43 then number 0 bs
      else number 0 (b :: bs)

def atoi (s : List Byte) : Int := signed (s.dropWhile isSpace)

theorem number_of_text {s : List Byte} (h : ∀ b ∈ s, digit b = none)
    (acc : Nat) : number acc s = acc := by
  cases s with
  | nil => rfl
  | cons b bs => simp only [number, h b (by simp)]

theorem atoi_of_text {s : List Byte} (h : ∀ b ∈ s, digit b = none) :
    atoi s = 0 := by
  have hrest : ∀ b ∈ s.dropWhile isSpace, digit b = none :=
    fun b hb => h b ((List.dropWhile_sublist isSpace).mem hb)
  unfold atoi
  cases hs : s.dropWhile isSpace with
  | nil => rfl
  | cons b bs =>
      rw [hs] at hrest
      have htail : number 0 bs = 0 :=
        number_of_text (fun b hb => hrest b (by simp [hb])) 0
      have hall : number 0 (b :: bs) = 0 := number_of_text hrest 0
      simp [signed, htail, hall]

example : atoi (literal " -17 msgs") = -17 := by decide

end ZenohPicoPerf.Foundation.Atoi

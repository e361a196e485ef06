import Mathlib.Algebra.BigOperators.Group.List.Basic
import Mathlib.Logic.Relation

/-!
# Accumulate and pay out

An account accumulates deposits in a balance and, from time to time, pays the
whole balance out in one step.  A third step spills: the deposit arrives, but
the balance afterwards is short.  Whatever the order of the steps, what was
paid, what is still held and what was spilt add up to what was deposited.  A
counter that is read and cleared refines this machine, and it is correct
exactly when nothing is spilt.
-/

namespace ZenohPicoPerf.Foundation.Ledger

variable {M : Type*} [AddCommMonoid M]

structure Account (M : Type*) where
  deposited : M
  held : M
  paid : List M
  spilt : M

/-- The empty account. -/
def Account.zero : Account M :=
  { deposited := 0, held := 0, paid := [], spilt := 0 }

def Account.deposit (l : Account M) (x : M) : Account M :=
  { l with deposited := l.deposited + x, held := l.held + x }

/-- Pay out the balance and clear it, as one step. -/
def Account.payOut (l : Account M) : Account M :=
  { l with held := 0, paid := l.paid ++ [l.held] }

/-- Deposit `x`, keep `h` and lose `y`. -/
def Account.spill (l : Account M) (x h y : M) : Account M :=
  { l with deposited := l.deposited + x, held := h, spilt := l.spilt + y }

inductive Step : Account M → Account M → Prop
  | deposit (l : Account M) (x : M) : Step l (l.deposit x)
  | payOut (l : Account M) : Step l l.payOut
  | spill (l : Account M) (x h y : M) (hbalance : l.held + x = h + y) :
      Step l (l.spill x h y)

/-- Every deposit is paid once, still held or spilt. -/
def Conserved (l : Account M) : Prop :=
  l.paid.sum + l.held + l.spilt = l.deposited

theorem conserved_zero : Conserved (Account.zero : Account M) := by
  simp [Conserved, Account.zero]

theorem Step.conserved {l l' : Account M} (h : Step l l')
    (hl : Conserved l) : Conserved l' := by
  unfold Conserved at hl
  cases h with
  | deposit x =>
      show l.paid.sum + (l.held + x) + l.spilt = l.deposited + x
      rw [← hl]
      ac_rfl
  | payOut =>
      show (l.paid ++ [l.held]).sum + 0 + l.spilt = l.deposited
      simpa using hl
  | spill x h y hbalance =>
      show l.paid.sum + h + (l.spilt + y) = l.deposited + x
      calc l.paid.sum + h + (l.spilt + y)
          = l.paid.sum + (h + y) + l.spilt := by ac_rfl
        _ = l.paid.sum + (l.held + x) + l.spilt := by rw [hbalance]
        _ = l.deposited + x := by rw [← hl]; ac_rfl

/-- Every run from the empty account is conserved. -/
theorem conserved_of_run {l : Account M}
    (h : Relation.ReflTransGen Step Account.zero l) : Conserved l := by
  induction h with
  | refl => exact conserved_zero
  | tail _ hstep ih => exact hstep.conserved ih

end ZenohPicoPerf.Foundation.Ledger

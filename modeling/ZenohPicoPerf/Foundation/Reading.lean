/-!
# Clock readings in two fields

A clock reading is a number of seconds and a fraction, counted in units of
which a second has `U`.  Programs subtract readings field by field; the lemmas
say how the time between two readings comes from the two differences, with and
without a borrow from the seconds.

## Main results

* `since_of_le`, `since_of_borrow` — the elapsed time from the differences of
  the fields.
* `sec_le`, `sec_lt_of_borrow` — what the order of readings says about the
  seconds.
-/

namespace ZenohPicoPerf.Foundation

/-- A number of seconds and a fraction of a second in units of `1 / U`. -/
structure Reading (U : Nat) where
  sec : Nat
  frac : Nat
  frac_lt : frac < U
deriving DecidableEq, Repr

namespace Reading

variable {U : Nat}

/-- The time in units. -/
def ticks (r : Reading U) : Nat := r.sec * U + r.frac

/-- The units between two readings. -/
def since (b a : Reading U) : Nat := b.ticks - a.ticks

theorem sec_le {a b : Reading U} (h : a.ticks ≤ b.ticks) : a.sec ≤ b.sec := by
  apply Nat.le_of_not_lt
  intro hlt
  have hsucc : (b.sec + 1) * U ≤ a.sec * U := Nat.mul_le_mul_right U hlt
  have hb := b.frac_lt
  rw [Nat.add_mul, Nat.one_mul] at hsucc
  unfold ticks at h
  omega

theorem ticks_of_sec_le {a b : Reading U} (h : a.sec ≤ b.sec) :
    b.ticks = a.sec * U + (b.sec - a.sec) * U + b.frac := by
  rw [← Nat.add_mul, Nat.add_sub_cancel' h, ticks]

theorem since_of_le {a b : Reading U} (h : a.ticks ≤ b.ticks)
    (hfrac : a.frac ≤ b.frac) :
    b.since a = (b.sec - a.sec) * U + (b.frac - a.frac) := by
  rw [since, ticks_of_sec_le (sec_le h), ticks]
  omega

theorem sec_lt_of_borrow {a b : Reading U} (h : a.ticks ≤ b.ticks)
    (hfrac : b.frac < a.frac) : a.sec < b.sec := by
  apply Nat.lt_of_le_of_ne (sec_le h)
  intro hsame
  unfold ticks at h
  rw [hsame] at h
  omega

theorem since_of_borrow {a b : Reading U} (h : a.ticks ≤ b.ticks)
    (hfrac : b.frac < a.frac) :
    b.since a + (a.frac - b.frac) = (b.sec - a.sec) * U := by
  have hticks := ticks_of_sec_le (sec_le h)
  rw [since]
  rw [hticks] at h ⊢
  unfold ticks at h ⊢
  omega

end Reading

end ZenohPicoPerf.Foundation

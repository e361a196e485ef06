import Mathlib.Data.BitVec

/-!
# Signed machine arithmetic without overflow

Signed operations wrap around the range of `w` bits.  As long as the exact
result lies in the range, the machine result is the exact one.  Division
truncates towards zero, so its error takes the sign of the dividend.

## Main results

* `toInt_of_nonneg` — when the signed reading is the unsigned one.
* `toInt_add_of_fits`, `toInt_sub_of_fits`, `toInt_sub_mul_of_fits`,
  `toInt_sdiv_of_fits` — operations whose result fits are exact.
* `toInt_sub_of_nonneg` — a difference that always fits.
* `tdiv_of_nonneg`, `tdiv_of_nonpos`, `tdiv_error` — the error of a division.
* `tdiv_le_add` — how far apart two quotients can be.
-/

namespace ZenohPicoPerf.Foundation.Signed

/-- The number is in the range of signed words of `w` bits. -/
structure Fits (w : Nat) (x : Int) : Prop where
  lower : -2 ^ w ≤ 2 * x
  upper : 2 * x < 2 ^ w

instance (w : Nat) (x : Int) : Decidable (Fits w x) :=
  decidable_of_iff (-2 ^ w ≤ 2 * x ∧ 2 * x < 2 ^ w)
    ⟨fun h => ⟨h.1, h.2⟩, fun h => ⟨h.lower, h.upper⟩⟩

variable {w : Nat}

/-- The wrap leaves the range alone. -/
theorem Fits.bmod_eq {x : Int} (h : Fits w x) : x.bmod (2 ^ w) = x := by
  have hlower := h.lower
  have hupper := h.upper
  apply Int.bmod_eq_of_le_mul_two <;> push_cast <;> omega

/-- The signed and the unsigned reading of a word agree unless the signed one
is negative. -/
theorem toInt_of_nonneg {x : BitVec w} (h : 0 ≤ x.toInt) :
    x.toInt = (x.toNat : Int) :=
  BitVec.toInt_eq_toNat_of_lt (BitVec.toInt_pos_iff.mp h)

theorem toInt_ofInt_of_fits {x : Int} (h : Fits w x) :
    (BitVec.ofInt w x).toInt = x := by
  rw [BitVec.toInt_ofInt, h.bmod_eq]

theorem toInt_add_of_fits {a b : BitVec w} (h : Fits w (a.toInt + b.toInt)) :
    (a + b).toInt = a.toInt + b.toInt := by
  rw [BitVec.toInt_add, h.bmod_eq]

theorem toInt_sub_of_fits {a b : BitVec w} (h : Fits w (a.toInt - b.toInt)) :
    (a - b).toInt = a.toInt - b.toInt := by
  rw [BitVec.toInt_sub, h.bmod_eq]

/-- Two words that are not negative are never too far apart. -/
theorem toInt_sub_of_nonneg {a b : BitVec w} (ha : 0 ≤ a.toInt)
    (hb : 0 ≤ b.toInt) : (a - b).toInt = a.toInt - b.toInt := by
  have halt : 2 * a.toInt < 2 ^ w := BitVec.two_mul_toInt_lt
  have hblt : 2 * b.toInt < 2 ^ w := BitVec.two_mul_toInt_lt
  apply toInt_sub_of_fits
  constructor <;> omega

/-- The wrap of an inner result is undone when the outer one fits. -/
theorem toInt_sub_mul_of_fits {a b c : BitVec w}
    (h : Fits w ((a.toInt - b.toInt) * c.toInt)) :
    ((a - b) * c).toInt = (a.toInt - b.toInt) * c.toInt := by
  rw [BitVec.toInt_mul, BitVec.toInt_sub, Int.bmod_mul_bmod, h.bmod_eq]

theorem toInt_sdiv_of_fits {a b : BitVec w}
    (h : Fits w (a.toInt.tdiv b.toInt)) :
    (a.sdiv b).toInt = a.toInt.tdiv b.toInt := by
  rw [BitVec.toInt_sdiv, h.bmod_eq]

/-! ## Division truncates towards zero -/

/-- A non-negative dividend is rounded down. -/
theorem tdiv_of_nonneg {a b : Int} (ha : 0 ≤ a) (hb : 0 < b) :
    0 ≤ a.tdiv b ∧ b * a.tdiv b ≤ a ∧ a < b * a.tdiv b + b := by
  have hsplit := Int.mul_tdiv_add_tmod a b
  have hrem := Int.tmod_nonneg b ha
  have hlt := Int.tmod_lt_of_pos a hb
  exact ⟨Int.tdiv_nonneg ha hb.le, by omega, by omega⟩

/-- A non-positive dividend is rounded up. -/
theorem tdiv_of_nonpos {a b : Int} (ha : a ≤ 0) (hb : 0 < b) :
    a.tdiv b ≤ 0 ∧ a ≤ b * a.tdiv b ∧ b * a.tdiv b < a + b := by
  have hopposite := tdiv_of_nonneg (Int.neg_nonneg_of_nonpos ha) hb
  rw [Int.neg_tdiv, Int.mul_neg] at hopposite
  omega

/-- A dividend that is larger by at most `b * k` has a quotient that is larger
by at most `k`, whichever of the two is rounded up. -/
theorem tdiv_le_add {a a' b k : Int} (hb : 0 < b) (hk : 0 ≤ k)
    (h : a ≤ a' + b * k) : a.tdiv b ≤ k + a'.tdiv b := by
  have hexpand : b * (k + a'.tdiv b + 1) = b * k + b * a'.tdiv b + b := by
    rw [Int.mul_add, Int.mul_add, Int.mul_one]
  have hclose : b * a.tdiv b < b * (k + a'.tdiv b + 1) →
      a.tdiv b ≤ k + a'.tdiv b := by
    intro hlt
    exact Int.le_of_lt_add_one (Int.lt_of_mul_lt_mul_left hlt hb.le)
  rcases Int.le_total 0 a with ha | ha
  · have hdown := tdiv_of_nonneg ha hb
    rcases Int.le_total 0 a' with ha' | ha'
    · have hdown' := tdiv_of_nonneg ha' hb
      exact hclose (by omega)
    · have hup' := tdiv_of_nonpos ha' hb
      exact hclose (by omega)
  · have hup := tdiv_of_nonpos ha hb
    rcases Int.le_total 0 a' with ha' | ha'
    · have hdown' := tdiv_of_nonneg ha' hb
      omega
    · have hup' := tdiv_of_nonpos ha' hb
      exact hclose (by omega)

/-- The quotient is off by less than the divisor. -/
theorem tdiv_error {b : Int} (a : Int) (hb : 0 < b) :
    |b * a.tdiv b - a| < b := by
  have hsplit := Int.mul_tdiv_add_tmod a b
  have hlower := Int.lt_tmod_of_pos a hb
  have hupper := Int.tmod_lt_of_pos a hb
  rw [abs_lt]
  omega

end ZenohPicoPerf.Foundation.Signed

import ZenohPicoPerf.Throughput.ZenohSub
import ZenohPicoPerf.Foundation.Signed

/-!
# z_sub_thr: the elapsed time of a report

The reporter subtracts two clock readings field by field and divides the
nanosecond difference by 1000.  The fields are signed, so a borrow makes the
difference negative, and the division rounds it up instead of down.

## Main results

* `elapsed_toInt` — the expression over the integers.
* `exactElapsed_mono` — a later end is not measured as an earlier one.
* `sub_thr_elapsed_accurate` — error, sign and order of the elapsed time.
-/

namespace ZenohPicoPerf.Throughput.ZenohSub

open ZenohPicoPerf.Foundation.Signed
open ZenohPicoPerf.Common.Clock

/-- The nanoseconds of a clock reading are a fraction of a second. -/
structure ValidTime (t : Timespec) : Prop where
  nonneg : 0 ≤ t.tvNsec.toInt
  lt : t.tvNsec.toInt < 1000000000

/-- The time in nanoseconds. -/
def nanos (t : Timespec) : Int := t.tvSec.toInt * 1000000000 + t.tvNsec.toInt

/-- The expression of the reporter on integers, with C's division. -/
def exactElapsed (start stop : Timespec) : Int :=
  (stop.tvSec.toInt - start.tvSec.toInt) * 1000000 +
    (stop.tvNsec.toInt - start.tvNsec.toInt).tdiv 1000

/-- Neither the product nor the sum leaves the range of `long`. -/
structure NoOverflow (start stop : Timespec) : Prop where
  product : Fits 64 ((stop.tvSec.toInt - start.tvSec.toInt) * 1000000)
  sum : Fits 64 (exactElapsed start stop)

/-- The reporter computes the exact expression. -/
theorem elapsed_toInt {start stop : Timespec} (hstart : ValidTime start)
    (hstop : ValidTime stop) (h : NoOverflow start stop) :
    (elapsed start stop).toInt = exactElapsed start stop := by
  have hlower := hstart.nonneg
  have hupper := hstart.lt
  have hlower' := hstop.nonneg
  have hupper' := hstop.lt
  have hthousand : (1000 : BitVec 64).toInt = 1000 := rfl
  have hproduct : ((stop.tvSec - start.tvSec) * 1000000).toInt =
      (stop.tvSec.toInt - start.tvSec.toInt) * 1000000 :=
    toInt_sub_mul_of_fits h.product
  have hnsec : (stop.tvNsec - start.tvNsec).toInt =
      stop.tvNsec.toInt - start.tvNsec.toInt :=
    toInt_sub_of_nonneg hstop.nonneg hstart.nonneg
  have herror := abs_lt.mp
    (tdiv_error (stop.tvNsec.toInt - start.tvNsec.toInt)
      (show (0 : Int) < 1000 by decide))
  have hquotient : ((stop.tvNsec - start.tvNsec).sdiv 1000).toInt =
      (stop.tvNsec.toInt - start.tvNsec.toInt).tdiv 1000 := by
    rw [toInt_sdiv_of_fits] <;> rw [hnsec, hthousand]
    constructor <;> omega
  rw [elapsed, toInt_add_of_fits] <;> rw [hproduct, hquotient]
  · rfl
  · exact h.sum

/-- The error is that of the division. -/
theorem exactElapsed_error (start stop : Timespec) :
    |1000 * exactElapsed start stop - (nanos stop - nanos start)| < 1000 := by
  have herror := tdiv_error (stop.tvNsec.toInt - start.tvNsec.toInt)
    (show (0 : Int) < 1000 by decide)
  rw [abs_lt] at herror ⊢
  unfold exactElapsed nanos
  omega

/-- Between two ends, the seconds make up for what the rounded nanoseconds
lose. -/
theorem exactElapsed_mono (start : Timespec) {stop later : Timespec}
    (hstop : ValidTime stop) (hlater : ValidTime later)
    (hle : nanos stop ≤ nanos later) :
    exactElapsed start stop ≤ exactElapsed start later := by
  have hnonneg := hstop.nonneg
  have hlt := hlater.lt
  unfold nanos at hle
  have hsec : stop.tvSec.toInt ≤ later.tvSec.toInt := by omega
  have hdiv : (stop.tvNsec.toInt - start.tvNsec.toInt).tdiv 1000 ≤
      (later.tvSec.toInt - stop.tvSec.toInt) * 1000000 +
        (later.tvNsec.toInt - start.tvNsec.toInt).tdiv 1000 :=
    tdiv_le_add (by decide) (by omega) (by omega)
  unfold exactElapsed
  omega

/-- **The elapsed time.**  For every start and every end that is not earlier,
the computed microseconds are off by less than one, never negative, positive
from one microsecond on, and not smaller for a later end. -/
theorem sub_thr_elapsed_accurate (start stop : Timespec)
    (hstart : ValidTime start) (hstop : ValidTime stop)
    (hle : nanos start ≤ nanos stop) (hfits : NoOverflow start stop) :
    |1000 * (elapsed start stop).toInt - (nanos stop - nanos start)| < 1000 ∧
      0 ≤ (elapsed start stop).toInt ∧
      (1000 ≤ nanos stop - nanos start → 0 < (elapsed start stop).toInt) ∧
      ∀ later, ValidTime later → nanos stop ≤ nanos later →
        NoOverflow start later →
        (elapsed start stop).toInt ≤ (elapsed start later).toInt := by
  have herror := exactElapsed_error start stop
  have hbounds := abs_lt.mp herror
  rw [elapsed_toInt hstart hstop hfits]
  refine ⟨herror, by omega, by omega, ?_⟩
  intro later hlater hafter hlaterFits
  rw [elapsed_toInt hstart hlater hlaterFits]
  exact exactElapsed_mono start hstop hlater hafter

/-- 999 nanoseconds across a second. -/
theorem sub_thr_elapsed_next_second :
    |1000 * (elapsed ⟨1, 999999500⟩ ⟨2, 499⟩).toInt -
        (nanos ⟨2, 499⟩ - nanos ⟨1, 999999500⟩)| < 1000 ∧
      0 ≤ (elapsed ⟨1, 999999500⟩ ⟨2, 499⟩).toInt ∧
      (1000 ≤ nanos ⟨2, 499⟩ - nanos ⟨1, 999999500⟩ →
        0 < (elapsed ⟨1, 999999500⟩ ⟨2, 499⟩).toInt) ∧
      ∀ later, ValidTime later → nanos ⟨2, 499⟩ ≤ nanos later →
        NoOverflow ⟨1, 999999500⟩ later →
        (elapsed ⟨1, 999999500⟩ ⟨2, 499⟩).toInt ≤
          (elapsed ⟨1, 999999500⟩ later).toInt :=
  sub_thr_elapsed_accurate ⟨1, 999999500⟩ ⟨2, 499⟩ ⟨by decide, by decide⟩
    ⟨by decide, by decide⟩ (by decide) ⟨by decide, by decide⟩

end ZenohPicoPerf.Throughput.ZenohSub

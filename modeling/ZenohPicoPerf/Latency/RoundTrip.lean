import ZenohPicoPerf.Latency.PingPong
import ZenohPicoPerf.Latency.OneWay

/-!
# Round-trip arithmetic of z_ping_lat

The stamp in the payload is a pair of `size_t`, so the nanosecond difference
wraps when the receive time has the smaller nanosecond field.  It is divided
by 1000 before the seconds are added, and the wrap survives the addition.

## Main results

* `elapsed_of_le`, `elapsed_of_borrow` — the two cases of the computation.
* `round_trip_iff` — which pairs of clock readings are measured right.
-/

namespace ZenohPicoPerf.Latency.PingPong

open ZenohPicoPerf.Foundation.Memory
open ZenohPicoPerf.Foundation.Signed
open ZenohPicoPerf.Foundation (Reading)
open ZenohPicoPerf.Foundation.Reading
open ZenohPicoPerf.Common.Clock

/-- The computed number when the seconds and the nanoseconds differ by `secs`
and `nsecs`. -/
theorem elapsed_toNat {stop : Timespec} {tvSec tvNsec : Word} {secs nsecs : Nat}
    (hsec : (stop.tvSec - tvSec).toNat = secs)
    (hnsec : (stop.tvNsec - tvNsec).toNat = nsecs)
    (hfits : secs * 1000000 < 2 ^ 64) :
    (elapsed stop tvSec tvNsec).toNat =
      (secs * 1000000 + nsecs / 1000) % 2 ^ 64 := by
  have hmillion : (1000000 : Word).toNat = 1000000 := rfl
  have hthousand : (1000 : Word).toNat = 1000 := rfl
  rw [elapsed, BitVec.toNat_add, BitVec.toNat_mul, BitVec.toNat_udiv, hsec,
    hnsec, hmillion, hthousand, Nat.mod_eq_of_lt hfits]

theorem elapsed_of_le {stop : Timespec} {tvSec tvNsec : Word}
    (hsec : tvSec.toNat ≤ stop.tvSec.toNat)
    (hnsec : tvNsec.toNat ≤ stop.tvNsec.toNat)
    (hfits : (stop.tvSec.toNat - tvSec.toNat) * 1000000 < 2 ^ 64) :
    (elapsed stop tvSec tvNsec).toNat =
      ((stop.tvSec.toNat - tvSec.toNat) * 1000000 +
        (stop.tvNsec.toNat - tvNsec.toNat) / 1000) % 2 ^ 64 :=
  elapsed_toNat (BitVec.toNat_sub_of_le (BitVec.le_def.mpr hsec))
    (BitVec.toNat_sub_of_le (BitVec.le_def.mpr hnsec)) hfits

/-- The wrapped difference is divided as it is. -/
theorem elapsed_of_borrow {stop : Timespec} {tvSec tvNsec : Word}
    (hsec : tvSec.toNat ≤ stop.tvSec.toNat)
    (hnsec : stop.tvNsec.toNat < tvNsec.toNat)
    (hfits : (stop.tvSec.toNat - tvSec.toNat) * 1000000 < 2 ^ 64) :
    (elapsed stop tvSec tvNsec).toNat =
      ((stop.tvSec.toNat - tvSec.toNat) * 1000000 +
        (2 ^ 64 - (tvNsec.toNat - stop.tvNsec.toNat)) / 1000) % 2 ^ 64 :=
  elapsed_toNat (BitVec.toNat_sub_of_le (BitVec.le_def.mpr hsec))
    (BitVec.toNat_sub_of_lt (BitVec.lt_def.mpr hnsec)) hfits

/-- The same on readings: the computation is exact if and only if there is no
borrow and the microseconds fit in a word. -/
theorem elapsed_eq_since_iff (stop : Timespec) (tvSec tvNsec : Word)
    (sent received : Reading 1000000000)
    (hsec : tvSec.toNat = sent.sec) (hnsec : tvNsec.toNat = sent.frac)
    (hstopSec : stop.tvSec.toNat = received.sec)
    (hstopNsec : stop.tvNsec.toNat = received.frac)
    (hle : sent.ticks ≤ received.ticks)
    (hfits : (received.sec - sent.sec) * 1000000 < 2 ^ 64) :
    (elapsed stop tvSec tvNsec).toNat = received.since sent / 1000 ↔
      sent.frac ≤ received.frac ∧ received.since sent / 1000 < 2 ^ 64 := by
  have hsecs := sec_le hle
  have hfits' : (stop.tvSec.toNat - tvSec.toNat) * 1000000 < 2 ^ 64 := by
    rwa [hstopSec, hsec]
  rcases Nat.lt_or_ge received.frac sent.frac with hlt | hge
  · -- the wrap adds about 2 ^ 64 / 1000, which no whole second makes up for
    have hborrow := since_of_borrow hle hlt
    have hfrac := sent.frac_lt
    rw [elapsed_of_borrow (by omega) (by omega) hfits', hsec, hnsec,
      hstopSec, hstopNsec]
    omega
  · have hsince := since_of_le hle hge
    rw [elapsed_of_le (by omega) (by omega) hfits', hsec, hnsec,
      hstopSec, hstopNsec]
    omega

/-- The nanoseconds between a ping and its receive time. -/
def trueElapsed (stop : Timespec) (tvSec tvNsec : Word) : Int :=
  (stop.tvSec.toInt - tvSec.toNat) * 1000000000 + stop.tvNsec.toInt -
    tvNsec.toNat

/-- **Round trip.**  For every ping stamp that is not later than the receive
time, the handler computes the whole microseconds between the two if and only
if the nanosecond field of the receive time is not the smaller one and the
microseconds fit in 64 bits. -/
theorem round_trip_iff (stop : Timespec) (tvSec tvNsec : Word)
    (hnsec : tvNsec.toNat < 1000000000) (hstopSec : 0 ≤ stop.tvSec.toInt)
    (hstopNsec : 0 ≤ stop.tvNsec.toInt)
    (hstopLt : stop.tvNsec.toInt < 1000000000)
    (hle : (tvSec.toNat : Int) * 1000000000 + tvNsec.toNat ≤
      stop.tvSec.toInt * 1000000000 + stop.tvNsec.toInt)
    (hfits : (stop.tvSec.toInt - tvSec.toNat) * 1000000 < 2 ^ 64) :
    ((elapsed stop tvSec tvNsec).toNat : Int) =
        trueElapsed stop tvSec tvNsec / 1000 ↔
      (tvNsec.toNat : Int) ≤ stop.tvNsec.toInt ∧
        trueElapsed stop tvSec tvNsec / 1000 < 2 ^ 64 := by
  unfold trueElapsed
  rw [toInt_of_nonneg hstopSec, toInt_of_nonneg hstopNsec] at *
  have hexact := elapsed_eq_since_iff stop tvSec tvNsec
    ⟨tvSec.toNat, tvNsec.toNat, hnsec⟩
    ⟨stop.tvSec.toNat, stop.tvNsec.toNat, by omega⟩
    rfl rfl rfl rfl (by simp only [Reading.ticks]; omega) (by simp only; omega)
  simp only [Reading.since, Reading.ticks] at hexact
  omega

theorem round_trip_same_second :
    ((elapsed ⟨5, 3500⟩ 5 1000).toNat : Int) =
        trueElapsed ⟨5, 3500⟩ 5 1000 / 1000 ↔
      ((1000 : Word).toNat : Int) ≤ (3500 : Word).toInt ∧
        trueElapsed ⟨5, 3500⟩ 5 1000 / 1000 < 2 ^ 64 :=
  round_trip_iff ⟨5, 3500⟩ 5 1000 (by decide) (by decide) (by decide)
    (by decide) (by decide) (by decide)

/-- One millisecond across a second is measured as more than 584 years. -/
theorem round_trip_next_second :
    (elapsed ⟨2, 500000⟩ 1 999500000).toNat = 18446744073710551 ∧
      trueElapsed ⟨2, 500000⟩ 1 999500000 / 1000 = 1000 ∧
      ¬((elapsed ⟨2, 500000⟩ 1 999500000).toNat : Int) =
        trueElapsed ⟨2, 500000⟩ 1 999500000 / 1000 := by
  decide

end ZenohPicoPerf.Latency.PingPong

import ZenohPicoPerf.Latency.Stamp
import ZenohPicoPerf.Foundation.Reading

/-!
# One-way latency arithmetic

The four one-way receivers subtract the decoded stamp, a pair of `size_t`,
from the receive time.  Both operands become unsigned, so the microsecond
difference is never negative: it wraps where a borrow is due, and the seconds
are added only when it is zero.

## Main results

* `oneWayLat_of_lt`, `oneWayLat_of_eq`, `oneWayLat_of_borrow` — the three
  cases of the computation.
* `one_way_lat_iff` — which pairs of clock readings are measured right.
-/

namespace ZenohPicoPerf.Latency

open ZenohPicoPerf.Foundation.Memory
open ZenohPicoPerf.Foundation.Signed
open ZenohPicoPerf.Foundation (Reading)
open ZenohPicoPerf.Foundation.Reading
open ZenohPicoPerf.Common.Clock

/-- A positive difference is taken for the latency; the seconds do not
matter. -/
theorem oneWayLat_of_lt {stop : Timeval} {usec : Word} (sec : Word)
    (h : usec.toNat < stop.tvUsec.toNat) :
    oneWayLat stop sec usec = stop.tvUsec.toNat - usec.toNat := by
  have hsub : (stop.tvUsec - usec).toNat = stop.tvUsec.toNat - usec.toNat :=
    BitVec.toNat_sub_of_le (BitVec.le_def.mpr h.le)
  rw [oneWayLat, hsub, if_neg (by omega)]

/-- Only equal microsecond fields let the seconds in. -/
theorem oneWayLat_of_eq {stop : Timeval} {sec : Word}
    (hsec : sec.toNat ≤ stop.tvSec.toNat)
    (hfits : (stop.tvSec.toNat - sec.toNat) * 1000000 < 2 ^ 64) :
    oneWayLat stop sec stop.tvUsec =
      (stop.tvSec.toNat - sec.toNat) * 1000000 := by
  have hzero : (stop.tvUsec - stop.tvUsec).toNat = 0 := by
    rw [BitVec.sub_self]
    rfl
  have hsub : (stop.tvSec - sec).toNat = stop.tvSec.toNat - sec.toNat :=
    BitVec.toNat_sub_of_le (BitVec.le_def.mpr hsec)
  have hmillion : (1000000 : Word).toNat = 1000000 := rfl
  rw [oneWayLat, hzero, if_pos (Nat.le_refl 0), BitVec.toNat_mul, hsub,
    hmillion, Nat.mod_eq_of_lt hfits, Nat.zero_add]

/-- A borrow wraps the difference. -/
theorem oneWayLat_of_borrow {stop : Timeval} {usec : Word} (sec : Word)
    (h : stop.tvUsec.toNat < usec.toNat) :
    oneWayLat stop sec usec = 2 ^ 64 - (usec.toNat - stop.tvUsec.toNat) := by
  have hsub : (stop.tvUsec - usec).toNat =
      2 ^ 64 - (usec.toNat - stop.tvUsec.toNat) :=
    BitVec.toNat_sub_of_lt (BitVec.lt_def.mpr h)
  have hlt := usec.isLt
  rw [oneWayLat, hsub, if_neg (by omega)]

/-- The same on readings: the computation is exact if and only if the fields
agree in the microseconds or in the seconds. -/
theorem oneWayLat_eq_since_iff (stop : Timeval) (sec usec : Word)
    (sent received : Reading 1000000)
    (hsec : sec.toNat = sent.sec) (husec : usec.toNat = sent.frac)
    (hstopSec : stop.tvSec.toNat = received.sec)
    (hstopUsec : stop.tvUsec.toNat = received.frac)
    (hle : sent.ticks ≤ received.ticks)
    (hfits : (received.sec - sent.sec) * 1000000 < 2 ^ 64) :
    oneWayLat stop sec usec = received.since sent ↔
      sent.frac = received.frac ∨ sent.sec = received.sec := by
  have hsecs := sec_le hle
  rcases Nat.lt_trichotomy sent.frac received.frac with hlt | heq | hgt
  · rw [oneWayLat_of_lt sec (by omega), since_of_le hle hlt.le]
    omega
  · obtain rfl : usec = stop.tvUsec := BitVec.eq_of_toNat_eq (by omega)
    rw [oneWayLat_of_eq (by omega) (by rwa [hstopSec, hsec]),
      since_of_le hle heq.le]
    omega
  · -- the wrapped difference exceeds everything that does not overflow
    have hborrow := since_of_borrow hle hgt
    have hless := sec_lt_of_borrow hle hgt
    have hfrac := sent.frac_lt
    rw [oneWayLat_of_borrow sec (by omega)]
    omega

/-- **One-way latency.**  For every stamp that is not later than the receive
time, the latency that the receivers compute is the time between the two if
and only if the microsecond fields are equal or the seconds are. -/
theorem one_way_lat_iff (l : Line) (husec : l.usec.toNat < 1000000)
    (hstopSec : 0 ≤ l.stop.tvSec.toInt) (hstopUsec : 0 ≤ l.stop.tvUsec.toInt)
    (hstopLt : l.stop.tvUsec.toInt < 1000000)
    (hle : (l.sec.toNat : Int) * 1000000 + l.usec.toNat ≤
      l.stop.tvSec.toInt * 1000000 + l.stop.tvUsec.toInt)
    (hfits : (l.stop.tvSec.toInt - l.sec.toNat) * 1000000 < 2 ^ 64) :
    (l.lat : Int) = (l.stop.tvSec.toInt - l.sec.toNat) * 1000000 +
        (l.stop.tvUsec.toInt - l.usec.toNat) ↔
      l.usec = l.stop.tvUsec ∨ l.sec = l.stop.tvSec := by
  rw [toInt_of_nonneg hstopSec, toInt_of_nonneg hstopUsec] at *
  have hexact := oneWayLat_eq_since_iff l.stop l.sec l.usec
    ⟨l.sec.toNat, l.usec.toNat, husec⟩
    ⟨l.stop.tvSec.toNat, l.stop.tvUsec.toNat, by omega⟩
    rfl rfl rfl rfl (by simp only [Reading.ticks]; omega) (by simp only; omega)
  rw [← BitVec.toNat_inj, ← BitVec.toNat_inj, ← hexact]
  simp only [Line.lat, Reading.since, Reading.ticks]
  omega

/-- A line of tcp_sub_lat for a stamp and a receive time. -/
def timed (sec usec : Word) (stop : Timeval) : Line :=
  { labels := { layer := "tcp-raw-perf", name := "baseline",
                test := "latency", scenario := "ctcp-stcp",
                msgsPerSecond := 1 }
    sec := sec, usec := usec, stop := stop }

theorem one_way_lat_same_second :
    ((timed 5 10 ⟨5, 30⟩).lat : Int) = ((5 : Word).toInt - (5 : Word).toNat) *
        1000000 + ((30 : Word).toInt - (10 : Word).toNat) ↔
      (10 : Word) = 30 ∨ (5 : Word) = 5 :=
  one_way_lat_iff (timed 5 10 ⟨5, 30⟩) (by decide) (by decide) (by decide)
    (by decide) (by decide) (by decide)

/-- Two microseconds across a second are measured as `2 ^ 64 - 999998`, and a
second and four microseconds as four. -/
theorem one_way_lat_next_second :
    (timed 1 999999 ⟨2, 1⟩).lat = 2 ^ 64 - 999998 ∧
      (timed 1 1 ⟨2, 5⟩).lat = 4 ∧
      ¬((timed 1 999999 ⟨2, 1⟩).lat : Int) =
        ((2 : Word).toInt - (1 : Word).toNat) * 1000000 +
          ((1 : Word).toInt - (999999 : Word).toNat) := by
  decide

end ZenohPicoPerf.Latency

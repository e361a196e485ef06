import ZenohPicoPerf.Latency.ZenohGet
import ZenohPicoPerf.Foundation.Signed

/-!
# z_get_lat: how far the latency can be trusted

`reply_handler` subtracts signed fields, so a borrow makes the microsecond
difference negative and the seconds correct it.  A positive difference is
taken for the latency as it is: the handler does not look at the seconds
then, and drops the whole ones.

## Main results

* `exec_reply` — the line that one run of the handler prints.
* `lat_of_lt`, `lat_of_le` — its latency without and with the correction.
* `get_lat_trusted` — when the latency is the elapsed time.
-/

namespace ZenohPicoPerf.Latency.ZenohGet

open ZenohPicoPerf.Foundation.Run
open ZenohPicoPerf.Foundation.Signed
open ZenohPicoPerf.Common.Clock

/-- The microseconds of a clock reading are a fraction of a second. -/
structure ValidTime (t : Timeval) : Prop where
  nonneg : 0 ≤ t.tvUsec.toInt
  lt : t.tvUsec.toInt < 1000000

/-- The time in microseconds. -/
def micros (t : Timeval) : Int := t.tvSec.toInt * 1000000 + t.tvUsec.toInt

/-- What the handler prints if `start` does not change while it runs. -/
def replyLine (l : Labels) (query : Nat) (start stop : Timeval) : Line :=
  let reading : Reading :=
    { query := query, stop := stop, usec := start.tvUsec }
  { labels := l
    reading := reading
    correction := if reading.lat ≤ 0 then some start.tvSec else none
    sec := start.tvSec }

/-- One run of the handler prints one line and changes nothing else. -/
theorem exec_reply (l : Labels) {s : State} (hidle : s.handler = .idle)
    {query : Nat} (hquery : query < s.sent.length) (stop : Timeval) :
    exec (step l) s [.reply query true stop, .correct, .print] =
      some { s with
        printed := s.printed ++ [replyLine l query s.start stop] } := by
  have hreply : step l s (.reply query true stop) =
      some { s with
        handler := .subtracted ⟨query, stop, s.start.tvUsec⟩ } := by
    simp [step, hidle, hquery]
  rw [exec_cons, hreply, Option.bind_some]
  cases s with
  | mk start pc sent handler printed =>
      cases hidle
      rfl

/-! ## The two branches -/

/-- A positive difference is printed without the seconds. -/
theorem lat_of_lt (l : Labels) (query : Nat) {start stop : Timeval}
    (hstart : ValidTime start) (hstop : ValidTime stop)
    (hlt : start.tvUsec.toInt < stop.tvUsec.toInt) :
    (replyLine l query start stop).lat =
      stop.tvUsec.toInt - start.tvUsec.toInt := by
  have hlat : Reading.lat ⟨query, stop, start.tvUsec⟩ =
      stop.tvUsec.toInt - start.tvUsec.toInt :=
    toInt_sub_of_nonneg hstop.nonneg hstart.nonneg
  have hcorrection : (replyLine l query start stop).correction = none :=
    if_neg (by omega)
  rw [Line.lat, hcorrection]
  exact hlat

/-- Otherwise the seconds are added, and the latency is the elapsed time. -/
theorem lat_of_le (l : Labels) (query : Nat) {start stop : Timeval}
    (hstart : ValidTime start) (hstop : ValidTime stop)
    (hfits : Fits 64 ((stop.tvSec.toInt - start.tvSec.toInt) * 1000000))
    (hle : stop.tvUsec.toInt ≤ start.tvUsec.toInt) :
    (replyLine l query start stop).lat = micros stop - micros start := by
  have hlat : Reading.lat ⟨query, stop, start.tvUsec⟩ =
      stop.tvUsec.toInt - start.tvUsec.toInt :=
    toInt_sub_of_nonneg hstop.nonneg hstart.nonneg
  have hcorrection : (replyLine l query start stop).correction =
      some start.tvSec := if_pos (by omega)
  have hproduct : ((stop.tvSec - start.tvSec) * 1000000).toInt =
      (stop.tvSec.toInt - start.tvSec.toInt) * 1000000 :=
    toInt_sub_mul_of_fits hfits
  rw [Line.lat, hcorrection]
  show Reading.lat ⟨query, stop, start.tvUsec⟩ +
    ((stop.tvSec - start.tvSec) * 1000000).toInt = _
  rw [hlat, hproduct, micros, micros]
  omega

/-- **The latency of z_get_lat.**  For every start that is not later than the
stop, the line that the handler prints has a latency between zero and the
elapsed time that differs from it by whole seconds; it is the elapsed time up
to a second, and beyond a second exactly when the microsecond field has not
grown. -/
theorem get_lat_trusted (l : Labels) (s : State) (hidle : s.handler = .idle)
    (query : Nat) (hquery : query < s.sent.length) (stop : Timeval)
    (hstart : ValidTime s.start) (hstop : ValidTime stop)
    (hle : micros s.start ≤ micros stop)
    (hfits : Fits 64 ((stop.tvSec.toInt - s.start.tvSec.toInt) * 1000000)) :
    ∃ line, exec (step l) s [.reply query true stop, .correct, .print] =
        some { s with printed := s.printed ++ [line] } ∧
      0 ≤ line.lat ∧ line.lat ≤ micros stop - micros s.start ∧
      line.lat % 1000000 = (micros stop - micros s.start) % 1000000 ∧
      (micros stop - micros s.start ≤ 1000000 →
        line.lat = micros stop - micros s.start) ∧
      (1000000 < micros stop - micros s.start →
        (line.lat = micros stop - micros s.start ↔
          stop.tvUsec.toInt ≤ s.start.tvUsec.toInt)) := by
  refine ⟨_, exec_reply l hidle hquery stop, ?_⟩
  rcases lt_or_ge s.start.tvUsec.toInt stop.tvUsec.toInt with hlt | hge
  · -- the field has grown by less than a second, whatever the seconds are
    have hnonneg := hstart.nonneg
    have hupper := hstop.lt
    rw [lat_of_lt l query hstart hstop hlt]
    unfold micros at hle ⊢
    omega
  · rw [lat_of_le l query hstart hstop hfits hge]
    omega

/-- A second and four microseconds, with `start` at one microsecond. -/
theorem get_lat_trusted_next_second :
    ∃ line, exec (step (labels "s" 1))
        { init with start := ⟨1, 1⟩, sent := [⟨1, 1⟩] }
        [.reply 0 true ⟨2, 5⟩, .correct, .print] =
        some { init with
          start := ⟨1, 1⟩
          sent := [⟨1, 1⟩]
          printed := [] ++ [line] } ∧
      0 ≤ line.lat ∧ line.lat ≤ micros ⟨2, 5⟩ - micros ⟨1, 1⟩ ∧
      line.lat % 1000000 = (micros ⟨2, 5⟩ - micros ⟨1, 1⟩) % 1000000 ∧
      (micros ⟨2, 5⟩ - micros ⟨1, 1⟩ ≤ 1000000 →
        line.lat = micros ⟨2, 5⟩ - micros ⟨1, 1⟩) ∧
      (1000000 < micros ⟨2, 5⟩ - micros ⟨1, 1⟩ →
        (line.lat = micros ⟨2, 5⟩ - micros ⟨1, 1⟩ ↔
          (5 : BitVec 64).toInt ≤ (1 : BitVec 64).toInt)) :=
  get_lat_trusted (labels "s" 1)
    { init with start := ⟨1, 1⟩, sent := [⟨1, 1⟩] } rfl 0 (by decide) ⟨2, 5⟩
    ⟨by decide, by decide⟩ ⟨by decide, by decide⟩ (by decide)
    ⟨by decide, by decide⟩

end ZenohPicoPerf.Latency.ZenohGet

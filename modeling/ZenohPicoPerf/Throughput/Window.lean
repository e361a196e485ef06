import ZenohPicoPerf.Common.Clock
import ZenohPicoPerf.Foundation.Blocks

/-!
# The throughput window

Five programs measure a rate with the same three variables.  `count` is `0`
while no window is open; the event that opens a window stamps `start`, `N - 1`
further events are only counted, and the event that finds `count = N` stamps
`stop`, prints the report and closes the window without being counted.

`Window.tick` is that three-way branch.  It is shared by `data_handler` of
mqtt_sub_thr, `on_topic` of ddsxrce_sub_thr, `reply_handler` of z_get_thr and
the loops of opcua_sub_thr, opcua_pub_thr and tcp_sub_thr; the first five
differ only in the guard in front of it.

## Main results

* `tick_counts` — counter and start stamp give the position in the block.
* `tick_blockEnds` — one tick reports exactly the block it completes.
* `tick_count_le` — the counter stays within the block length.
-/

namespace ZenohPicoPerf.Throughput

open ZenohPicoPerf.Foundation.Memory
open ZenohPicoPerf.Foundation.Blocks
open ZenohPicoPerf.Common.Clock

/-- The variables `count`, `start` and `stop`. -/
structure Window where
  count : Nat
  start : Timeval
  stop : Timeval
deriving DecidableEq, Repr

/-- One accepted event read at `now`.  The second component holds the
arguments of the call to `print_stats`, when there is one. -/
def Window.tick (N : Nat) (w : Window) (now : Timeval) :
    Window × Option (Timeval × Timeval) :=
  if w.count = 0 then
    ({ w with start := now, count := w.count + 1 }, none)
  else if w.count < N then
    ({ w with count := w.count + 1 }, none)
  else
    ({ w with stop := now, count := 0 }, some (w.start, now))

theorem tick_of_closed {N : Nat} {w : Window} (now : Timeval)
    (h : w.count = 0) :
    w.tick N now = ({ w with start := now, count := 1 }, none) := by
  simp [Window.tick, h]

theorem tick_of_open {N : Nat} {w : Window} (now : Timeval)
    (h : w.count ≠ 0) (hN : w.count < N) :
    w.tick N now = ({ w with count := w.count + 1 }, none) := by
  simp [Window.tick, h, hN]

theorem tick_of_full {N : Nat} {w : Window} (now : Timeval)
    (h : w.count ≠ 0) (hN : ¬w.count < N) :
    w.tick N now =
      ({ w with stop := now, count := 0 }, some (w.start, now)) := by
  simp [Window.tick, h, hN]

/-- One tick leaves the counter at `N` or below, whatever it was. -/
theorem tick_count_le {N : Nat} (hN : 1 ≤ N) (w : Window) (now : Timeval) :
    (w.tick N now).1.count ≤ N := by
  by_cases h0 : w.count = 0
  · rw [tick_of_closed now h0]
    exact hN
  · by_cases hlt : w.count < N
    · rw [tick_of_open now h0 hlt]
      exact hlt
    · rw [tick_of_full now h0 hlt]
      exact Nat.zero_le N

/-! ## Windows and blocks of readings -/

/-- The window after the readings `xs`: the counter is the position inside
the current block and `start` is the reading that opened it. -/
structure Counts (N : Nat) (xs : List Timeval) (w : Window) : Prop where
  count : w.count = xs.length % (N + 1)
  start : w.count ≠ 0 → xs[xs.length - w.count]? = some w.start

theorem counts_nil (N : Nat) (w : Window) (h : w.count = 0) :
    Counts N [] w := by
  refine { count := by simp [h], start := ?_ }
  intro hne
  exact absurd h hne

/-- One tick extends the readings by one. -/
theorem tick_counts {N : Nat} (hN : 1 ≤ N) {xs : List Timeval} {w : Window}
    (h : Counts N xs w) (now : Timeval) :
    Counts N (xs ++ [now]) (w.tick N now).1 := by
  have hcount := h.count
  have hlt : xs.length % (N + 1) < N + 1 := Nat.mod_lt _ (by omega)
  by_cases h0 : w.count = 0
  · have hmod : (xs.length + 1) % (N + 1) = 1 := by
      rw [succ_mod_of_lt (by omega)]
      omega
    rw [tick_of_closed now h0]
    exact
      { count := by simp [hmod]
        start := by simp }
  · have hopen := h.start h0
    have hle : w.count ≤ xs.length := by
      rw [hcount]
      exact Nat.mod_le _ _
    by_cases hN' : w.count < N
    · have hmod : (xs.length + 1) % (N + 1) = w.count + 1 := by
        rw [succ_mod_of_lt (by omega)]
        omega
      rw [tick_of_open now h0 hN']
      refine { count := by simp [hmod], start := ?_ }
      intro _
      show (xs ++ [now])[(xs ++ [now]).length - (w.count + 1)]? = some w.start
      rw [List.length_append, List.length_singleton,
        show xs.length + 1 - (w.count + 1) = xs.length - w.count by omega,
        List.getElem?_append_left (by omega)]
      exact hopen
    · have hmod : (xs.length + 1) % (N + 1) = 0 := succ_mod_of_eq (by omega)
      rw [tick_of_full now h0 hN']
      exact
        { count := by simp [hmod]
          start := by simp }

/-- One tick reports exactly the block of readings that it completes. -/
theorem tick_blockEnds {N : Nat} (hN : 1 ≤ N) {xs : List Timeval}
    {w : Window} (h : Counts N xs w) (now : Timeval) :
    blockEnds N (xs ++ [now]) =
      blockEnds N xs ++ (w.tick N now).2.toList := by
  have hcount := h.count
  have hlt : xs.length % (N + 1) < N + 1 := Nat.mod_lt _ (by omega)
  by_cases hclose : w.count = N
  · have h0 : w.count ≠ 0 := by omega
    have hopen := h.start h0
    have hpos : xs.length - w.count < xs.length :=
      (List.getElem?_eq_some_iff.mp hopen).1
    rw [tick_of_full now h0 (by omega)]
    refine blockEnds_snoc_of_close (by omega) ?_
    rw [← hclose, List.getElem?_append_left hpos]
    exact hopen
  · have hnone : (w.tick N now).2 = none := by
      by_cases h0 : w.count = 0
      · rw [tick_of_closed now h0]
      · rw [tick_of_open now h0 (by omega)]
    rw [hnone, blockEnds_snoc_of_open now (by omega)]
    simp

/-! ## Reports -/

/-- The columns that a program prints in front of the rate. -/
structure Labels where
  layer : String
  name : String
  test : String
  scenario : String
  msgSize : CInt
deriving DecidableEq, Repr

/-- One printed line.  The rate column is `num / (stop - start)`. -/
structure Line where
  labels : Labels
  num : Nat
  start : Timeval
  stop : Timeval
deriving DecidableEq, Repr

/-- `print_stats`: the rate has the constant `N` as its numerator. -/
def printStats (N : Nat) (l : Labels) (start stop : Timeval) : Line :=
  { labels := l, num := N, start := start, stop := stop }

/-- The window variables and the lines printed so far. -/
structure Globals where
  window : Window
  printed : List Line
deriving DecidableEq, Repr

/-- The window branch with its call to `print_stats`. -/
def Globals.measure (N : Nat) (l : Labels) (g : Globals) (now : Timeval) :
    Globals :=
  match g.window.tick N now with
  | (w, none) => { g with window := w }
  | (w, some (start, stop)) =>
      { window := w, printed := g.printed ++ [printStats N l start stop] }

theorem measure_window (N : Nat) (l : Labels) (g : Globals) (now : Timeval) :
    (g.measure N l now).window = (g.window.tick N now).1 := by
  unfold Globals.measure
  split <;> simp [*]

theorem measure_printed (N : Nat) (l : Labels) (g : Globals)
    (now : Timeval) :
    (g.measure N l now).printed =
      g.printed ++ (g.window.tick N now).2.toList.map fun p =>
        printStats N l p.1 p.2 := by
  unfold Globals.measure
  split <;> simp [*]

end ZenohPicoPerf.Throughput

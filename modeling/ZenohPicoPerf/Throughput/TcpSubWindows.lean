import ZenohPicoPerf.Throughput.TcpSub

/-!
# tcp_sub_thr: which bytes a report counts

A window of `N` reads lies between its two stamps, but the pass that prints a
report reads once more before the next window opens.  That read is added to
`bytes` after `print_stats` has cleared it, so it is charged to the following
report although it was made before that report's start stamp.

`charge` is an observer that adds up what was read since the last start
stamp.  A report is right when its numerator is eight times the observed
number; `tcp_reports_charge_iff` says for which read results all reports are.
-/

namespace ZenohPicoPerf.Throughput.TcpSub

open ZenohPicoPerf.Foundation.Memory
open ZenohPicoPerf.Foundation.Run
open ZenohPicoPerf.Foundation.Blocks
open ZenohPicoPerf.Common.Clock

/-! ## The observer -/

/-- The bytes read since the last start stamp, and the value that this had at
each stop stamp. -/
structure Charged where
  sinceStart : Nat
  windows : List Nat
deriving DecidableEq, Repr

def Charged.init : Charged := { sinceStart := 0, windows := [] }

def charge (N : Nat) (g : Charged) (s : State) : Event → Charged
  | .accept _ => g
  | .clock now =>
      if s.window.count = 0 then { g with sinceStart := 0 }
      else if (s.window.tick N now).2.isSome then
        { g with windows := g.windows ++ [g.sinceStart] }
      else g
  | .read n =>
      if n.toInt < 0 then g
      else { g with sinceStart := g.sinceStart + n.toNat }

/-- Every report counts exactly the bits read between its own stamps. -/
def ReportsOwnWindow (s : State) (g : Charged) : Prop :=
  s.printed.map (fun r => r.bits.toNat) = g.windows.map (8 * ·)

/-! ## Schedules of one connection -/

/-- The events of a connection that stays open. -/
def OnConnection : Event → Prop
  | .accept _ => False
  | .clock _ => True
  | .read n => 0 ≤ n.toInt

/-- The read results of a schedule. -/
def reads (es : List Event) : List Nat :=
  es.filterMap fun
    | .read n => some n.toNat
    | _ => none

/-- The clock readings of a schedule. -/
def clocks (es : List Event) : List Timeval :=
  es.filterMap fun
    | .clock now => some now
    | _ => none

theorem reads_read (es : List Event) (n : CInt) :
    reads (es ++ [.read n]) = reads es ++ [n.toNat] := by
  simp [reads]

theorem reads_clock (es : List Event) (now : Timeval) :
    reads (es ++ [.clock now]) = reads es := by
  simp [reads]

theorem clocks_read (es : List Event) (n : CInt) :
    clocks (es ++ [.read n]) = clocks es := by
  simp [clocks]

theorem clocks_clock (es : List Event) (now : Timeval) :
    clocks (es ++ [.clock now]) = clocks es ++ [now] := by
  simp [clocks]

/-! ## The state after a schedule -/

/-- The bytes that report `k` counts: its window and the read before it. -/
def countedBytes (N : Nat) (rs : List Nat) (k : Nat) : Nat :=
  segSum rs (k * (N + 1) - 1) (k * (N + 1) + N)

/-- The bytes read inside window `k`. -/
def windowBytes (N : Nat) (rs : List Nat) (k : Nat) : Nat :=
  segSum rs (k * (N + 1)) (k * (N + 1) + N)

/-- The state and the observer after a schedule of one connection. -/
structure Served (N : Nat) (es : List Event) (s : State) (g : Charged) :
    Prop where
  pc : s.pc = .tick ∧ (reads es).length = (clocks es).length ∨
    s.pc = .read ∧ (reads es).length + 1 = (clocks es).length
  window : Counts N (clocks es) s.window
  bytes : s.bytes = BitVec.ofNat 64 (segSum (reads es)
    ((clocks es).length / (N + 1) * (N + 1) - 1) (reads es).length)
  since : s.window.count ≠ 0 → g.sinceStart = segSum (reads es)
    ((clocks es).length / (N + 1) * (N + 1)) (reads es).length
  printed : s.printed.map (·.bits) =
    (List.range ((clocks es).length / (N + 1))).map fun k =>
      BitVec.ofNat 64 (countedBytes N (reads es) k) * 8
  windows : g.windows =
    (List.range ((clocks es).length / (N + 1))).map
      (windowBytes N (reads es))

theorem Served.length_of_tick {N : Nat} {es : List Event} {s : State}
    {g : Charged} (h : Served N es s g) (hpc : s.pc = .tick) :
    (reads es).length = (clocks es).length := by
  rcases h.pc with ⟨-, hlen⟩ | ⟨hread, -⟩
  · exact hlen
  · rw [hpc] at hread
    cases hread

theorem Served.length_of_read {N : Nat} {es : List Event} {s : State}
    {g : Charged} (h : Served N es s g) (hpc : s.pc = .read) :
    (reads es).length + 1 = (clocks es).length := by
  rcases h.pc with ⟨htick, -⟩ | ⟨-, hlen⟩
  · rw [hpc] at htick
    cases htick
  · exact hlen

theorem served_read {N : Nat} {es : List Event} {s : State} {g : Charged}
    {n : CInt} (hn : 0 ≤ n.toInt) (h : Served N es s g) (hpc : s.pc = .read) :
    Served N (es ++ [.read n])
      { s with pc := .tick, bytes := s.bytes + n.toWord }
      (charge N g s (.read n)) := by
  have hcharge : charge N g s (.read n) =
      { g with sinceStart := g.sinceStart + n.toNat } :=
    if_neg (by omega)
  have hlen := h.length_of_read hpc
  have hqle := Nat.div_mul_le_self (clocks es).length (N + 1)
  have hinside : ∀ k ∈ List.range ((clocks es).length / (N + 1)),
      k * (N + 1) + N ≤ (reads es).length := by
    intro k hk
    have hlt := block_position_lt (List.mem_range.mp hk)
    omega
  rw [hcharge]
  refine
    { pc := Or.inl ⟨rfl, by rw [reads_read, clocks_read]; simpa using hlen⟩
      window := by rw [clocks_read]; exact h.window
      bytes := ?_, since := ?_, printed := ?_, windows := ?_ }
  · have hword : n.toWord = BitVec.ofNat 64 n.toNat := by
      apply BitVec.eq_of_toNat_eq
      rw [CInt.toWord_toNat hn, BitVec.toNat_ofNat]
      exact (Nat.mod_eq_of_lt (by have := n.isLt; omega)).symm
    show s.bytes + n.toWord = _
    rw [reads_read, clocks_read, List.length_append, List.length_singleton,
      segSum_snoc _ (by omega), BitVec.ofNat_add, h.bytes, hword]
  · intro hopen
    have hmod : (clocks es).length % (N + 1) ≠ 0 := by
      rw [← h.window.count]
      exact hopen
    have hdiv := Nat.div_add_mod' (clocks es).length (N + 1)
    show g.sinceStart + n.toNat = _
    rw [reads_read, clocks_read, List.length_append, List.length_singleton,
      segSum_snoc _ (by omega), h.since hopen]
  · rw [reads_read, clocks_read]
    refine h.printed.trans (List.map_congr_left ?_)
    intro k hk
    rw [countedBytes, countedBytes, segSum_append _ (hinside k hk)]
  · rw [reads_read, clocks_read]
    refine h.windows.trans (List.map_congr_left ?_)
    intro k hk
    rw [windowBytes, windowBytes, segSum_append _ (hinside k hk)]

/-- A tick that prints no report: it opens a window or lies inside one. -/
theorem served_clock_open {N : Nat} (hN : 1 ≤ N) {es : List Event}
    {s : State} {g : Charged} {msgSize : CInt} {now : Timeval}
    (h : Served N es s g) (hpc : s.pc = .tick) (hopen : s.window.count ≠ N) :
    Served N (es ++ [.clock now])
      { pc := .read
        window := (s.window.tick N now).1
        bytes := tickBytes N s now
        printed := s.printed ++ tickReports N msgSize s now }
      (charge N g s (.clock now)) := by
  have hlen := h.length_of_tick hpc
  have hcount := h.window.count
  have hlt : (clocks es).length % (N + 1) < N + 1 := Nat.mod_lt _ (by omega)
  have hdiv := Nat.div_add_mod' (clocks es).length (N + 1)
  have hnext : (clocks es ++ [now]).length = (clocks es).length + 1 := by
    simp
  have hq : ((clocks es).length + 1) / (N + 1) =
      (clocks es).length / (N + 1) :=
    Nat.succ_div_of_mod_ne_zero (by
      rw [succ_mod_of_lt (by omega)]
      omega)
  have hnone : (s.window.tick N now).2 = none := by
    by_cases h0 : s.window.count = 0
    · rw [tick_of_closed now h0]
    · rw [tick_of_open now h0 (by omega)]
  refine
    { pc := Or.inr ⟨rfl, by rw [reads_clock, clocks_clock, hnext, hlen]⟩
      window := by
        rw [clocks_clock]
        exact tick_counts hN h.window now
      bytes := ?_, since := ?_, printed := ?_, windows := ?_ }
  · rw [reads_clock, clocks_clock, hnext, hq, ← h.bytes]
    simp [tickBytes, hnone]
  · intro _
    rw [reads_clock, clocks_clock, hnext, hq]
    by_cases h0 : s.window.count = 0
    · rw [segSum_empty (by omega)]
      simp [charge, h0]
    · rw [← h.since h0]
      simp [charge, h0, hnone]
  · rw [reads_clock, clocks_clock, hnext, hq, ← h.printed]
    simp [tickReports, hnone]
  · rw [reads_clock, clocks_clock, hnext, hq, ← h.windows]
    by_cases h0 : s.window.count = 0 <;> simp [charge, h0, hnone]

/-- The tick that prints a report. -/
theorem served_clock_close {N : Nat} (hN : 1 ≤ N) {es : List Event}
    {s : State} {g : Charged} {msgSize : CInt} {now : Timeval}
    (h : Served N es s g) (hpc : s.pc = .tick) (hfull : s.window.count = N) :
    Served N (es ++ [.clock now])
      { pc := .read
        window := (s.window.tick N now).1
        bytes := tickBytes N s now
        printed := s.printed ++ tickReports N msgSize s now }
      (charge N g s (.clock now)) := by
  have hlen := h.length_of_tick hpc
  have hcount := h.window.count
  have hdiv := Nat.div_add_mod' (clocks es).length (N + 1)
  have hnext : (clocks es ++ [now]).length = (clocks es).length + 1 := by
    simp
  have h0 : s.window.count ≠ 0 := by omega
  have htick := tick_of_full now h0 (show ¬s.window.count < N by omega)
  have hq : ((clocks es).length + 1) / (N + 1) =
      (clocks es).length / (N + 1) + 1 :=
    Nat.succ_div_of_mod_eq_zero (succ_mod_of_eq (by omega))
  have hqmul : ((clocks es).length / (N + 1) + 1) * (N + 1) =
      (clocks es).length / (N + 1) * (N + 1) + (N + 1) :=
    Nat.succ_mul _ _
  have hend : (clocks es).length / (N + 1) * (N + 1) + N =
      (reads es).length := by omega
  have hcharge : charge N g s (.clock now) =
      { g with windows := g.windows ++ [g.sinceStart] } := by
    simp [charge, h0, htick]
  rw [hcharge]
  refine
    { pc := Or.inr ⟨rfl, by rw [reads_clock, clocks_clock, hnext, hlen]⟩
      window := by
        rw [clocks_clock]
        exact tick_counts hN h.window now
      bytes := ?_, since := ?_, printed := ?_, windows := ?_ }
  · rw [reads_clock, clocks_clock, hnext, hq, hqmul,
      segSum_empty (by omega)]
    simp [tickBytes, htick]
  · intro hopen
    simp [htick] at hopen
  · have hreport : (tickReports N msgSize s now).map (·.bits) =
        [BitVec.ofNat 64 (countedBytes N (reads es)
          ((clocks es).length / (N + 1))) * 8] := by
      simp [tickReports, htick, countedBytes, hend, h.bytes]
    rw [reads_clock, clocks_clock, hnext, hq, List.range_succ,
      List.map_append, List.map_append, h.printed, hreport]
    rfl
  · show g.windows ++ [g.sinceStart] = _
    rw [reads_clock, clocks_clock, hnext, hq, List.range_succ,
      List.map_append, h.windows, h.since h0]
    simp [windowBytes, hend]

/-- A whole connection, from the first `accept` on. -/
theorem served_run {N : Nat} (hN : 1 ≤ N) {msgSize csock : CInt}
    (hsock : 0 ≤ csock.toInt) {es : List Event}
    (hes : ∀ e ∈ es, OnConnection e) {s : State} {g : Charged}
    (h : exec (observed (step N msgSize) (charge N)) (init, Charged.init)
      (.accept csock :: es) = some (s, g)) : Served N es s g := by
  obtain ⟨⟨s₁, g₁⟩, hfirst, hrest⟩ := exec_cons_iff.mp h
  obtain ⟨hs₁, hg₁⟩ := observed_eq_some.mp hfirst
  obtain ⟨-, hs₁⟩ := step_accept.mp hs₁
  rw [if_neg (show ¬csock.toInt < 0 by omega)] at hs₁
  have hmeets : Meets (observed (step N msgSize) (charge N))
      (fun _ e => OnConnection e) (s₁, g₁) es :=
    meets_of_prefixes fun pre e post _ hsplit _ =>
      hes e (by rw [hsplit]; simp)
  refine exec_history_of_meets (fun es p => Served N es p.1 p.2) ?_ ?_ es
    (s, g) hmeets hrest
  · dsimp only at hs₁ hg₁
    subst hs₁ hg₁
    exact
      { pc := Or.inl ⟨rfl, rfl⟩
        window := counts_nil N _ rfl
        bytes := by simp [init, reads, segSum]
        since := fun hopen => absurd rfl hopen
        printed := by simp [init, clocks]
        windows := by simp [charge, Charged.init, clocks] }
  · rintro es ⟨s, g⟩ e ⟨s', g'⟩ ih hon hstep
    obtain ⟨hs, hg⟩ := observed_eq_some.mp hstep
    dsimp only at ih hs hg ⊢
    subst hg
    rcases step_cases hs with ⟨_, rfl, -, -⟩ | ⟨now, rfl, hpc, rfl⟩ |
      ⟨n, rfl, hn, -, -⟩ | ⟨n, rfl, hn, hpc, rfl⟩
    · exact absurd hon (by simp [OnConnection])
    · by_cases hfull : s.window.count = N
      · exact served_clock_close hN ih hpc hfull
      · exact served_clock_open hN ih hpc hfull
    · exact absurd hon (by simp only [OnConnection]; omega)
    · exact served_read hn ih hpc

/-! ## When the reports are right -/

/-- The run charges no read to a window that it was not made in: after every
report but the last, the read that precedes the next start stamp returned 0
bytes, and no window's bytes overflow the numerator. -/
def CarryFree (N : Nat) (es : List Event) : Prop :=
  ∀ k, (k + 1) * (N + 1) ≤ (clocks es).length →
    windowBytes N (reads es) k < 2 ^ 61 ∧
      (0 < k → (reads es)[k * (N + 1) - 1]? = some 0)

theorem countedBytes_zero (N : Nat) (rs : List Nat) :
    countedBytes N rs 0 = windowBytes N rs 0 := by
  simp [countedBytes, windowBytes]

theorem countedBytes_succ {N k x : Nat} {rs : List Nat} (hN : 1 ≤ N)
    (hk : 0 < k) (hx : rs[k * (N + 1) - 1]? = some x) :
    countedBytes N rs k = x + windowBytes N rs k := by
  have hpos : 0 < k * (N + 1) := Nat.mul_pos hk (by omega)
  rw [countedBytes, segSum_head (by omega) hx,
    Nat.sub_add_cancel (show 1 ≤ k * (N + 1) from hpos), windowBytes]

/-- A numerator that counts `e` extra bytes is right only for `e = 0`. -/
theorem numerator_eq_iff {e w : Nat} (he : e < 2 ^ 31) :
    (BitVec.ofNat 64 (e + w) * 8).toNat = 8 * w ↔ w < 2 ^ 61 ∧ e = 0 := by
  rw [BitVec.toNat_mul, BitVec.toNat_ofNat, show (8 : Word).toNat = 8 from rfl]
  omega

theorem reads_lt {es : List Event} (hes : ∀ e ∈ es, OnConnection e)
    {i x : Nat} (h : (reads es)[i]? = some x) : x < 2 ^ 31 := by
  have hmem := List.mem_of_getElem? h
  unfold reads at hmem
  obtain ⟨e, he, hx⟩ := List.mem_filterMap.mp hmem
  cases e with
  | accept _ => cases hx
  | clock _ => cases hx
  | read n =>
      obtain rfl : n.toNat = x := by simpa using hx
      exact CInt.toNat_lt_of_nonneg (hes _ he)

/-- **Bits and time of a report.**  On one connection with non-negative read
results, every report counts exactly the bits read between its own stamps if
and only if the run is carry free. -/
theorem tcp_reports_charge_iff (N : Nat) (hN : 1 ≤ N) (msgSize csock : CInt)
    (hsock : 0 ≤ csock.toInt) (es : List Event)
    (hes : ∀ e ∈ es, OnConnection e) (s : State) (g : Charged)
    (h : exec (observed (step N msgSize) (charge N)) (init, Charged.init)
      (.accept csock :: es) = some (s, g)) :
    ReportsOwnWindow s g ↔ CarryFree N es := by
  have hserved := served_run hN hsock hes h
  have hprinted : s.printed.map (fun r => r.bits.toNat) =
      (List.range ((clocks es).length / (N + 1))).map fun k =>
        (BitVec.ofNat 64 (countedBytes N (reads es) k) * 8).toNat := by
    have hmap := congrArg (List.map BitVec.toNat) hserved.printed
    simpa only [List.map_map, Function.comp_def] using hmap
  have hreport : ∀ k, (k + 1) * (N + 1) ≤ (clocks es).length →
      ((BitVec.ofNat 64 (countedBytes N (reads es) k) * 8).toNat =
          8 * windowBytes N (reads es) k ↔
        windowBytes N (reads es) k < 2 ^ 61 ∧
          (0 < k → (reads es)[k * (N + 1) - 1]? = some 0)) := by
    intro k hk
    rcases Nat.eq_zero_or_pos k with rfl | hpos
    · have hzero := numerator_eq_iff (e := 0) (w := windowBytes N (reads es) 0)
        (by decide)
      rw [Nat.zero_add] at hzero
      rw [countedBytes_zero, hzero]
      simp
    · have hlen : k * (N + 1) - 1 < (reads es).length := by
        have hsucc : (k + 1) * (N + 1) = k * (N + 1) + (N + 1) :=
          Nat.succ_mul k (N + 1)
        rcases hserved.pc with ⟨-, hlen⟩ | ⟨-, hlen⟩ <;> omega
      have hx := List.getElem?_eq_getElem hlen
      rw [countedBytes_succ hN hpos hx, numerator_eq_iff (reads_lt hes hx),
        hx]
      simp [hpos]
  unfold ReportsOwnWindow CarryFree
  rw [hprinted, hserved.windows, List.map_map, List.map_inj_left]
  simp only [List.mem_range, Function.comp_apply]
  constructor
  · intro hall k hk
    exact (hreport k hk).mp (hall k
      ((Nat.le_div_iff_mul_le (by omega)).mpr hk))
  · intro hall k hk
    have hk' := (Nat.le_div_iff_mul_le (by omega)).mp hk
    exact (hreport k hk').mpr (hall k hk')

instance (s : State) (g : Charged) : Decidable (ReportsOwnWindow s g) := by
  unfold ReportsOwnWindow
  infer_instance

/-- Two windows of one read each, with nothing read between them. -/
def twoWindows (between : CInt) : List Event :=
  [.clock ⟨1, 0⟩, .read 5, .clock ⟨2, 0⟩, .read between, .clock ⟨3, 0⟩,
    .read 3, .clock ⟨4, 0⟩]

theorem tcp_reports_charge_idle :
    ∃ s g, exec (observed (step 1 64) (charge 1)) (init, Charged.init)
        (.accept 3 :: twoWindows 0) = some (s, g) ∧
      (ReportsOwnWindow s g ↔ CarryFree 1 (twoWindows 0)) :=
  ⟨_, _, rfl, tcp_reports_charge_iff 1 (by decide) 64 3 (by decide)
    (twoWindows 0) (by simp [twoWindows, OnConnection]) _ _ rfl⟩

/-- The 7 bytes read between the two windows are counted in the second. -/
theorem tcp_reports_charge_between :
    ∃ s g, exec (observed (step 1 64) (charge 1)) (init, Charged.init)
        (.accept 3 :: twoWindows 7) = some (s, g) ∧
      s.printed.map (·.bits) = [40, 80] ∧ g.windows = [5, 3] ∧
      ¬ReportsOwnWindow s g :=
  ⟨_, _, rfl, by decide, by decide, by decide⟩

end ZenohPicoPerf.Throughput.TcpSub

import ZenohPicoPerf.Throughput.TcpSubWindows

/-!
# tcp_sub_thr: one connection after another

`count`, `bytes` and `start` are not reset by `accept`.  A connection that
begins while a window of an earlier one is open completes that window, and
its reports are not those of a server that was just started.  Two runs are
compared here: the server that has already served some connections, and a
fresh one that is given the same connection.

## Main results

* `ran_exec` — counter, reports and byte count after any run.
* `leaves_no_trace` — a closed window leaks nothing into the next connection.
* `tcp_connections_independent_iff` — when no connection leaks into another.
-/

namespace ZenohPicoPerf.Throughput.TcpSub

open ZenohPicoPerf.Foundation.Run
open ZenohPicoPerf.Foundation.Blocks
open ZenohPicoPerf.Common.Clock

/-! ## Connections -/

/-- One accepted connection: any number of successful reads and then a failing
one, each with the clock reading of its pass. -/
structure Connection where
  csock : CInt
  accepted : 0 ≤ csock.toInt
  passes : List (Timeval × CInt)
  succeed : ∀ p ∈ passes, 0 ≤ p.2.toInt
  last : Timeval × CInt
  fails : last.2.toInt < 0

namespace Connection

/-- The two events of one pass of the inner loop. -/
def pass (p : Timeval × CInt) : List Event := [.clock p.1, .read p.2]

def events (c : Connection) : List Event :=
  .accept c.csock :: (c.passes ++ [c.last]).flatMap pass

def clockReadings (c : Connection) : List Timeval :=
  (c.passes ++ [c.last]).map Prod.fst

def readResults (c : Connection) : List CInt :=
  (c.passes ++ [c.last]).map Prod.snd

/-- The number of passes. -/
def ticks (c : Connection) : Nat := c.passes.length + 1

/-- The same socket and read results under a clock that stands still. -/
def retime (now : Timeval) (c : Connection) : Connection where
  csock := c.csock
  accepted := c.accepted
  passes := c.passes.map fun p => (now, p.2)
  succeed := by
    intro p hp
    obtain ⟨q, hq, rfl⟩ := List.mem_map.mp hp
    exact c.succeed q hq
  last := (now, c.last.2)
  fails := c.fails

theorem clocks_passes (ps : List (Timeval × CInt)) :
    clocks (ps.flatMap pass) = ps.map Prod.fst := by
  induction ps with
  | nil => rfl
  | cons p ps ih =>
      show p.1 :: clocks (ps.flatMap pass) = _
      rw [ih, List.map_cons]

theorem clocks_events (c : Connection) : clocks c.events = c.clockReadings :=
  clocks_passes (c.passes ++ [c.last])

theorem length_clockReadings (c : Connection) :
    c.clockReadings.length = c.ticks := by
  simp [clockReadings, ticks]

theorem ticks_eq (c : Connection) : c.ticks = c.readResults.length := by
  simp [readResults, ticks]

theorem readResults_retime (now : Timeval) (c : Connection) :
    (c.retime now).readResults = c.readResults := by
  simp [readResults, retime]

theorem ticks_retime (now : Timeval) (c : Connection) :
    (c.retime now).ticks = c.ticks := by
  simp [ticks, retime]

theorem mem_clockReadings_retime {now t : Timeval} {c : Connection}
    (h : t ∈ (c.retime now).clockReadings) : t = now := by
  simp only [clockReadings, retime, List.map_append, List.map_map,
    List.mem_append, List.mem_map] at h
  rcases h with ⟨p, -, rfl⟩ | h
  · rfl
  · simpa [eq_comm] using h

end Connection

/-- The events of a sequence of connections. -/
def session (conns : List Connection) : List Event :=
  conns.flatMap Connection.events

theorem clocks_append (es fs : List Event) :
    clocks (es ++ fs) = clocks es ++ clocks fs := by
  simp [clocks]

theorem clocks_session (conns : List Connection) :
    clocks (session conns) = conns.flatMap Connection.clockReadings := by
  induction conns with
  | nil => rfl
  | cons c conns ih =>
      show clocks (c.events ++ session conns) = _
      rw [clocks_append, c.clocks_events, ih, List.flatMap_cons]

theorem length_clocks_session (conns : List Connection) :
    (clocks (session conns)).length = (conns.map Connection.ticks).sum := by
  rw [clocks_session, List.length_flatMap]
  simp only [Connection.length_clockReadings]

/-! ## A connection is always served to its end -/

/-- One pass: the window branch and then the read. -/
theorem exec_pass {N : Nat} {msgSize : CInt} {s s' : State}
    {p : Timeval × CInt} :
    exec (step N msgSize) s (Connection.pass p) = some s' ↔
      ∃ m, step N msgSize s (.clock p.1) = some m ∧
        step N msgSize m (.read p.2) = some s' := by
  rw [Connection.pass, exec_cons_iff]
  simp only [exec_singleton]

theorem exec_pass_ok (N : Nat) (msgSize : CInt) {s : State}
    (hpc : s.pc = .tick) {p : Timeval × CInt} (hp : 0 ≤ p.2.toInt) :
    ∃ s', exec (step N msgSize) s (Connection.pass p) = some s' ∧
      s'.pc = .tick := by
  have hclock := (@step_clock N msgSize s _ p.1).mpr ⟨hpc, rfl⟩
  have hpass := exec_pass.mpr
    ⟨_, hclock, (step_read_ok hp).mpr ⟨rfl, rfl⟩⟩
  exact ⟨_, hpass, rfl⟩

theorem exec_pass_fail (N : Nat) (msgSize : CInt) {s : State}
    (hpc : s.pc = .tick) {p : Timeval × CInt} (hp : p.2.toInt < 0) :
    ∃ s', exec (step N msgSize) s (Connection.pass p) = some s' ∧
      s'.pc = .accept := by
  have hclock := (@step_clock N msgSize s _ p.1).mpr ⟨hpc, rfl⟩
  have hpass := exec_pass.mpr
    ⟨_, hclock, (step_read_fail hp).mpr ⟨rfl, rfl⟩⟩
  exact ⟨_, hpass, rfl⟩

theorem exec_passes (N : Nat) (msgSize : CInt) {ps : List (Timeval × CInt)}
    (hps : ∀ p ∈ ps, 0 ≤ p.2.toInt) {s : State} (hpc : s.pc = .tick) :
    ∃ s', exec (step N msgSize) s (ps.flatMap Connection.pass) = some s' ∧
      s'.pc = .tick := by
  induction ps generalizing s with
  | nil => exact ⟨s, rfl, hpc⟩
  | cons p ps ih =>
      obtain ⟨m, hm, hmpc⟩ := exec_pass_ok N msgSize hpc (hps p (by simp))
      obtain ⟨s', hs', hpc'⟩ := ih (fun q hq => hps q (by simp [hq])) hmpc
      exact ⟨s', exec_append_iff.mpr ⟨m, hm, hs'⟩, hpc'⟩

/-- From `accept`, a connection runs to its failing read and back. -/
theorem exec_connection (N : Nat) (msgSize : CInt) (c : Connection)
    {s : State} (hpc : s.pc = .accept) :
    ∃ s', exec (step N msgSize) s c.events = some s' ∧ s'.pc = .accept := by
  have hsock := c.accepted
  have haccept : step N msgSize s (.accept c.csock) =
      some { s with pc := .tick } :=
    step_accept.mpr ⟨hpc, by rw [if_neg (by omega)]⟩
  obtain ⟨m, hm, hmpc⟩ := exec_passes N msgSize c.succeed
    (s := { s with pc := .tick }) rfl
  obtain ⟨s', hs', hpc'⟩ := exec_pass_fail N msgSize hmpc c.fails
  refine ⟨s', exec_cons_iff.mpr ⟨_, haccept, ?_⟩, hpc'⟩
  rw [List.flatMap_append, List.flatMap_singleton]
  exact exec_append_iff.mpr ⟨m, hm, hs'⟩

theorem exec_session (N : Nat) (msgSize : CInt) (conns : List Connection)
    {s : State} (hpc : s.pc = .accept) :
    ∃ s', exec (step N msgSize) s (session conns) = some s' ∧
      s'.pc = .accept := by
  induction conns generalizing s with
  | nil => exact ⟨s, rfl, hpc⟩
  | cons c conns ih =>
      obtain ⟨m, hm, hmpc⟩ := exec_connection N msgSize c hpc
      obtain ⟨s', hs', hpc'⟩ := ih hmpc
      exact ⟨s', exec_append_iff.mpr ⟨m, hm, hs'⟩, hpc'⟩

/-! ## The state after any run -/

/-- Counter and reports follow the clock readings of the whole run, and the
byte count is zero between a report and the next read. -/
structure Ran (N : Nat) (es : List Event) (s : State) : Prop where
  window : Counts N (clocks es) s.window
  printed : s.printed.map (fun r => (r.start, r.stop)) =
    blockEnds N (clocks es)
  bytes : s.pc ≠ .tick → s.window.count = 0 → s.bytes = 0

theorem ran_clock {N : Nat} (hN : 1 ≤ N) {msgSize : CInt} {es : List Event}
    {s : State} (h : Ran N es s) (now : Timeval) :
    Ran N (es ++ [.clock now])
      { pc := .read
        window := (s.window.tick N now).1
        bytes := tickBytes N s now
        printed := s.printed ++ tickReports N msgSize s now } := by
  refine { window := ?_, printed := ?_, bytes := ?_ }
  · rw [clocks_clock]
    exact tick_counts hN h.window now
  · rw [clocks_clock, tick_blockEnds hN h.window, ← h.printed,
      List.map_append]
    simp [tickReports, Function.comp_def]
  · intro _ hcount
    by_cases h0 : s.window.count = 0
    · rw [tick_of_closed now h0] at hcount
      cases hcount
    · by_cases hlt : s.window.count < N
      · rw [tick_of_open now h0 hlt] at hcount
        cases hcount
      · simp [tickBytes, tick_of_full now h0 hlt]

theorem ran_exec {N : Nat} (hN : 1 ≤ N) (msgSize : CInt) :
    ∀ es s, exec (step N msgSize) init es = some s → Ran N es s := by
  apply exec_history (Ran N)
  · exact
      { window := counts_nil N _ rfl
        printed := by simp [init, clocks]
        bytes := fun _ _ => rfl }
  · intro es s e s' ih hstep
    rcases step_cases hstep with ⟨csock, rfl, hpc, rfl⟩ | ⟨now, rfl, -, rfl⟩ |
      ⟨n, rfl, -, hpc, rfl⟩ | ⟨n, rfl, -, -, rfl⟩
    · have hsame : clocks (es ++ [.accept csock]) = clocks es := by
        simp [clocks]
      exact
        { window := by rw [hsame]; exact ih.window
          printed := by rw [hsame]; exact ih.printed
          bytes := fun _ => ih.bytes (by rw [hpc]; decide) }
    · exact ran_clock hN ih now
    · exact
        { window := by rw [clocks_read]; exact ih.window
          printed := by rw [clocks_read]; exact ih.printed
          bytes := fun _ => ih.bytes (by rw [hpc]; decide) }
    · exact
        { window := by rw [clocks_read]; exact ih.window
          printed := by rw [clocks_read]; exact ih.printed
          bytes := fun htick => absurd rfl htick }

/-! ## What an open window leaks -/

/-- The window branch looks at the counter and, while a window is open, at
its start stamp. -/
structure SameWindow (w v : Window) : Prop where
  count : w.count = v.count
  start : w.count ≠ 0 → w.start = v.start

theorem tick_sameWindow {N : Nat} {w v : Window} (h : SameWindow w v)
    (now : Timeval) :
    (w.tick N now).2 = (v.tick N now).2 ∧
      SameWindow (w.tick N now).1 (v.tick N now).1 := by
  have hcount := h.count
  by_cases h0 : w.count = 0
  · rw [tick_of_closed now h0, tick_of_closed now (by omega)]
    exact ⟨rfl, { count := rfl, start := fun _ => rfl }⟩
  · have hstart := h.start h0
    by_cases hlt : w.count < N
    · rw [tick_of_open now h0 hlt, tick_of_open now (by omega) (by omega)]
      exact ⟨rfl, { count := by simp [hcount], start := fun _ => hstart }⟩
    · rw [tick_of_full now h0 hlt, tick_of_full now (by omega) (by omega),
        hstart]
      exact ⟨rfl, { count := rfl, start := fun _ => rfl }⟩

/-- The server that has already printed `before` and the fresh one agree on
everything that later reports depend on. -/
structure Agrees (before : List Report) (fresh s : State) : Prop where
  pc : s.pc = fresh.pc
  window : SameWindow s.window fresh.window
  bytes : s.bytes = fresh.bytes
  printed : s.printed = before ++ fresh.printed

theorem agrees_step {N : Nat} {msgSize : CInt} {before : List Report} :
    ∀ fresh s e fresh', Agrees before fresh s →
      step N msgSize fresh e = some fresh' →
      ∃ s', step N msgSize s e = some s' ∧ Agrees before fresh' s' := by
  intro fresh s e fresh' h hstep
  rcases step_cases hstep with ⟨csock, rfl, hpc, rfl⟩ | ⟨now, rfl, hpc, rfl⟩ |
    ⟨n, rfl, hn, hpc, rfl⟩ | ⟨n, rfl, hn, hpc, rfl⟩
  · refine ⟨_, step_accept.mpr ⟨h.pc.trans hpc, rfl⟩, ?_⟩
    exact { h with pc := rfl }
  · refine ⟨_, step_clock.mpr ⟨h.pc.trans hpc, rfl⟩, ?_⟩
    obtain ⟨hreport, hwindow⟩ := tick_sameWindow (N := N) h.window now
    exact
      { pc := rfl
        window := hwindow
        bytes := by simp only [tickBytes, hreport, h.bytes]
        printed := by
          simp only [tickReports, hreport, h.bytes, h.printed,
            List.append_assoc] }
  · refine ⟨_, (step_read_fail hn).mpr ⟨h.pc.trans hpc, rfl⟩, ?_⟩
    exact { h with pc := rfl }
  · refine ⟨_, (step_read_ok hn).mpr ⟨h.pc.trans hpc, rfl⟩, ?_⟩
    exact
      { pc := rfl
        window := h.window
        bytes := by simp only [h.bytes]
        printed := h.printed }

/-- A closed window leaks nothing: what follows is printed as by a server
that was just started. -/
theorem leaves_no_trace {N : Nat} {msgSize : CInt} {es : List Event}
    {s f : State} (hran : Ran N es s) (hpc : s.pc = .accept)
    (hclosed : s.window.count = 0) {fs : List Event}
    (hf : exec (step N msgSize) init fs = some f) :
    ∃ s', exec (step N msgSize) s fs = some s' ∧
      s'.printed = s.printed ++ f.printed := by
  have hstart : Agrees s.printed init s :=
    { pc := hpc
      window := { count := hclosed, start := fun hopen => absurd hclosed hopen }
      bytes := hran.bytes (by rw [hpc]; decide) hclosed
      printed := (List.append_nil _).symm }
  obtain ⟨s', hs', hagrees⟩ :=
    exec_simulation (Agrees s.printed) agrees_step fs init s f hstart hf
  exact ⟨s', hs', hagrees.printed⟩

/-- Reports are only added. -/
theorem printed_mono {N : Nat} {msgSize : CInt} {s : State} :
    ∀ es s', exec (step N msgSize) s es = some s' →
      s.printed <+: s'.printed := by
  refine exec_history (fun _ (s' : State) => s.printed <+: s'.printed)
    (List.prefix_refl _) ?_
  intro _ m e s' ih hstep
  rcases step_cases hstep with ⟨_, -, -, rfl⟩ | ⟨now, -, -, rfl⟩ |
    ⟨_, -, -, -, rfl⟩ | ⟨_, -, -, -, rfl⟩
  · exact ih
  · exact ih.trans (List.prefix_append _ _)
  · exact ih
  · exact ih

/-! ## Independence -/

/-- While each connection is served, the reports are the ones that a fresh
server prints when it is given that connection only. -/
def Independent (N : Nat) (msgSize : CInt) (conns : List Connection) : Prop :=
  ∀ pre c post, conns = pre ++ c :: post → ∃ s s' f,
    exec (step N msgSize) init (session pre) = some s ∧
    exec (step N msgSize) s c.events = some s' ∧
    exec (step N msgSize) init c.events = some f ∧
    s'.printed = s.printed ++ f.printed

/-- The sequences differ only in their clock readings. -/
def SameReads (conns' conns : List Connection) : Prop :=
  conns'.map (fun c => (c.csock, c.readResults)) =
    conns.map fun c => (c.csock, c.readResults)

theorem SameReads.ticks {conns' conns : List Connection}
    (h : SameReads conns' conns) :
    conns'.map Connection.ticks = conns.map Connection.ticks := by
  have hlen := congrArg (List.map fun p : CInt × List CInt => p.2.length) h
  simp only [List.map_map, Function.comp_def, ← Connection.ticks_eq] at hlen
  exact hlen

/-- Each connection begins with the window closed, or ends before the window
that it found open does.  `ts` are the passes of the connections. -/
def Aligned (N : Nat) (ts : List Nat) : Prop :=
  ∀ pre t post, ts = pre ++ t :: post →
    pre.sum % (N + 1) = 0 ∨ pre.sum % (N + 1) + t ≤ N

theorem blockEnds_session {N : Nat} (hN : 1 ≤ N) {msgSize : CInt}
    {pre : List Connection} {c : Connection} {s s' : State}
    (hs : exec (step N msgSize) init (session pre) = some s)
    (hs' : exec (step N msgSize) s c.events = some s') :
    s'.printed.map (fun r => (r.start, r.stop)) =
      blockEnds N (clocks (session pre) ++ c.clockReadings) := by
  rw [← c.clocks_events, ← clocks_append]
  exact (ran_exec hN msgSize _ _ (exec_append_iff.mpr ⟨s, hs, hs'⟩)).printed

theorem blockEnds_connection {N : Nat} (hN : 1 ≤ N) {msgSize : CInt}
    {c : Connection} {f : State}
    (hf : exec (step N msgSize) init c.events = some f) :
    f.printed.map (fun r => (r.start, r.stop)) =
      blockEnds N c.clockReadings := by
  rw [← c.clocks_events]
  exact (ran_exec hN msgSize _ _ hf).printed

/-- A connection that ends before the open window does prints nothing. -/
theorem printed_of_unfinished {N : Nat} (hN : 1 ≤ N) {msgSize : CInt}
    {pre : List Connection} {c : Connection} {s s' f : State}
    (hs : exec (step N msgSize) init (session pre) = some s)
    (hs' : exec (step N msgSize) s c.events = some s')
    (hf : exec (step N msgSize) init c.events = some f)
    (hshort : (pre.map Connection.ticks).sum % (N + 1) + c.ticks ≤ N) :
    s'.printed = s.printed ++ f.printed := by
  have hbefore := congrArg List.length (ran_exec hN msgSize _ _ hs).printed
  have hafter := congrArg List.length (blockEnds_session hN hs hs')
  have hfresh := congrArg List.length (blockEnds_connection hN hf)
  simp only [List.length_map, blockEnds_length, List.length_append,
    length_clocks_session, c.length_clockReadings] at hbefore hafter hfresh
  have hfreshNil : f.printed = [] := by
    apply List.length_eq_zero_iff.mp
    rw [hfresh]
    exact Nat.div_eq_of_lt (by omega)
  have hsame : s'.printed.length = s.printed.length := by
    have hdiv := Nat.div_add_mod' (pre.map Connection.ticks).sum (N + 1)
    have hnext := Nat.succ_mul ((pre.map Connection.ticks).sum / (N + 1))
      (N + 1)
    rw [hafter, hbefore]
    exact Nat.div_eq_of_lt_le (by omega) (by rw [Nat.succ_mul]; omega)
  rw [hfreshNil, List.append_nil]
  exact ((printed_mono _ _ hs').eq_of_length hsame.symm).symm

theorem independent_of_aligned {N : Nat} (hN : 1 ≤ N) (msgSize : CInt)
    {conns : List Connection}
    (h : Aligned N (conns.map Connection.ticks)) :
    Independent N msgSize conns := by
  intro pre c post hsplit
  obtain ⟨s, hs, hspc⟩ := exec_session N msgSize pre (s := init) rfl
  obtain ⟨s', hs', -⟩ := exec_connection N msgSize c hspc
  obtain ⟨f, hf, -⟩ := exec_connection N msgSize c (s := init) rfl
  refine ⟨s, s', f, hs, hs', hf, ?_⟩
  have hran := ran_exec hN msgSize _ _ hs
  have hcount := hran.window.count
  rw [length_clocks_session] at hcount
  rcases h (pre.map Connection.ticks) c.ticks (post.map Connection.ticks)
    (by rw [hsplit, List.map_append, List.map_cons]) with hclosed | hshort
  · obtain ⟨s'', hs'', hprinted⟩ :=
      leaves_no_trace hran hspc (hcount.trans hclosed) hf
    obtain rfl : s' = s'' := Option.some.inj (hs'.symm.trans hs'')
    exact hprinted
  · exact printed_of_unfinished hN hs hs' hf hshort

/-- A window that is opened before a connection and closed during it is
reported with a start stamp that the fresh server never sees. -/
theorem not_independent_of_leak {N : Nat} (hN : 1 ≤ N) (msgSize : CInt)
    {pre post : List Connection} {c : Connection}
    (hdisjoint : ∀ t ∈ clocks (session pre), t ∉ c.clockReadings)
    (hopen : (pre.map Connection.ticks).sum % (N + 1) ≠ 0)
    (hclose : N < (pre.map Connection.ticks).sum % (N + 1) + c.ticks) :
    ¬Independent N msgSize (pre ++ c :: post) := by
  intro hind
  obtain ⟨s, s', f, hs, hs', hf, hprinted⟩ := hind pre c post rfl
  have hends := congrArg (List.map fun r => (r.start, r.stop)) hprinted
  rw [List.map_append, blockEnds_session hN hs hs',
    (ran_exec hN msgSize _ _ hs).printed, blockEnds_connection hN hf] at hends
  refine blockEnds_append_ne hdisjoint ?_ ?_ hends
  · rw [length_clocks_session]
    exact hopen
  · rw [length_clocks_session, c.length_clockReadings]
    exact hclose

/-- **Independence of connections.**  Given the read results of a sequence of
connections, every connection is measured as by a fresh server under every
clock if and only if the connections are aligned with the windows. -/
theorem tcp_connections_independent_iff (N : Nat) (hN : 1 ≤ N)
    (msgSize : CInt) (conns : List Connection) :
    (∀ conns', SameReads conns' conns → Independent N msgSize conns') ↔
      Aligned N (conns.map Connection.ticks) := by
  constructor
  · intro hall pre t post hsplit
    by_contra hnot
    obtain ⟨hopen, hclose⟩ := not_or.mp hnot
    obtain ⟨cs, rest, rfl, rfl, hrest⟩ := List.map_eq_append_iff.mp hsplit
    obtain ⟨c, ds, rfl, rfl, rfl⟩ := List.map_eq_cons_iff.mp hrest
    -- a clock that jumps exactly when this connection is accepted
    have hsame : SameReads (cs.map (Connection.retime ⟨0, 0⟩) ++
        c.retime ⟨1, 0⟩ :: ds) (cs ++ c :: ds) := by
      simp only [SameReads, List.map_append, List.map_map, List.map_cons,
        Function.comp_def, Connection.readResults_retime]
      rfl
    have hticks : (cs.map (Connection.retime ⟨0, 0⟩)).map Connection.ticks =
        cs.map Connection.ticks := by
      simp [Function.comp_def, Connection.ticks_retime]
    refine not_independent_of_leak hN msgSize ?_ ?_ ?_ (hall _ hsame)
    · intro t ht hmem
      rw [clocks_session, List.mem_flatMap] at ht
      obtain ⟨b, hb, ht⟩ := ht
      obtain ⟨a, -, rfl⟩ := List.mem_map.mp hb
      have hzero := Connection.mem_clockReadings_retime ht
      have hone := Connection.mem_clockReadings_retime hmem
      exact absurd (hzero.symm.trans hone) (by decide)
    · rw [hticks]
      exact hopen
    · rw [hticks, Connection.ticks_retime]
      exact Nat.lt_of_not_le hclose
  · intro haligned conns' hsame
    apply independent_of_aligned hN msgSize
    rw [hsame.ticks]
    exact haligned

/-- A connection whose first read fails. -/
def refused : Connection where
  csock := 3
  accepted := by decide
  passes := []
  succeed := by simp
  last := (⟨1, 0⟩, -1)
  fails := by decide

/-- A connection with `k` reads of 5 bytes. -/
def steady (k : Nat) : Connection where
  csock := 4
  accepted := by decide
  passes := List.replicate k (⟨5, 0⟩, 5)
  succeed := by
    intro p hp
    rw [List.eq_of_mem_replicate hp]
    decide
  last := (⟨5, 0⟩, -1)
  fails := by decide

theorem steady_ticks (k : Nat) : (steady k).ticks = k + 1 := by
  simp [steady, Connection.ticks]

theorem steady_clockReadings {k : Nat} {t : Timeval}
    (h : t ∈ (steady k).clockReadings) : t = ⟨5, 0⟩ := by
  obtain ⟨p, hp, rfl⟩ := List.mem_map.mp h
  rcases List.mem_append.mp hp with hpass | hlast
  · rw [List.eq_of_mem_replicate hpass]
  · rw [List.mem_singleton.mp hlast]
    rfl

theorem tcp_connections_independent_aligned :
    (∀ conns', SameReads conns' [steady 100000, refused] →
        Independent 100000 64 conns') ↔
      Aligned 100000 ([steady 100000, refused].map Connection.ticks) :=
  tcp_connections_independent_iff 100000 (by decide) 64
    [steady 100000, refused]

/-- The refused connection opens a window at 1 s that the next connection
closes: its report starts at 1 s, although that connection only saw the time
5 s, and a fresh server prints none. -/
theorem tcp_connections_independent_refused :
    ¬Independent 100000 64 [refused, steady 99999] := by
  show ¬Independent 100000 64 ([refused] ++ steady 99999 :: [])
  refine not_independent_of_leak (by decide) 64 ?_ (by decide) ?_
  · intro t ht hmem
    rw [clocks_session] at ht
    obtain rfl : t = ⟨1, 0⟩ := List.mem_singleton.mp ht
    exact absurd (steady_clockReadings hmem) (by decide)
  · rw [steady_ticks]
    decide

end ZenohPicoPerf.Throughput.TcpSub

import ZenohPicoPerf.Throughput.ZenohSubReports

/-!
# z_sub_thr: the window of a report

The subscriber is live before `main` takes its first start stamp, and after
each report the counter is cleared one statement before the clock is stamped
again.  A message that is handled in either gap is counted in the next report,
whose start stamp is taken only after it.

## Main results

* `windowed_step` — waiting messages lie behind the start stamp.
* `counted_in_window_of_meets` — the reports of a run without such a message.
* `sub_thr_windows_iff` — when every counted message was handled between the
  stamps of its report.
-/

namespace ZenohPicoPerf.Throughput.ZenohSub

open ZenohPicoPerf.Foundation.Memory
open ZenohPicoPerf.Foundation.Run
open ZenohPicoPerf.Common.Clock

/-- Every message that a report counts was handled between its stamps. -/
def CountedInWindow (p : State × Seen) : Prop :=
  ∀ t ∈ p.2.tallies, ∀ m ∈ t.counted, t.startAt < m.time ∧ m.time < t.stopAt

instance (p : State × Seen) : Decidable (CountedInWindow p) :=
  inferInstanceAs (Decidable (∀ t ∈ p.2.tallies, ∀ m ∈ t.counted,
    t.startAt < m.time ∧ m.time < t.stopAt))

/-- No increment comes before the first start stamp or between an exchange
and the start stamp behind it. -/
def Timed (s : State) (e : Event) : Prop :=
  e = .fetchAdd → ¬(s.pc = .startup ∨ s.pc = .exchanged)

/-- What every step with `Timed` keeps. -/
structure Windowed (p : State × Seen) : Prop where
  start : p.1.pc ≠ .startup → p.2.startAt < p.2.now
  clear : p.1.pc = .startup ∨ p.1.pc = .exchanged → p.2.counted = []
  started : ∀ m ∈ waiting p, p.2.startAt < m.time ∧ m.time < p.2.now
  stop : p.1.pc = .stamped → ∀ m ∈ waiting p, m.time < p.2.stopAt
  tallies : CountedInWindow p

theorem waiting_unstamped {p : State × Seen}
    (hpc : p.1.pc = .startup ∨ p.1.pc = .exchanged) :
    waiting p = p.2.counted := by
  rcases hpc with hpc | hpc <;> simp [waiting, hpc]

theorem Windowed.start_later {p : State × Seen} (h : Windowed p) :
    p.1.pc ≠ .startup → p.2.startAt < p.2.now + 1 :=
  fun hpc => (h.start hpc).trans (Nat.lt_succ_self _)

theorem Windowed.started_later {p : State × Seen} (h : Windowed p) :
    ∀ m ∈ waiting p, p.2.startAt < m.time ∧ m.time < p.2.now + 1 := by
  intro m hm
  have hstarted := h.started m hm
  omega

/-- An increment behind the start stamp adds a message of its window. -/
theorem windowed_fetchAdd {scenario : Option String} {p : State × Seen}
    (h : Windowed p) (htimed : Timed p.1 .fetchAdd) :
    Windowed (next scenario p.1 .fetchAdd, see p.2 p.1 .fetchAdd) := by
  have hopen : ¬(p.1.pc = .startup ∨ p.1.pc = .exchanged) := htimed rfl
  have hbefore : p.2.startAt < p.2.now := h.start fun hpc => hopen (Or.inl hpc)
  refine
    { start := h.start_later
      clear := fun hpc => absurd hpc hopen
      started := ?_
      stop := ?_
      tallies := h.tallies }
  · intro m hm
    rcases mem_waiting_fetchAdd hm with hold | ⟨-, rfl⟩
    · exact h.started_later m hold
    · exact ⟨hbefore, Nat.lt_succ_self _⟩
  · intro hpc m hm
    rcases mem_waiting_fetchAdd hm with hold | ⟨hfree, -⟩
    · exact h.stop hpc m hold
    · exact absurd (Or.inr (Or.inl hpc)) hfree

/-- The report that is printed counts the waiting messages, which stand
between its stamps. -/
theorem windowed_print {scenario : Option String} {p : State × Seen}
    (h : Windowed p) (hpc : p.1.pc = .stamped) :
    Windowed (next scenario p.1 .print, see p.2 p.1 .print) := by
  have hloaded : waiting p = p.2.loaded := by simp [waiting, hpc]
  refine
    { start := fun _ => h.start_later (by rw [hpc]; decide)
      clear := fun hpc' => by simp [next] at hpc'
      started := fun m hm => by cases hm
      stop := fun hpc' => by simp [next] at hpc'
      tallies := ?_ }
  intro t ht
  rcases List.mem_append.mp ht with hold | hnew
  · exact h.tallies t hold
  · rw [List.mem_singleton.mp hnew, ← hloaded]
    exact fun m hm => ⟨(h.started m hm).1, h.stop hpc m hm⟩

theorem windowed_step {scenario : Option String} {p p' : State × Seen}
    {e : Event} (h : Windowed p) (htimed : Timed p.1 e)
    (hstep : watched scenario p e = some p') : Windowed p' := by
  obtain ⟨hen, rfl⟩ := watched_cases hstep
  have hwaiting : OfMain e → e ≠ .print →
      waiting (next scenario p.1 e, see p.2 p.1 e) = waiting p :=
    waiting_next scenario hen
  cases e with
  | storeSize len =>
      exact
        { start := h.start_later
          clear := h.clear
          started := h.started_later
          stop := h.stop
          tallies := h.tallies }
  | fetchAdd => exact windowed_fetchAdd h htimed
  | stampStart now =>
      have hnone := hwaiting trivial (by simp)
      rw [waiting_unstamped hen, h.clear hen] at hnone
      refine
        { start := fun _ => Nat.lt_succ_self _
          clear := fun hpc => by simp [next] at hpc
          started := ?_
          stop := fun hpc => by simp [next] at hpc
          tallies := h.tallies }
      rw [hnone]
      simp
  | load =>
      have hpc : p.1.pc = .top := hen
      have hsame := hwaiting trivial (by simp)
      refine
        { start := fun _ => h.start_later (by rw [hpc]; decide)
          clear := ?_
          started := ?_
          stop := ?_
          tallies := h.tallies }
      · intro hpc'
        by_cases hpos : 0 < p.1.counter.toNat <;> simp [next, hpos] at hpc'
      · rw [hsame]
        exact h.started_later
      · intro hpc'
        by_cases hpos : 0 < p.1.counter.toNat <;> simp [next, hpos] at hpc'
  | stampStop now =>
      have hpc : p.1.pc = .loaded := hen
      have hsame := hwaiting trivial (by simp)
      refine
        { start := fun _ => h.start_later (by rw [hpc]; decide)
          clear := fun hpc' => by simp [next] at hpc'
          started := ?_
          stop := ?_
          tallies := h.tallies }
      · rw [hsame]
        exact h.started_later
      · rw [hsame]
        exact fun _ m hm => (h.started m hm).2
  | print => exact windowed_print h hen
  | exchange =>
      have hpc : p.1.pc = .printed := hen
      exact
        { start := fun _ => h.start_later (by rw [hpc]; decide)
          clear := fun _ => rfl
          started := fun m hm => by cases hm
          stop := fun hpc' => by simp [next] at hpc'
          tallies := h.tallies }

theorem windowed_exec (scenario : Option String) (es : List Event)
    (p : State × Seen)
    (hmeets : Meets (watched scenario) (fun p e => Timed p.1 e)
      (init, Seen.init) es)
    (h : exec (watched scenario) (init, Seen.init) es = some p) :
    Windowed p := by
  refine exec_history_of_meets (fun _ => Windowed) ?_ ?_ es p hmeets h
  · exact
      { start := fun hpc => absurd rfl hpc
        clear := fun _ => rfl
        started := fun m hm => by cases hm
        stop := fun hpc => by simp [init] at hpc
        tallies := fun t ht => by cases ht }
  · exact fun _ _ _ _ hwindowed htimed => windowed_step hwindowed htimed

/-- A run in which no message is counted in a gap counts every message in its
window. -/
theorem counted_in_window_of_meets (scenario : Option String)
    {es : List Event} {p : State × Seen}
    (hmeets : Meets (step scenario) Timed init es)
    (h : exec (watched scenario) (init, Seen.init) es = some p) :
    CountedInWindow p :=
  (windowed_exec scenario es p (meets_observed.mpr hmeets) h).tallies

/-- A message that is handled while the clock is not stamped is reported in
front of its window, if `main` goes on alone. -/
theorem misplaced_of_early {scenario : Option String} {p p' : State × Seen}
    {e : Event} (htallied : Tallied p) (h : Windowed p)
    (htimed : ¬Timed p.1 e) (hstep : watched scenario p e = some p') :
    ∃ fs q, (∀ f ∈ fs, OfMain f) ∧
      exec (watched scenario) p' fs = some q ∧ ¬CountedInWindow q := by
  obtain ⟨-, rfl⟩ := watched_cases hstep
  simp only [Timed, Classical.not_imp, not_not] at htimed
  obtain ⟨rfl, hpc⟩ := htimed
  have hempty := h.clear hpc
  have hzero : p.1.counter = 0 := by
    have hlength := htallied.counter
    rw [hempty] at hlength
    exact BitVec.eq_of_toNat_eq hlength.symm
  have hcounted : (see p.2 p.1 .fetchAdd).counted =
      [{ len := p.2.len, time := p.2.now }] := by
    simp [see, Seen.note, Seen.handle, hzero, hempty]
  obtain ⟨fs, q, r, t, hfs, hq, -, htallies, -, hwaiting, hstart⟩ :=
    canReport_unstamped scenario
      (p := (next scenario p.1 .fetchAdd, see p.2 p.1 .fetchAdd)) hpc
      (by simp [next, increment, hzero])
  refine ⟨fs, q, hfs, hq, ?_⟩
  intro hall
  have hlast : waiting (next scenario p.1 .fetchAdd, see p.2 p.1 .fetchAdd) =
      (see p.2 p.1 .fetchAdd).counted := waiting_unstamped hpc
  rw [hlast, hcounted] at hwaiting
  have hbehind := (hall t (by rw [htallies]; simp)
    { len := p.2.len, time := p.2.now } (by rw [hwaiting]; simp)).1
  rw [hstart] at hbehind
  exact absurd hbehind (Nat.not_lt.mpr (Nat.le_succ _))

/-- **The window of a report.**  In a run and in whatever `main` alone makes
of any beginning of it, every message that a report counts was handled after
its start stamp and before its end stamp, if and only if no increment comes
before the first start stamp or between an exchange and the next start
stamp. -/
theorem sub_thr_windows_iff (scenario : Option String) (es : List Event)
    (s : State) (h : exec (step scenario) init es = some s) :
    (∀ pre fs p, pre <+: es → (∀ f ∈ fs, OfMain f) →
      exec (watched scenario) (init, Seen.init) (pre ++ fs) = some p →
      CountedInWindow p) ↔ Meets (step scenario) Timed init es := by
  obtain ⟨g, hg⟩ := exec_observed_exists see Seen.init h
  have hcontinuations := meets_iff_continuations
    (fun p e => Timed p.1 e) CountedInWindow (fun _ => True) OfMain
    ?_ ?_ ?_ ?_ (fun _ _ => trivial) hg
  · rw [← hcontinuations]
    exact meets_observed
  · exact fun _ _ => trivial
  · rintro p e he rfl
    exact he.elim
  · intro es p _ hmeets hp
    exact (windowed_exec scenario es p hmeets hp).tallies
  · intro es p e p' _ _ hmeets hp hstep htimed
    exact misplaced_of_early (tallied_exec scenario es p hp)
      (windowed_exec scenario es p hmeets hp) htimed hstep

theorem sub_thr_windows_late :
    (∀ pre fs p, pre <+: report (message 8) (message 8) [] →
      (∀ f ∈ fs, OfMain f) →
      exec (watched none) (init, Seen.init) (pre ++ fs) = some p →
      CountedInWindow p) ↔
    Meets (step none) Timed init (report (message 8) (message 8) []) :=
  sub_thr_windows_iff none (report (message 8) (message 8) []) _ rfl

/-- A message that is handled before the first start stamp is the one message
that the first report counts. -/
theorem sub_thr_windows_early :
    ∃ p, exec (watched none) (init, Seen.init) (message 8 ++ report [] [] []) =
        some p ∧
      p.1.reports.map Report.received = [1] ∧
      p.2.tallies = [{ counted := [{ len := 8, time := 1 }], startAt := 2,
                       stopAt := 4 }] ∧
      ¬CountedInWindow p :=
  ⟨_, rfl, rfl, rfl, by decide⟩

end ZenohPicoPerf.Throughput.ZenohSub

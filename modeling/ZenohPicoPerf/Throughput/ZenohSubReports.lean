import ZenohPicoPerf.Throughput.ZenohSub
import ZenohPicoPerf.Foundation.Schedule

/-!
# z_sub_thr: what a report counts

A report prints one payload size, one number of messages and the time between
two stamps, but the three are sampled at different moments: `payload_size`
when the line is printed, the number at the load, and the start stamp some
time after the exchange.  An observer records for every report the messages
that its number counts, each with its length and the moment of its increment.

## Main results

* `tallied_exec` — the recorded messages are as many as the printed number.
* `silent_next` — what the statements of `main` leave alone.
* `canReport_of_pending` — a message that was counted is reported whenever
  `main` goes on alone.
-/

namespace ZenohPicoPerf.Throughput.ZenohSub

open ZenohPicoPerf.Foundation.Memory
open ZenohPicoPerf.Foundation.Run
open ZenohPicoPerf.Common.Clock

/-- A message with its payload length and the moment of its increment. -/
structure Handled where
  len : Word
  time : Nat
deriving DecidableEq, Repr

/-- The messages that a report counts, and the moments of its stamps. -/
structure Tally where
  counted : List Handled
  startAt : Nat
  stopAt : Nat
deriving DecidableEq, Repr

/-- `now` is the number of events so far and `len` the length of the message
that is being handled.  `counted` are the messages behind the value of
`counter`, `loaded` those behind `received`. -/
structure Seen where
  now : Nat
  len : Word
  counted : List Handled
  loaded : List Handled
  startAt : Nat
  stopAt : Nat
  tallies : List Tally
deriving DecidableEq, Repr

def Seen.init : Seen :=
  { now := 0, len := 0, counted := [], loaded := [], startAt := 0,
    stopAt := 0, tallies := [] }

/-- An increment that wraps `counter` leaves it with nothing to count. -/
def Seen.handle (g : Seen) (counter : Word) : Seen :=
  { g with
    counted := if counter + 1 = 0 then []
      else g.counted ++ [{ len := g.len, time := g.now }] }

def Seen.note (g : Seen) (s : State) : Event → Seen
  | .storeSize len => { g with len := len }
  | .fetchAdd => g.handle s.counter
  | .stampStart _ => { g with startAt := g.now }
  | .load => { g with loaded := g.counted }
  | .stampStop _ => { g with stopAt := g.now }
  | .print =>
      { g with
        tallies := g.tallies ++
          [{ counted := g.loaded, startAt := g.startAt, stopAt := g.stopAt }] }
  | .exchange => { g with loaded := g.counted, counted := [] }

def see (g : Seen) (s : State) (e : Event) : Seen :=
  { g.note s e with now := g.now + 1 }

/-- The program beside the observer. -/
abbrev watched (scenario : Option String) :
    State × Seen → Event → Option (State × Seen) :=
  observed (step scenario) see

theorem watched_cases {scenario : Option String} {p p' : State × Seen}
    {e : Event} (h : watched scenario p e = some p') :
    enabled p.1 e ∧ p' = (next scenario p.1 e, see p.2 p.1 e) := by
  obtain ⟨hstep, hsee⟩ := observed_eq_some.mp h
  obtain ⟨hen, hnext⟩ := guarded_eq_some.mp hstep
  exact ⟨hen, Prod.ext hnext hsee⟩

/-! ## The tallies count what the reports count -/

/-- As many messages are recorded as the program counts. -/
structure Tallied (p : State × Seen) : Prop where
  counter : p.2.counted.length = p.1.counter.toNat
  received : p.2.loaded.length = p.1.received.toNat
  reports : List.Forall₂ (fun r t => t.counted.length = r.received.toNat)
    p.1.reports p.2.tallies

theorem handle_counted (g : Seen) {counter : Word}
    (h : g.counted.length = counter.toNat) :
    (g.handle counter).counted.length = (counter + 1).toNat := by
  have hone : (1 : Word).toNat = 1 := rfl
  have hlt := counter.isLt
  unfold Seen.handle
  by_cases hwrap : counter + 1 = 0
  · rw [if_pos hwrap, hwrap]
    rfl
  · have hne : (counter + 1).toNat ≠ 0 := by
      intro hzero
      exact hwrap (BitVec.eq_of_toNat_eq hzero)
    rw [BitVec.toNat_add, hone] at hne ⊢
    simp only [if_neg hwrap, List.length_append, List.length_singleton, h]
    omega

theorem tallied_step {scenario : Option String} {p p' : State × Seen}
    {e : Event} (h : Tallied p) (hstep : watched scenario p e = some p') :
    Tallied p' := by
  obtain ⟨hen, rfl⟩ := watched_cases hstep
  have hcounter := h.counter
  cases e with
  | storeSize len | stampStart now | stampStop now =>
      exact { counter := h.counter, received := h.received,
              reports := h.reports }
  | fetchAdd =>
      exact { counter := handle_counted p.2 hcounter, received := h.received,
              reports := h.reports }
  | load =>
      exact { counter := h.counter, received := h.counter,
              reports := h.reports }
  | print =>
      exact
        { counter := h.counter
          received := h.received
          reports := List.rel_append h.reports
            (List.Forall₂.cons h.received .nil) }
  | exchange =>
      exact { counter := rfl, received := h.counter, reports := h.reports }

theorem tallied_exec (scenario : Option String) :
    ∀ es p, exec (watched scenario) (init, Seen.init) es = some p →
      Tallied p := by
  apply exec_history fun _ => Tallied
  · exact { counter := rfl, received := rfl, reports := List.Forall₂.nil }
  · exact fun _ _ _ _ => tallied_step

/-! ## What `main` reports when it is left alone -/

/-- The messages that a report can still count. -/
def waiting (p : State × Seen) : List Handled :=
  match p.1.pc with
  | .loaded | .stamped => p.2.loaded
  | .printed => []
  | .startup | .top | .exchanged => p.2.counted

theorem waiting_length {p : State × Seen} (h : Tallied p) :
    (waiting p).length = pending p.1 := by
  unfold waiting pending
  cases p.1.pc with
  | loaded | stamped => exact h.received
  | printed => rfl
  | startup | top | exchanged => exact h.counter

theorem mem_handle {g : Seen} {counter : Word} {m : Handled}
    (h : m ∈ (g.handle counter).counted) :
    m ∈ g.counted ∨ m = { len := g.len, time := g.now } := by
  simp only [Seen.handle] at h
  by_cases hwrap : counter + 1 = 0
  · rw [if_pos hwrap] at h
    cases h
  · rw [if_neg hwrap, List.mem_append, List.mem_singleton] at h
    exact h

/-- An increment adds at most the message being handled. -/
theorem mem_waiting_fetchAdd {scenario : Option String} {p : State × Seen}
    {m : Handled}
    (h : m ∈ waiting (next scenario p.1 .fetchAdd, see p.2 p.1 .fetchAdd)) :
    m ∈ waiting p ∨ ¬p.1.pc.Reporting ∧
      m = { len := p.2.len, time := p.2.now } := by
  unfold waiting at h ⊢
  cases hpc : p.1.pc with
  | loaded | stamped | printed =>
      simp only [next, increment, hpc] at h
      exact Or.inl h
  | startup | top | exchanged =>
      simp only [next, increment, hpc] at h
      rcases mem_handle h with hold | hnew
      · exact Or.inl hold
      · exact Or.inr ⟨by simp [Pc.Reporting], hnew⟩

/-- The statements of `main`. -/
def OfMain : Event → Prop
  | .storeSize _ | .fetchAdd => False
  | .stampStart _ | .load | .stampStop _ | .print | .exchange => True

/-- Left alone, `main` prints a report that counts the waiting messages and
has the start stamp of the moment `startAt`. -/
def CanReport (scenario : Option String) (p : State × Seen) (startAt : Nat) :
    Prop :=
  ∃ fs q r t, (∀ f ∈ fs, OfMain f) ∧ exec (watched scenario) p fs = some q ∧
    q.1.reports = p.1.reports ++ [r] ∧ q.2.tallies = p.2.tallies ++ [t] ∧
    r.payloadSize = p.1.payloadSize ∧ t.counted = waiting p ∧
    t.startAt = startAt

/-- A statement of `main` that changes neither sizes nor output. -/
structure Silent (p p' : State × Seen) : Prop where
  payloadSize : p'.1.payloadSize = p.1.payloadSize
  reports : p'.1.reports = p.1.reports
  tallies : p'.2.tallies = p.2.tallies
  waiting : waiting p' = waiting p

/-- A waiting message moves from `counter` to `received` at the load, and the
other statements let it wait. -/
theorem waiting_next (scenario : Option String) {p : State × Seen} {e : Event}
    (hen : enabled p.1 e) (hmain : OfMain e) (hprint : e ≠ .print) :
    waiting (next scenario p.1 e, see p.2 p.1 e) = waiting p := by
  cases e with
  | storeSize len => exact hmain.elim
  | fetchAdd => exact hmain.elim
  | stampStart now =>
      rcases hen with hpc | hpc <;>
        simp [waiting, next, see, Seen.note, hpc]
  | load =>
      have hpc : p.1.pc = .top := hen
      by_cases hpos : 0 < p.1.counter.toNat <;>
        simp [waiting, next, see, Seen.note, hpc, hpos]
  | stampStop now =>
      have hpc : p.1.pc = .loaded := hen
      simp [waiting, next, see, Seen.note, hpc]
  | print => exact absurd rfl hprint
  | exchange =>
      have hpc : p.1.pc = .printed := hen
      simp [waiting, next, see, Seen.note, hpc]

/-- Only the print of a report is not silent. -/
theorem silent_next (scenario : Option String) {p : State × Seen} {e : Event}
    (hen : enabled p.1 e) (hmain : OfMain e) (hprint : e ≠ .print) :
    Silent p (next scenario p.1 e, see p.2 p.1 e) := by
  have hwaiting := waiting_next scenario hen hmain hprint
  cases e with
  | storeSize len => exact hmain.elim
  | fetchAdd => exact hmain.elim
  | print => exact absurd rfl hprint
  | stampStart now | load | stampStop now | exchange =>
      exact { payloadSize := rfl, reports := rfl, tallies := rfl,
              waiting := hwaiting }

theorem watched_step {scenario : Option String} {p : State × Seen} {e : Event}
    (hen : enabled p.1 e) :
    watched scenario p e = some (next scenario p.1 e, see p.2 p.1 e) :=
  observed_eq_some.mpr ⟨guarded_eq_some.mpr ⟨hen, rfl⟩, rfl⟩

theorem CanReport.step {scenario : Option String} {p : State × Seen}
    {startAt : Nat} {e : Event} (hen : enabled p.1 e) (hmain : OfMain e)
    (hprint : e ≠ .print)
    (h : CanReport scenario (next scenario p.1 e, see p.2 p.1 e) startAt) :
    CanReport scenario p startAt := by
  obtain ⟨fs, q, r, t, hfs, hq, hreports, htallies, hsize, hcounted, hstart⟩ :=
    h
  have hsilent := silent_next scenario hen hmain hprint
  rw [hsilent.reports] at hreports
  rw [hsilent.tallies] at htallies
  rw [hsilent.payloadSize] at hsize
  rw [hsilent.waiting] at hcounted
  have hall : ∀ f ∈ e :: fs, OfMain f := by
    intro f hf
    rcases List.mem_cons.mp hf with rfl | htail
    · exact hmain
    · exact hfs f htail
  have hrun : exec (watched scenario) p (e :: fs) = some q :=
    exec_cons_iff.mpr ⟨_, watched_step hen, hq⟩
  exact ⟨e :: fs, q, r, t, hall, hrun, hreports, htallies, hsize, hcounted,
    hstart⟩

theorem canReport_stamped (scenario : Option String) {p : State × Seen}
    (hpc : p.1.pc = .stamped) : CanReport scenario p p.2.startAt := by
  refine ⟨[.print], _, _, _, by simp [OfMain],
    (exec_singleton _ _ _).trans (watched_step hpc), rfl, rfl, rfl, ?_, rfl⟩
  simp [waiting, hpc]

theorem canReport_loaded (scenario : Option String) {p : State × Seen}
    (hpc : p.1.pc = .loaded) : CanReport scenario p p.2.startAt :=
  CanReport.step (e := .stampStop ⟨0, 0⟩) hpc trivial (by simp)
    (canReport_stamped scenario rfl)

theorem canReport_top (scenario : Option String) {p : State × Seen}
    (hpc : p.1.pc = .top) (hpos : 0 < p.1.counter.toNat) :
    CanReport scenario p p.2.startAt := by
  have hloaded : (next scenario p.1 .load).pc = .loaded := by
    simp [next, hpos]
  exact CanReport.step (e := .load) hpc trivial (by simp)
    (canReport_loaded scenario hloaded)

/-- Before the start stamp, the report gets the stamp that is still to come. -/
theorem canReport_unstamped (scenario : Option String) {p : State × Seen}
    (hpc : p.1.pc = .startup ∨ p.1.pc = .exchanged)
    (hpos : 0 < p.1.counter.toNat) : CanReport scenario p p.2.now :=
  CanReport.step (e := .stampStart ⟨0, 0⟩) hpc trivial (by simp)
    (canReport_top scenario rfl hpos)

theorem canReport_of_pending (scenario : Option String) {p : State × Seen}
    (hpending : pending p.1 ≠ 0) :
    ∃ startAt, CanReport scenario p startAt := by
  have hcounter : pending p.1 = p.1.counter.toNat → 0 < p.1.counter.toNat := by
    omega
  cases hpc : p.1.pc with
  | startup =>
      have hpos := hcounter (by simp [pending, hpc])
      exact ⟨_, canReport_unstamped scenario (Or.inl hpc) hpos⟩
  | top =>
      have hpos := hcounter (by simp [pending, hpc])
      exact ⟨_, canReport_top scenario hpc hpos⟩
  | loaded => exact ⟨_, canReport_loaded scenario hpc⟩
  | stamped => exact ⟨_, canReport_stamped scenario hpc⟩
  | printed => exact absurd (by simp [pending, hpc]) hpending
  | exchanged =>
      have hpos := hcounter (by simp [pending, hpc])
      exact ⟨_, canReport_unstamped scenario (Or.inr hpc) hpos⟩

/-! ## Schedules with one report -/

/-- A message of the given length. -/
def message (len : Word) : List Event := [.storeSize len, .fetchAdd]

/-- One report, with the messages that come before its load, before its stop
stamp and after its exchange. -/
def report (counted late next : List Event) : List Event :=
  [.stampStart ⟨0, 0⟩] ++ counted ++ [.load] ++ late ++
    [.stampStop ⟨1, 0⟩, .print, .exchange] ++ next

end ZenohPicoPerf.Throughput.ZenohSub

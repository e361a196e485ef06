import ZenohPicoPerf.Foundation.Schedule

/-!
# z_sub_ovh: waiting for one sample

`data_handler` sets the flag `received`, and `main` spins on the flag before
it undeclares the subscriber.  The loop is `while (received);`, so `main`
leaves it as soon as it finds the flag clear.

## Main results

* `waits_forever` — a sample in front of a test keeps `main` in the loop.
* `sub_ovh_waits_iff` — which runs look as if `main` had waited.
-/

namespace ZenohPicoPerf.Overhead.ZenohSub

open ZenohPicoPerf.Foundation.Run

/-- Where `main` stands: in the loop, behind it, or behind the undeclaration
of the subscriber. -/
inductive Pc where
  | waiting
  | left
  | undeclared
deriving DecidableEq, Repr

structure State where
  pc : Pc
  received : Bool
deriving DecidableEq, Repr

def init : State := { pc := .waiting, received := false }

/-- One test of the loop condition, the undeclaration of the subscriber, and
one run of `data_handler`. -/
inductive Event where
  | test
  | undeclare
  | sample
deriving DecidableEq, Repr

def dataHandler (s : State) : State := { s with received := true }

def enabled (s : State) : Event → Prop
  | .test => s.pc = .waiting
  | .undeclare => s.pc = .left
  | .sample => True

instance (s : State) (e : Event) : Decidable (enabled s e) :=
  match e with
  | .test => inferInstanceAs (Decidable (s.pc = .waiting))
  | .undeclare => inferInstanceAs (Decidable (s.pc = .left))
  | .sample => inferInstanceAs (Decidable True)

def next (s : State) : Event → State
  | .test => { s with pc := if s.received then .waiting else .left }
  | .undeclare => { s with pc := .undeclared }
  | .sample => dataHandler s

def step : State → Event → Option State := guarded enabled next

/-! ## The flag and the loop -/

/-- The flag says whether a sample was handled, and the loop is left only by
a test that no sample precedes. -/
structure Polled (es : List Event) (s : State) : Prop where
  received : s.received = true ↔ .sample ∈ es
  left : s.pc = .left →
    ∃ before gap, es = before ++ .test :: gap ∧ .sample ∉ before

theorem polled_step {es : List Event} {s s' : State} {e : Event}
    (h : Polled es s) (hstep : step s e = some s') :
    Polled (es ++ [e]) s' := by
  obtain ⟨-, rfl⟩ := guarded_eq_some.mp hstep
  have hreceived := h.received
  cases e with
  | test =>
      refine { received := by simp [next, hreceived], left := ?_ }
      intro hpc
      have hclear : s.received ≠ true := by
        intro hset
        simp [next, hset] at hpc
      exact ⟨es, [], rfl, fun hmem => hclear (hreceived.mpr hmem)⟩
  | undeclare =>
      refine { received := by simp [next, hreceived], left := ?_ }
      intro hpc
      cases hpc
  | sample =>
      refine { received := by simp [next, dataHandler], left := ?_ }
      intro hpc
      obtain ⟨before, gap, rfl, hnone⟩ := h.left hpc
      exact ⟨before, gap ++ [.sample], by simp, hnone⟩

theorem polled_exec : ∀ es s, exec step init es = some s → Polled es s := by
  apply exec_history Polled
  · exact { received := by simp [init], left := by simp [init] }
  · exact fun _ _ _ _ => polled_step

/-- With the flag set, `main` never leaves the loop. -/
theorem waits_forever {s : State} (hpc : s.pc = .waiting)
    (hset : s.received = true) :
    ∀ es s', exec step s es = some s' →
      s'.pc = .waiting ∧ s'.received = true := by
  apply exec_history (fun _ (s : State) =>
    s.pc = .waiting ∧ s.received = true)
  · exact ⟨hpc, hset⟩
  · intro es s e s' ⟨hpc, hset⟩ hstep
    obtain ⟨hen, rfl⟩ := guarded_eq_some.mp hstep
    cases e with
    | test => exact ⟨by simp [next, hset], hset⟩
    | undeclare =>
        have hleft : s.pc = .left := hen
        rw [hpc] at hleft
        cases hleft
    | sample => exact ⟨hpc, rfl⟩

/-! ## Runs that look as if `main` had waited -/

/-- `main` undeclares the subscriber only after a sample was handled, and a
test that comes after a sample leaves the loop. -/
def Waits : List Event → Prop :=
  Everywhere fun pre e => ∀ m m', exec step init pre = some m →
    step m e = some m' →
    (e = .undeclare → .sample ∈ pre) ∧
      (e = .test → .sample ∈ pre → m'.pc = .left)

/-- No test comes after a sample, and whenever `main` undeclares the
subscriber, the first sample fell behind a test of the loop. -/
def SampleInGap : List Event → Prop :=
  Everywhere fun pre e =>
    (e = .test → .sample ∉ pre) ∧
      (e = .undeclare → ∃ before gap, pre = before ++ .test :: gap ∧
        .sample ∉ before ∧ .sample ∈ gap)

/-- A test leaves the loop exactly when no sample precedes it. -/
theorem test_leaves_iff {pre : List Event} {m m' : State}
    (h : Polled pre m) (hstep : step m .test = some m') :
    m'.pc = .left ↔ .sample ∉ pre := by
  obtain ⟨-, rfl⟩ := guarded_eq_some.mp hstep
  rw [← h.received]
  cases hset : m.received <;> simp [next, hset]

/-- When `main` undeclares the subscriber, a sample was handled exactly when
one fell into the gap behind the loop. -/
theorem undeclare_gap_iff {pre : List Event} {m m' : State}
    (h : Polled pre m) (hstep : step m .undeclare = some m') :
    .sample ∈ pre ↔ ∃ before gap, pre = before ++ .test :: gap ∧
      .sample ∉ before ∧ .sample ∈ gap := by
  obtain ⟨hpc, -⟩ := guarded_eq_some.mp hstep
  constructor
  · intro hmem
    obtain ⟨before, gap, rfl, hnone⟩ := h.left hpc
    have hgap : .sample ∈ gap := by simpa [hnone] using hmem
    exact ⟨before, gap, rfl, hnone, hgap⟩
  · rintro ⟨before, gap, rfl, -, hgap⟩
    simp [hgap]

/-- **Waiting for the sample.**  In a run of the two tasks `main` undeclares
the subscriber only after a sample and leaves the loop at the first test after
one, if and only if no test comes after a sample and the first sample falls
between the loop and the undeclaration. -/
theorem sub_ovh_waits_iff (es : List Event) (s : State)
    (h : exec step init es = some s) : Waits es ↔ SampleInGap es := by
  apply everywhere_congr h
  intro pre e m m' hm hm'
  have hpolled := polled_exec pre m hm
  rw [forall_step_iff hm hm']
  cases e with
  | test =>
      have hleaves := test_leaves_iff hpolled hm'
      simp only [hleaves, reduceCtorEq, false_implies, true_and, and_true,
        forall_const]
      exact imp_not_self
  | undeclare =>
      have hgap := undeclare_gap_iff hpolled hm'
      simp [hgap]
  | sample => simp

theorem sub_ovh_waits_gap :
    ∃ s, exec step init [.test, .sample, .undeclare] = some s ∧
      (Waits [.test, .sample, .undeclare] ↔
        SampleInGap [.test, .sample, .undeclare]) :=
  ⟨_, rfl, sub_ovh_waits_iff [.test, .sample, .undeclare] _ rfl⟩

/-- `main` undeclares the subscriber at once when no sample has come, and a
sample in front of the first test keeps it in the loop. -/
theorem sub_ovh_waits_not :
    (∃ s, exec step init [.test, .undeclare] = some s ∧
      s.pc = .undeclared ∧ ¬Waits [.test, .undeclare]) ∧
    ∃ s, exec step init [.sample, .test] = some s ∧
      s.pc = .waiting ∧ ¬Waits [.sample, .test] := by
  refine ⟨⟨_, rfl, rfl, ?_⟩, _, rfl, rfl, ?_⟩
  · intro hwaits
    have hsample := (hwaits [.test] .undeclare [] rfl _ _ rfl rfl).1 rfl
    simp at hsample
  · intro hwaits
    have hleft := (hwaits [.sample] .test [] rfl _ _ rfl rfl).2 rfl
    exact absurd (hleft (by simp)) (by decide)

end ZenohPicoPerf.Overhead.ZenohSub

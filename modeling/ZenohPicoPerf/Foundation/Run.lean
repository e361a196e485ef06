import Mathlib.Logic.Relation
import Mathlib.Data.List.Induction

/-!
# Runs of partial step functions

A concurrent program is given by `step : σ → ε → Option σ`: the event `e`
is enabled in `s` exactly when `step s e` is defined.  A schedule is a finite
list of events, and `exec` runs it from a start state.  Nothing here depends
on what the states or the events are.

## Main results

* `exec_snoc` — a run is extended by one event at its end.
* `exec_history` — the invariant rule, for invariants that may mention the
  schedule executed so far.
* `exec_history_of_meets` — the same rule for runs whose steps all satisfy a
  side condition on the state before the step.
* `exec_refines`, `exec_refines_of_invariant` — runs refine an abstract
  relation along a refinement mapping.
* `exec_observed` — a ghost observer does not disturb the run it watches.
* `observed_cost_eq_zero` — a total cost is zero when no step costs anything.
* `exec_simulation` — two runs of one schedule stay related.
* `exec_project` — the run of a component of a system.
* `exec_total` — when every schedule runs.
* `exists_bind_iff` — when a step with a total end is enabled.
-/

namespace ZenohPicoPerf.Foundation.Run

variable {σ τ ε α : Type*}

/-- Execute a schedule; undefined as soon as one event is not enabled. -/
def exec (step : σ → ε → Option σ) : σ → List ε → Option σ
  | s, [] => some s
  | s, e :: es => (step s e).bind fun s' => exec step s' es

@[simp] theorem exec_nil (step : σ → ε → Option σ) (s : σ) :
    exec step s [] = some s := rfl

@[simp] theorem exec_cons (step : σ → ε → Option σ) (s : σ) (e : ε)
    (es : List ε) :
    exec step s (e :: es) = (step s e).bind fun s' => exec step s' es := rfl

/-- Schedules compose. -/
theorem exec_append (step : σ → ε → Option σ) (s : σ) (es fs : List ε) :
    exec step s (es ++ fs) =
      (exec step s es).bind fun s' => exec step s' fs := by
  induction es generalizing s with
  | nil => rfl
  | cons e es ih =>
      simp only [List.cons_append, exec_cons, Option.bind_assoc]
      congr 1
      funext s'
      exact ih s'

theorem exec_append_iff {step : σ → ε → Option σ} {s s' : σ}
    {es fs : List ε} :
    exec step s (es ++ fs) = some s' ↔
      ∃ m, exec step s es = some m ∧ exec step m fs = some s' := by
  rw [exec_append, Option.bind_eq_some_iff]

theorem exec_singleton (step : σ → ε → Option σ) (s : σ) (e : ε) :
    exec step s [e] = step s e := by
  cases hs : step s e <;> simp [hs]

/-- A run is extended by one event at its end. -/
theorem exec_snoc {step : σ → ε → Option σ} {s s' : σ} {es : List ε} {e : ε} :
    exec step s (es ++ [e]) = some s' ↔
      ∃ m, exec step s es = some m ∧ step m e = some s' := by
  rw [exec_append_iff]
  simp only [exec_singleton]

/-- A run of at least one event. -/
theorem exec_cons_iff {step : σ → ε → Option σ} {s s' : σ} {es : List ε}
    {e : ε} :
    exec step s (e :: es) = some s' ↔
      ∃ m, step s e = some m ∧ exec step m es = some s' := by
  rw [exec_cons, Option.bind_eq_some_iff]

/-! ## Guarded updates -/

/-- A step function given by a guard and an update. -/
def guarded (enabled : σ → ε → Prop) [∀ s e, Decidable (enabled s e)]
    (next : σ → ε → σ) (s : σ) (e : ε) : Option σ :=
  if enabled s e then some (next s e) else none

theorem guarded_eq_some {enabled : σ → ε → Prop}
    [∀ s e, Decidable (enabled s e)] {next : σ → ε → σ} {s s' : σ} {e : ε} :
    guarded enabled next s e = some s' ↔ enabled s e ∧ s' = next s e := by
  unfold guarded
  by_cases h : enabled s e <;> simp [h, eq_comm]

/-! ## The invariant rule -/

/-- A property of schedule and state that holds at the start and is kept by
every enabled event holds after every run. -/
theorem exec_history {step : σ → ε → Option σ} {s₀ : σ}
    (P : List ε → σ → Prop) (init : P [] s₀)
    (keep : ∀ es s e s', P es s → step s e = some s' → P (es ++ [e]) s') :
    ∀ es s, exec step s₀ es = some s → P es s := by
  intro es
  induction es using List.reverseRecOn with
  | nil =>
      intro s h
      obtain rfl : s₀ = s := by simpa using h
      exact init
  | append_singleton es e ih =>
      intro s' h
      obtain ⟨s, hes, hstep⟩ := exec_snoc.mp h
      exact keep es s e s' (ih s hes) hstep

/-- If every event is enabled wherever `I` holds, and `I` is kept, every
schedule runs. -/
theorem exec_total {step : σ → ε → Option σ} {s₀ : σ} (I : σ → Prop)
    (init : I s₀) (keep : ∀ s e, I s → ∃ s', step s e = some s' ∧ I s') :
    ∀ es, ∃ s, exec step s₀ es = some s := by
  intro es
  induction es generalizing s₀ with
  | nil => exact ⟨s₀, rfl⟩
  | cons e es ih =>
      obtain ⟨m, hm, hI⟩ := keep s₀ e init
      obtain ⟨s, hs⟩ := ih hI
      exact ⟨s, exec_cons_iff.mpr ⟨m, hm, hs⟩⟩

/-- Every step of the run of `es` from `s` satisfies the condition `C` on the
state before it. -/
def Meets (step : σ → ε → Option σ) (C : σ → ε → Prop) : σ → List ε → Prop
  | _, [] => True
  | s, e :: es => C s e ∧ ∀ s', step s e = some s' → Meets step C s' es

/-- The steps of a run in two parts. -/
theorem meets_append {step : σ → ε → Option σ} {C : σ → ε → Prop} {s m : σ}
    {es fs : List ε} (hm : exec step s es = some m) :
    Meets step C s (es ++ fs) ↔ Meets step C s es ∧ Meets step C m fs := by
  induction es generalizing s with
  | nil =>
      obtain rfl : s = m := by simpa using hm
      simp [Meets]
  | cons a es ih =>
      obtain ⟨s₁, hs₁, hrest⟩ := exec_cons_iff.mp hm
      have hnext : (∀ s', step s a = some s' → Meets step C s' (es ++ fs)) ↔
          Meets step C s₁ (es ++ fs) := by simp [hs₁]
      have hfront : (∀ s', step s a = some s' → Meets step C s' es) ↔
          Meets step C s₁ es := by simp [hs₁]
      rw [List.cons_append, Meets, hnext, Meets, hfront, ih hrest, and_assoc]

theorem meets_snoc {step : σ → ε → Option σ} {C : σ → ε → Prop} {s m : σ}
    {es : List ε} {e : ε} (h : Meets step C s (es ++ [e]))
    (hm : exec step s es = some m) : Meets step C s es ∧ C m e := by
  obtain ⟨hes, he⟩ := (meets_append hm).mp h
  exact ⟨hes, he.1⟩

theorem meets_of_forall {step : σ → ε → Option σ} {C : σ → ε → Prop} {s : σ}
    {es : List ε} (h : ∀ s, ∀ e ∈ es, C s e) : Meets step C s es := by
  induction es generalizing s with
  | nil => trivial
  | cons e es ih =>
      exact ⟨h s e (by simp), fun _ _ => ih fun s a ha => h s a (by simp [ha])⟩

/-- The invariant rule for runs whose steps all meet `C`. -/
theorem exec_history_of_meets {step : σ → ε → Option σ} {s₀ : σ}
    {C : σ → ε → Prop} (P : List ε → σ → Prop) (init : P [] s₀)
    (keep : ∀ es s e s', P es s → C s e → step s e = some s' →
      P (es ++ [e]) s') :
    ∀ es s, Meets step C s₀ es → exec step s₀ es = some s → P es s := by
  intro es
  induction es using List.reverseRecOn with
  | nil =>
      intro s _ h
      obtain rfl : s₀ = s := by simpa using h
      exact init
  | append_singleton es e ih =>
      intro s' hC h
      obtain ⟨s, hes, hstep⟩ := exec_snoc.mp h
      obtain ⟨hmeets, he⟩ := meets_snoc hC hes
      exact keep es s e s' (ih s hmeets hes) he hstep

/-- A condition that holds wherever the run gets is met by the run. -/
theorem meets_of_prefixes {step : σ → ε → Option σ} {C : σ → ε → Prop} {s : σ}
    {es : List ε}
    (h : ∀ pre e post m, es = pre ++ e :: post → exec step s pre = some m →
      C m e) : Meets step C s es := by
  induction es generalizing s with
  | nil => trivial
  | cons e es ih =>
      refine ⟨h [] e es s rfl rfl, ?_⟩
      intro s' hs'
      apply ih
      intro pre a post m hes hm
      exact h (e :: pre) a post m (by rw [hes]; rfl) (by simp [hs', hm])

/-! ## Refinement -/

/-- A refinement mapping with a history: if every step of the machine is a
step of the abstract relation or leaves the abstraction alone, every run is a
run of the abstract relation. -/
theorem exec_refines {step : σ → ε → Option σ} {s₀ : σ} {C : σ → ε → Prop}
    {R : α → α → Prop} (abs : List ε → σ → α) (I : List ε → σ → Prop)
    (init : I [] s₀)
    (keep : ∀ es s e s', I es s → C s e → step s e = some s' →
      I (es ++ [e]) s')
    (sim : ∀ es s e s', I es s → C s e → step s e = some s' →
      Relation.ReflGen R (abs es s) (abs (es ++ [e]) s')) :
    ∀ es s, Meets step C s₀ es → exec step s₀ es = some s →
      I es s ∧ Relation.ReflTransGen R (abs [] s₀) (abs es s) := by
  refine exec_history_of_meets
    (fun es s => I es s ∧ Relation.ReflTransGen R (abs [] s₀) (abs es s))
    ⟨init, Relation.ReflTransGen.refl⟩ ?_
  intro es s e s' ⟨hI, hrun⟩ hC hstep
  exact ⟨keep es s e s' hI hC hstep,
    hrun.trans (sim es s e s' hI hC hstep).to_reflTransGen⟩

/-- The same for a machine whose every step from a state with the invariant
`I` refines the abstract relation. -/
theorem exec_refines_of_invariant {step : σ → ε → Option σ} {s₀ : σ}
    {R : α → α → Prop} (abs : List ε → σ → α) (I : σ → Prop) (init : I s₀)
    (keep : ∀ s e s', I s → step s e = some s' → I s')
    (sim : ∀ es s e s', I s → step s e = some s' →
      Relation.ReflGen R (abs es s) (abs (es ++ [e]) s')) :
    ∀ es s, exec step s₀ es = some s →
      I s ∧ Relation.ReflTransGen R (abs [] s₀) (abs es s) := by
  intro es s h
  refine exec_refines (C := fun _ _ => True) abs (fun _ => I) init ?_ ?_ es s
    (meets_of_prefixes fun _ _ _ _ _ _ => trivial) h
  · exact fun _ s e s' hI _ hstep => keep s e s' hI hstep
  · exact fun es s e s' hI _ hstep => sim es s e s' hI hstep

/-- An entry of a record that only grows stays where it is. -/
theorem getElem?_snoc {l : List α} {i : Nat} {x : α} (h : l[i]? = some x)
    (y : α) : (l ++ [y])[i]? = some x := by
  have hlt := (List.getElem?_eq_some_iff.mp h).1
  rw [List.getElem?_append_left hlt, h]

/-- A step whose end cannot fail is enabled when its beginning is. -/
theorem exists_bind_iff {x : Option α} {f : α → Option σ}
    (hf : ∀ a, ∃ s, f a = some s) :
    (∃ s, x.bind f = some s) ↔ ∃ a, x = some a := by
  cases x with
  | none => simp
  | some a => simpa using hf a

/-! ## Ghost observers -/

/-- Run an observer beside the machine.  It sees the state before each step
and the event, and the machine does not see it. -/
def observed {γ : Type*} (step : σ → ε → Option σ) (obs : γ → σ → ε → γ) :
    σ × γ → ε → Option (σ × γ) :=
  fun p e => (step p.1 e).map fun s' => (s', obs p.2 p.1 e)

theorem observed_eq_some {γ : Type*} {step : σ → ε → Option σ}
    {obs : γ → σ → ε → γ} {p p' : σ × γ} {e : ε} :
    observed step obs p e = some p' ↔
      step p.1 e = some p'.1 ∧ p'.2 = obs p.2 p.1 e := by
  unfold observed
  rw [Option.map_eq_some_iff]
  constructor
  · rintro ⟨s', hs', rfl⟩
    exact ⟨hs', rfl⟩
  · rintro ⟨hs', hobs⟩
    exact ⟨p'.1, hs', by rw [← hobs]⟩

/-- Observing does not change what the machine can do. -/
theorem exec_observed {γ : Type*} (step : σ → ε → Option σ)
    (obs : γ → σ → ε → γ) (p : σ × γ) (es : List ε) :
    (exec (observed step obs) p es).map Prod.fst = exec step p.1 es := by
  induction es generalizing p with
  | nil => rfl
  | cons e es ih =>
      rw [exec_cons, exec_cons]
      cases hstep : step p.1 e with
      | none => simp [observed, hstep]
      | some s' => simpa [observed, hstep] using ih (s', obs p.2 p.1 e)

theorem exec_observed_exists {γ : Type*} {step : σ → ε → Option σ}
    (obs : γ → σ → ε → γ) (g : γ) {s s' : σ} {es : List ε}
    (h : exec step s es = some s') :
    ∃ g', exec (observed step obs) (s, g) es = some (s', g') := by
  have hobs := exec_observed step obs (s, g) es
  rw [h] at hobs
  obtain ⟨⟨_, g'⟩, hg', rfl⟩ := Option.map_eq_some_iff.mp hobs
  exact ⟨g', hg'⟩

/-- A condition on the machine is met beside an observer exactly when it is
met alone. -/
theorem meets_observed {γ : Type*} {step : σ → ε → Option σ}
    {obs : γ → σ → ε → γ} {C : σ → ε → Prop} {p : σ × γ} {es : List ε} :
    Meets (observed step obs) (fun p e => C p.1 e) p es ↔
      Meets step C p.1 es := by
  induction es generalizing p with
  | nil => exact Iff.rfl
  | cons e es ih =>
      unfold Meets
      apply and_congr_right
      intro _
      constructor
      · intro hall s' hs'
        exact ih.mp (hall (s', obs p.2 p.1 e) (observed_eq_some.mpr ⟨hs', rfl⟩))
      · intro hall p' hp'
        exact ih.mpr (hall p'.1 (observed_eq_some.mp hp').1)

/-- An observer that adds up a cost ends at zero exactly when no step of the
run costs anything. -/
theorem observed_cost_eq_zero {step : σ → ε → Option σ} {cost : σ → ε → Nat}
    {es : List ε} {s s' : σ} {g g' : Nat}
    (h : exec (observed step fun g s e => g + cost s e) (s, g) es =
      some (s', g')) :
    g' = 0 ↔ g = 0 ∧ Meets step (fun s e => cost s e = 0) s es := by
  induction es generalizing s g with
  | nil =>
      obtain ⟨rfl, rfl⟩ : s = s' ∧ g = g' := by simpa using h
      simp [Meets]
  | cons e es ih =>
      obtain ⟨⟨m, k⟩, hm, hrest⟩ := exec_cons_iff.mp h
      obtain ⟨hstep, hk⟩ := observed_eq_some.mp hm
      dsimp only at hstep hk
      rw [ih hrest, hk, Nat.add_eq_zero_iff, and_assoc]
      simp [Meets, hstep]

/-! ## Simulation -/

/-- If related states take every enabled event of the first machine to
related states, a whole run of the first is matched by the second. -/
theorem exec_simulation {step : σ → ε → Option σ} {step' : τ → ε → Option τ}
    (R : σ → τ → Prop)
    (sim : ∀ s t e s', R s t → step s e = some s' →
      ∃ t', step' t e = some t' ∧ R s' t') :
    ∀ es s t s', R s t → exec step s es = some s' →
      ∃ t', exec step' t es = some t' ∧ R s' t' := by
  intro es
  induction es with
  | nil =>
      intro s t s' hR h
      obtain rfl : s = s' := by simpa using h
      exact ⟨t, rfl, hR⟩
  | cons e es ih =>
      intro s t s' hR h
      obtain ⟨m, hm, hrest⟩ := exec_cons_iff.mp h
      obtain ⟨n, hn, hRn⟩ := sim s t e m hR hm
      obtain ⟨t', ht', hR'⟩ := ih m n s' hRn hrest
      exact ⟨t', by simp [hn, ht'], hR'⟩

/-! ## Components -/

/-- A component of a system takes the steps of its own machine: the schedule
of the component is what the events of the system mean to it. -/
theorem exec_project {δ : Type*} {step : σ → ε → Option σ}
    {step' : τ → δ → Option τ} (proj : σ → τ) (event : ε → Option δ)
    (idle : ∀ s e s', step s e = some s' → event e = none → proj s' = proj s)
    (act : ∀ s e s' d, step s e = some s' → event e = some d →
      step' (proj s) d = some (proj s')) :
    ∀ es s s', exec step s es = some s' →
      exec step' (proj s) (es.filterMap event) = some (proj s') := by
  intro es
  induction es with
  | nil =>
      intro s s' h
      obtain rfl : s = s' := by simpa using h
      rfl
  | cons e es ih =>
      intro s s' h
      obtain ⟨m, hm, hrest⟩ := exec_cons_iff.mp h
      have htail := ih m s' hrest
      cases hevent : event e with
      | none =>
          rw [List.filterMap_cons_none hevent, ← idle s e m hm hevent]
          exact htail
      | some d =>
          rw [List.filterMap_cons_some hevent]
          exact exec_cons_iff.mpr ⟨proj m, act s e m d hm hevent, htail⟩

end ZenohPicoPerf.Foundation.Run

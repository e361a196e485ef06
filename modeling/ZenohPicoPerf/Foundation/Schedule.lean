import ZenohPicoPerf.Foundation.Run

/-!
# Conditions on the order of a schedule

`Everywhere D es` says that each event of `es` stands in the relation `D` to
the events before it.  Such a condition mentions no state, so it can be
checked on the schedule alone; the rule `exec_everywhere_iff` shows that it
says exactly when a property of the final state holds.

## Main results

* `everywhere_snoc` — one more event adds one more condition.
* `everywhere_congr` — on the schedule of a run, conditions that agree at
  every step of it are the same.
* `exec_everywhere_iff`, `exec_meets_everywhere_iff` — a property that each
  step keeps or breaks for good holds at the end exactly when no step breaks
  it.
* `meets_iff_continuations` — a condition on the steps of a run that is
  exactly what all continuations need.
-/

namespace ZenohPicoPerf.Foundation.Run

variable {σ ε : Type*}

/-- Every event of the schedule satisfies `D` with the events before it. -/
def Everywhere (D : List ε → ε → Prop) (es : List ε) : Prop :=
  ∀ pre e post, es = pre ++ e :: post → D pre e

/-- An event with `q` comes only after an event with `p`. -/
def After (p q : ε → Prop) : List ε → Prop :=
  Everywhere fun pre e => q e → ∃ a ∈ pre, p a

@[simp] theorem everywhere_nil (D : List ε → ε → Prop) : Everywhere D [] := by
  intro pre e post h
  simp at h

theorem everywhere_snoc {D : List ε → ε → Prop} {es : List ε} {e : ε} :
    Everywhere D (es ++ [e]) ↔ Everywhere D es ∧ D es e := by
  constructor
  · intro h
    constructor
    · intro pre a post hes
      exact h pre a (post ++ [e]) (by rw [hes]; simp)
    · exact h es e [] rfl
  · rintro ⟨hes, he⟩ pre a post hsplit
    rcases List.eq_nil_or_concat post with rfl | ⟨post', b, rfl⟩
    · obtain ⟨rfl, ha⟩ := List.append_inj' hsplit rfl
      obtain rfl : e = a := by simpa using ha
      exact he
    · have hlast : es ++ [e] = (pre ++ a :: post') ++ [b] := by
        simpa using hsplit
      have hfront : es = pre ++ a :: post' := (List.append_inj' hlast rfl).1
      exact hes pre a post' hfront

theorem exists_mem_snoc {p : ε → Prop} {es : List ε} {e : ε} :
    (∃ a ∈ es ++ [e], p a) ↔ (∃ a ∈ es, p a) ∨ p e := by
  simp only [List.mem_append, List.mem_singleton, or_and_right, exists_or,
    exists_eq_left]

/-- Conditions that agree at every step of a run agree on its schedule. -/
theorem everywhere_congr {step : σ → ε → Option σ} {s₀ s : σ}
    {C D : List ε → ε → Prop} {es : List ε} (h : exec step s₀ es = some s)
    (hCD : ∀ pre e m m', exec step s₀ pre = some m → step m e = some m' →
      (C pre e ↔ D pre e)) : Everywhere C es ↔ Everywhere D es := by
  have hsplit : ∀ pre e post, es = pre ++ e :: post → (C pre e ↔ D pre e) := by
    rintro pre e post rfl
    obtain ⟨m, hm, hrest⟩ := exec_append_iff.mp h
    obtain ⟨m', hm', -⟩ := exec_cons_iff.mp hrest
    exact hCD pre e m m' hm hm'
  constructor
  · intro hC pre e post hes
    exact (hsplit pre e post hes).mp (hC pre e post hes)
  · intro hD pre e post hes
    exact (hsplit pre e post hes).mpr (hD pre e post hes)

/-- A run has one state after each of its prefixes. -/
theorem forall_step_iff {step : σ → ε → Option σ} {s₀ m m' : σ}
    {C : σ → σ → Prop} {pre : List ε} {e : ε}
    (hm : exec step s₀ pre = some m) (hm' : step m e = some m') :
    (∀ n n', exec step s₀ pre = some n → step n e = some n' → C n n') ↔
      C m m' := by
  constructor
  · intro hC
    exact hC m m' hm hm'
  · intro hC n n' hn hn'
    obtain rfl : m = n := Option.some.inj (hm.symm.trans hn)
    obtain rfl : m' = n' := Option.some.inj (hm'.symm.trans hn')
    exact hC

theorem meets_snoc_iff {step : σ → ε → Option σ} {C : σ → ε → Prop} {s m : σ}
    {es : List ε} {e : ε} (hm : exec step s es = some m) :
    Meets step C s (es ++ [e]) ↔ Meets step C s es ∧ C m e := by
  constructor
  · intro h
    exact meets_snoc h hm
  · rintro ⟨hes, he⟩
    exact (meets_append hm).mpr ⟨hes, he, fun _ _ => trivial⟩

/-- If each step keeps `P` exactly when `C` holds of it and its event
satisfies `D`, and `P` once broken stays broken, then `P` holds after a run
exactly when the run meets `C` and `D` holds everywhere in its schedule. -/
theorem exec_meets_everywhere_iff {step : σ → ε → Option σ} {s₀ : σ}
    {C : σ → ε → Prop} {D : List ε → ε → Prop} (I P : List ε → σ → Prop)
    (init : I [] s₀) (start : P [] s₀)
    (keep : ∀ es s e s', I es s → step s e = some s' → I (es ++ [e]) s')
    (grow : ∀ es s e s', I es s → step s e = some s' →
      (P (es ++ [e]) s' ↔ P es s ∧ C s e ∧ D es e)) :
    ∀ es s, exec step s₀ es = some s →
      (P es s ↔ Meets step C s₀ es ∧ Everywhere D es) := by
  have hall : ∀ es s, exec step s₀ es = some s →
      exec step s₀ es = some s ∧ I es s ∧
        (P es s ↔ Meets step C s₀ es ∧ Everywhere D es) := by
    apply exec_history
    · exact ⟨rfl, init, iff_of_true start ⟨trivial, everywhere_nil D⟩⟩
    · intro es s e s' ⟨hrun, hI, hP⟩ hstep
      refine ⟨exec_snoc.mpr ⟨s, hrun, hstep⟩, keep es s e s' hI hstep, ?_⟩
      rw [everywhere_snoc, meets_snoc_iff hrun, grow es s e s' hI hstep, hP]
      exact and_and_and_comm
  intro es s h
  exact (hall es s h).2.2

/-- The same for a property that depends on the order of the events only. -/
theorem exec_everywhere_iff {step : σ → ε → Option σ} {s₀ : σ}
    {D : List ε → ε → Prop} (I P : List ε → σ → Prop)
    (init : I [] s₀) (start : P [] s₀)
    (keep : ∀ es s e s', I es s → step s e = some s' → I (es ++ [e]) s')
    (grow : ∀ es s e s', I es s → step s e = some s' →
      (P (es ++ [e]) s' ↔ P es s ∧ D es e)) :
    ∀ es s, exec step s₀ es = some s → (P es s ↔ Everywhere D es) := by
  intro es s h
  have hboth := exec_meets_everywhere_iff (C := fun _ _ => True) I P init
    start keep (by simpa using grow) es s h
  rw [hboth]
  exact and_iff_right (meets_of_forall fun _ _ _ => trivial)

/-! ## Conditions that every continuation needs -/

/-- Let `main` be events that are always allowed.  If `C` at every step makes
every state good, and a step without `C` can be continued by `main` to a bad
state, then a run meets `C` exactly when `main` reaches only good states,
from wherever the run has got. -/
theorem meets_iff_continuations {step : σ → ε → Option σ} {s₀ : σ}
    (C : σ → ε → Prop) (Good : σ → Prop) (dom main : ε → Prop)
    (hdom : ∀ e, main e → dom e) (hmain : ∀ s e, main e → C s e)
    (sound : ∀ es s, (∀ e ∈ es, dom e) → Meets step C s₀ es →
      exec step s₀ es = some s → Good s)
    (needed : ∀ es s e s', (∀ e ∈ es, dom e) → dom e → Meets step C s₀ es →
      exec step s₀ es = some s → step s e = some s' → ¬C s e →
      ∃ fs t, (∀ f ∈ fs, main f) ∧ exec step s' fs = some t ∧ ¬Good t)
    {es : List ε} {s : σ} (hes : ∀ e ∈ es, dom e)
    (h : exec step s₀ es = some s) :
    Meets step C s₀ es ↔
      ∀ pre fs t, pre <+: es → (∀ f ∈ fs, main f) →
        exec step s₀ (pre ++ fs) = some t → Good t := by
  constructor
  · rintro hmeets pre fs t ⟨post, rfl⟩ hfs ht
    obtain ⟨m, hm, hmt⟩ := exec_append_iff.mp ht
    have hpre : Meets step C s₀ pre := ((meets_append hm).mp hmeets).1
    apply sound (pre ++ fs) t ?_ ?_ ht
    · intro e he
      rcases List.mem_append.mp he with hold | hnew
      · exact hes e (List.mem_append_left post hold)
      · exact hdom e (hfs e hnew)
    · exact (meets_append hm).mpr
        ⟨hpre, meets_of_forall fun s e he => hmain s e (hfs e he)⟩
  · intro hgood
    induction es using List.reverseRecOn generalizing s with
    | nil => trivial
    | append_singleton es e ih =>
        obtain ⟨m, hm, hstep⟩ := exec_snoc.mp h
        have hfront : ∀ a ∈ es, dom a := fun a ha => hes a (by simp [ha])
        have hmeets : Meets step C s₀ es := by
          apply ih hfront hm
          intro pre fs t hpre
          exact hgood pre fs t (hpre.trans (List.prefix_append es [e]))
        by_contra hnot
        have hC : ¬C m e := by
          intro hC
          exact hnot ((meets_append hm).mpr ⟨hmeets, hC, fun _ _ => trivial⟩)
        obtain ⟨fs, t, hfs, ht, hbad⟩ :=
          needed es m e s hfront (hes e (by simp)) hmeets hm hstep hC
        exact hbad (hgood (es ++ [e]) fs t (List.prefix_refl _) hfs
          (exec_append_iff.mpr ⟨s, h, ht⟩))

end ZenohPicoPerf.Foundation.Run

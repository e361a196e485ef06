import ZenohPicoPerf.Foundation.Run
import Mathlib.Data.List.Basic

/-!
# Values that are opened, lent and released

A script is a list of statements that open values, lend them to calls and
release them, in the order of the text.  A call whose result is looked at may
fail; the script then releases some values and ends.  Handlers run between any
two statements while the values that carry them are there, and use others.
Using or releasing a value that is not there is a fault.

`Accepted` checks a script statement by statement.  It is exact: a script
passes if and only if no run faults.

## Main results

* `Accepted.step` — one step keeps the check.
* `accepted_iff` — soundness and completeness of the check.
* `mem_exits`, `exists_run`, `ended_iff` — what the runs that have ended still
  own.
-/

namespace ZenohPicoPerf.Foundation.Ownership

open Run

variable {V : Type*} [DecidableEq V]

/-- A call is lent values, takes others away and gives new ones if it
succeeds.  `onFailure` is what is released after a failure, where the result
is looked at; other calls succeed.  A loop lends the same values in every
pass. -/
inductive Stmt (V : Type*) where
  | call (loans moves gives : List V) (onFailure : Option (List V))
  | loop (loans : List V) (endless : Bool)
deriving DecidableEq, Repr

/-- It can run while the carriers are there. -/
structure Handler (V : Type*) where
  carriers : List V
  uses : List V
deriving DecidableEq, Repr

structure State (V : Type*) where
  rest : List (Stmt V)
  owned : List V
  failed : Bool
  fault : Bool
deriving DecidableEq, Repr

def start (owned : List V) (script : List (Stmt V)) : State V :=
  { rest := script, owned := owned, failed := false, fault := false }

/-- The call at the head of the script returned, the loop there made a pass
or was left, or a handler ran. -/
inductive Event where
  | returned (ok : Bool)
  | pass
  | leave
  | callback (k : Nat)
deriving DecidableEq, Repr

def release (owned moves : List V) : List V :=
  owned.filter fun v => v ∉ moves

/-- The script has not ended. -/
def State.running (s : State V) : Prop :=
  s.rest ≠ [] ∧ s.failed = false ∧ s.fault = false

instance (s : State V) : Decidable s.running :=
  inferInstanceAs (Decidable (_ ∧ _ ∧ _))

/-- The state if the values that are needed are there, else a fault. -/
def State.need (s : State V) (needed : List V) (s' : State V) : State V :=
  if needed ⊆ s.owned then s' else { s with fault := true }

/-- What a call with the result `ok` does. -/
def State.call (s : State V) (rest : List (Stmt V))
    (moves gives : List V) (onFailure : Option (List V)) :
    Bool → Option (State V)
  | true =>
      some { s with rest := rest, owned := release s.owned moves ++ gives }
  | false => do
      let undo ← onFailure
      let s := { s with owned := release s.owned moves }
      some (s.need undo
        { s with owned := release s.owned undo, failed := true })

def step (handlers : List (Handler V)) (s : State V) (e : Event) :
    Option (State V) :=
  if s.running then
    match e, s.rest with
    | .returned ok, .call loans moves gives onFailure :: rest => do
        let s' ← s.call rest moves gives onFailure ok
        some (s.need (loans ++ moves) s')
    | .pass, .loop loans _ :: _ => some (s.need loans s)
    | .leave, .loop _ false :: rest => some { s with rest := rest }
    | .callback k, _ => do
        let h ← handlers[k]?
        if h.carriers ⊆ s.owned then some (s.need h.uses s) else none
    | _, _ => none
  else none

/-! ## The check -/

/-- Every handler that can run finds what it uses. -/
def Quiet (handlers : List (Handler V)) (owned : List V) : Prop :=
  ∀ h ∈ handlers, h.carriers ⊆ owned → h.uses ⊆ owned

instance (handlers : List (Handler V)) (owned : List V) :
    Decidable (Quiet handlers owned) :=
  inferInstanceAs (Decidable (∀ h ∈ handlers, _))

/-- The check, statement by statement; nothing behind an endless loop is
reached. -/
def Accepted (handlers : List (Handler V)) : List V → List (Stmt V) → Prop
  | _, [] => True
  | owned, .call loans moves gives onFailure :: rest =>
      Quiet handlers owned ∧ loans ++ moves ⊆ owned ∧
        (∀ undo ∈ onFailure, undo ⊆ release owned moves) ∧
        Accepted handlers (release owned moves ++ gives) rest
  | owned, .loop loans endless :: rest =>
      Quiet handlers owned ∧ loans ⊆ owned ∧
        (endless = false → Accepted handlers owned rest)

instance decidableAccepted (handlers : List (Handler V)) :
    (owned : List V) → (script : List (Stmt V)) →
      Decidable (Accepted handlers owned script)
  | _, [] => isTrue trivial
  | owned, .call _ moves gives _ :: rest =>
      have := decidableAccepted handlers (release owned moves ++ gives) rest
      inferInstanceAs (Decidable (_ ∧ _ ∧ _ ∧ _))
  | owned, .loop _ _ :: rest =>
      have := decidableAccepted handlers owned rest
      inferInstanceAs (Decidable (_ ∧ _ ∧ _))

variable {handlers : List (Handler V)}

theorem Accepted.quiet {owned : List V} {script : List (Stmt V)}
    (h : Accepted handlers owned script) (hne : script ≠ []) :
    Quiet handlers owned := by
  cases script with
  | nil => exact absurd rfl hne
  | cons stmt rest =>
      cases stmt with
      | call loans moves gives onFailure => exact h.1
      | loop loans endless => exact h.1

/-! ## One step -/

theorem need_fault {s s' : State V} {needed : List V} :
    (s.need needed s').fault = false ↔
      needed ⊆ s.owned ∧ s'.fault = false := by
  unfold State.need
  split <;> simp [*]

theorem need_of_subset {s s' : State V} {needed : List V}
    (h : needed ⊆ s.owned) : s.need needed s' = s' :=
  if_pos h

/-- Everything a step can be. -/
theorem step_cases {s s' : State V} {e : Event}
    (h : step handlers s e = some s') :
    s.running ∧
    ((∃ loans moves gives onFailure rest ok r,
        s.rest = .call loans moves gives onFailure :: rest ∧
        s.call rest moves gives onFailure ok = some r ∧
        s' = s.need (loans ++ moves) r) ∨
      (∃ loans endless rest, s.rest = .loop loans endless :: rest ∧
        s' = s.need loans s) ∨
      (∃ loans rest, s.rest = .loop loans false :: rest ∧
        s' = { s with rest := rest }) ∨
      (∃ h ∈ handlers, h.carriers ⊆ s.owned ∧ s' = s.need h.uses s)) := by
  simp only [step] at h
  split at h
  · rename_i hrunning
    refine ⟨hrunning, ?_⟩
    split at h
    · rename_i ok loans moves gives onFailure rest hrest
      obtain ⟨r, hr, hs'⟩ := Option.bind_eq_some_iff.mp h
      exact Or.inl ⟨loans, moves, gives, onFailure, rest, ok, r, hrest, hr,
        (Option.some.inj hs').symm⟩
    · rename_i loans endless rest hrest
      exact Or.inr (Or.inl ⟨loans, endless, rest, hrest,
        (Option.some.inj h).symm⟩)
    · rename_i loans rest hrest
      exact Or.inr (Or.inr (Or.inl ⟨loans, rest, hrest,
        (Option.some.inj h).symm⟩))
    · obtain ⟨handler, hhandler, hs'⟩ := Option.bind_eq_some_iff.mp h
      split at hs'
      · rename_i hcarried
        exact Or.inr (Or.inr (Or.inr ⟨handler,
          List.mem_of_getElem? hhandler, hcarried,
          (Option.some.inj hs').symm⟩))
      · cases hs'
    · cases h
  · cases h

/-- What the check says of a state: no fault so far, and the rest of the
script passes, if it goes on. -/
structure Sound (handlers : List (Handler V)) (s : State V) : Prop where
  fault : s.fault = false
  rest : s.failed = false → Accepted handlers s.owned s.rest

/-- One step keeps the check. -/
theorem Sound.step {s s' : State V} {e : Event} (h : Sound handlers s)
    (hstep : Ownership.step handlers s e = some s') : Sound handlers s' := by
  obtain ⟨⟨hne, hfailed, -⟩, hcases⟩ := step_cases hstep
  have haccepted := h.rest hfailed
  rcases hcases with ⟨loans, moves, gives, onFailure, rest, ok, r, hrest, hr,
      rfl⟩ | ⟨loans, endless, rest, hrest, rfl⟩ | ⟨loans, rest, hrest, rfl⟩ |
      ⟨handler, hmem, hcarried, rfl⟩
  · rw [hrest] at haccepted
    obtain ⟨-, hneeded, hundo, htail⟩ := haccepted
    rw [need_of_subset hneeded]
    cases ok with
    | true =>
        obtain rfl := Option.some.inj hr
        exact ⟨h.fault, fun _ => htail⟩
    | false =>
        obtain ⟨undo, hmem, hout⟩ := Option.bind_eq_some_iff.mp hr
        obtain rfl := Option.some.inj hout
        rw [need_of_subset (hundo undo hmem)]
        exact ⟨h.fault, fun hcontra => by cases hcontra⟩
  · rw [hrest] at haccepted
    rw [need_of_subset haccepted.2.1]
    exact h
  · rw [hrest] at haccepted
    exact ⟨h.fault, fun _ => haccepted.2.2 rfl⟩
  · rw [need_of_subset (haccepted.quiet hne handler hmem hcarried)]
    exact h

/-! ## Soundness and completeness -/

/-- No run from `s` faults. -/
def Faultless (handlers : List (Handler V)) (s : State V) : Prop :=
  ∀ es s', exec (step handlers) s es = some s' → s'.fault = false

theorem Faultless.step {s s' : State V} {e : Event}
    (h : Faultless handlers s)
    (hstep : Ownership.step handlers s e = some s') :
    Faultless handlers s' := by
  intro es t ht
  exact h (e :: es) t (exec_cons_iff.mpr ⟨s', hstep, ht⟩)

theorem Faultless.here {s s' : State V} {e : Event}
    (h : Faultless handlers s)
    (hstep : Ownership.step handlers s e = some s') : s'.fault = false :=
  h.step hstep [] s' rfl

theorem faultless_of_accepted {owned : List V} {script : List (Stmt V)}
    (h : Accepted handlers owned script) :
    Faultless handlers (start owned script) := by
  intro es s hrun
  have hsound : Sound handlers s :=
    exec_history (fun _ s => Sound handlers s)
      { fault := rfl, rest := fun _ => h }
      (fun _ _ _ _ hs hstep => hs.step hstep) es s hrun
  exact hsound.fault

section FromStart

variable {owned : List V} {script rest : List (Stmt V)}

theorem step_callback (hne : script ≠ []) {k : Nat} {h : Handler V}
    (hk : handlers[k]? = some h) (hcarried : h.carriers ⊆ owned) :
    Ownership.step handlers (start owned script) (.callback k) =
      some ((start owned script).need h.uses (start owned script)) := by
  have hrunning : (start owned script).running := ⟨hne, rfl, rfl⟩
  rw [Ownership.step, if_pos hrunning]
  simp [hk, hcarried, start]

theorem step_pass (loans : List V) (endless : Bool) :
    Ownership.step handlers (start owned (.loop loans endless :: rest))
        .pass =
      some ((start owned (.loop loans endless :: rest)).need loans
        (start owned (.loop loans endless :: rest))) :=
  if_pos ⟨List.cons_ne_nil _ _, rfl, rfl⟩

theorem step_leave (loans : List V) :
    Ownership.step handlers (start owned (.loop loans false :: rest)) .leave =
      some (start owned rest) :=
  if_pos ⟨List.cons_ne_nil _ _, rfl, rfl⟩

theorem step_succeeds (handlers : List (Handler V)) (owned : List V)
    (rest : List (Stmt V)) (loans moves gives : List V)
    (onFailure : Option (List V)) :
    Ownership.step handlers
        (start owned (.call loans moves gives onFailure :: rest))
        (.returned true) =
      some ((start owned (.call loans moves gives onFailure :: rest)).need
        (loans ++ moves) (start (release owned moves ++ gives) rest)) :=
  if_pos ⟨List.cons_ne_nil _ _, rfl, rfl⟩

/-- A failed call that is looked at releases what `undo` names. -/
theorem step_fails (handlers : List (Handler V)) (owned : List V)
    (rest : List (Stmt V)) (loans moves gives undo : List V) :
    Ownership.step handlers
        (start owned (.call loans moves gives (some undo) :: rest))
        (.returned false) =
      some ((start owned (.call loans moves gives (some undo) :: rest)).need
        (loans ++ moves)
        (State.need
          { start owned (.call loans moves gives (some undo) :: rest) with
            owned := release owned moves } undo
          { start owned (.call loans moves gives (some undo) :: rest) with
            owned := release (release owned moves) undo
            failed := true })) :=
  if_pos ⟨List.cons_ne_nil _ _, rfl, rfl⟩

end FromStart

/-- A handler that can run is one that finds what it uses. -/
theorem Faultless.quiet {owned : List V} {script : List (Stmt V)}
    (h : Faultless handlers (start owned script)) (hne : script ≠ []) :
    Quiet handlers owned := by
  intro handler hmem hcarried
  obtain ⟨k, hk⟩ := List.mem_iff_getElem?.mp hmem
  exact (need_fault.mp (h.here (step_callback hne hk hcarried))).1

theorem accepted_of_faultless {owned : List V} {script : List (Stmt V)}
    (h : Faultless handlers (start owned script)) :
    Accepted handlers owned script := by
  induction script generalizing owned with
  | nil => trivial
  | cons stmt rest ih =>
      have hquiet := h.quiet (List.cons_ne_nil stmt rest)
      cases stmt with
      | call loans moves gives onFailure =>
          have hok := step_succeeds handlers owned rest loans moves gives
            onFailure
          have hneeded := (need_fault.mp (h.here hok)).1
          have htail := h.step hok
          rw [need_of_subset hneeded] at htail
          refine ⟨hquiet, hneeded, ?_, ih htail⟩
          rintro undo rfl
          have hfail := h.here
            (step_fails handlers owned rest loans moves gives undo)
          exact (need_fault.mp (need_fault.mp hfail).2).1
      | loop loans endless =>
          refine ⟨hquiet, (need_fault.mp (h.here (step_pass loans endless))).1,
            ?_⟩
          rintro rfl
          exact ih (h.step (step_leave loans))

/-- **The check is exact.** -/
theorem accepted_iff {owned : List V} {script : List (Stmt V)} :
    Accepted handlers owned script ↔
      Faultless handlers (start owned script) :=
  ⟨faultless_of_accepted, accepted_of_faultless⟩

/-! ## What is left at the end -/

/-- Every end of a script: whether it is a failure, and what is owned there. -/
def exits : List V → List (Stmt V) → List (Bool × List V)
  | owned, [] => [(false, owned)]
  | owned, .call _ moves gives onFailure :: rest =>
      (onFailure.map fun undo =>
        (true, release (release owned moves) undo)).toList ++
        exits (release owned moves ++ gives) rest
  | owned, .loop _ endless :: rest =>
      if endless then [] else exits owned rest

/-- The state is at one of the ends `ends`, or all its ends are among
them. -/
def Toward (ends : List (Bool × List V)) (s : State V) : Prop :=
  s.fault = false →
    if s.failed then (true, s.owned) ∈ ends
    else exits s.owned s.rest ⊆ ends

theorem Toward.step {ends : List (Bool × List V)} {s s' : State V} {e : Event}
    (h : Toward ends s) (hstep : Ownership.step handlers s e = some s') :
    Toward ends s' := by
  obtain ⟨⟨-, hfailed, hfault⟩, hcases⟩ := step_cases hstep
  have hends := h hfault
  rw [hfailed, if_neg Bool.false_ne_true] at hends
  rcases hcases with ⟨loans, moves, gives, onFailure, rest, ok, r, hrest, hr,
      rfl⟩ | ⟨loans, endless, rest, hrest, rfl⟩ | ⟨loans, rest, hrest, rfl⟩ |
      ⟨handler, hmem, hcarried, rfl⟩
  · intro hnofault
    rw [hrest, exits] at hends
    obtain ⟨hneeded, hnofault⟩ := need_fault.mp hnofault
    rw [need_of_subset hneeded]
    cases ok with
    | true =>
        obtain rfl := Option.some.inj hr
        rw [if_neg (by simp [hfailed])]
        exact fun x hx => hends (List.mem_append_right _ hx)
    | false =>
        obtain ⟨undo, hmem, hout⟩ := Option.bind_eq_some_iff.mp hr
        obtain rfl := Option.some.inj hout
        obtain ⟨hundo, -⟩ := need_fault.mp hnofault
        rw [need_of_subset hundo, if_pos rfl]
        subst hmem
        exact hends (List.mem_append_left _ (List.mem_singleton_self _))
  · intro hnofault
    rw [need_of_subset (need_fault.mp hnofault).1]
    exact h hfault
  · intro _
    rw [hrest, exits, if_neg Bool.false_ne_true] at hends
    rw [if_neg (by simp [hfailed])]
    exact hends
  · intro hnofault
    rw [need_of_subset (need_fault.mp hnofault).1]
    exact h hfault

/-- **The ends of a run.**  A run without a fault that has ended is at one of
the ends of its script. -/
theorem mem_exits {owned : List V} {script : List (Stmt V)} {es : List Event}
    {s : State V} (h : exec (step handlers) (start owned script) es = some s)
    (hfault : s.fault = false) (hended : s.failed = true ∨ s.rest = []) :
    (s.failed, s.owned) ∈ exits owned script := by
  have htoward : Toward (exits owned script) s :=
    exec_history (fun _ s => Toward (exits owned script) s)
      (fun _ => List.Subset.refl _)
      (fun _ _ _ _ hs hstep => hs.step hstep) es s h
  have hends := htoward hfault
  cases hfailed : s.failed with
  | true => simpa [hfailed] using hends
  | false =>
      rw [hfailed, if_neg Bool.false_ne_true] at hends
      rw [hended.resolve_left (by simp [hfailed]), exits] at hends
      exact hends (List.mem_singleton_self _)

/-- A script without a faulty call reaches each of its ends, whatever handlers
there are. -/
theorem exists_run (handlers : List (Handler V)) {owned : List V}
    {script : List (Stmt V)} (h : Accepted [] owned script) {failed : Bool}
    {vs : List V} (hend : (failed, vs) ∈ exits owned script) :
    ∃ es s, exec (step handlers) (start owned script) es = some s ∧
      s.fault = false ∧ (s.failed = true ∨ s.rest = []) ∧
      s.failed = failed ∧ s.owned = vs := by
  induction script generalizing owned with
  | nil =>
      obtain ⟨rfl, rfl⟩ := Prod.mk.inj (List.mem_singleton.mp hend)
      exact ⟨[], _, rfl, rfl, Or.inr rfl, rfl, rfl⟩
  | cons stmt rest ih =>
      cases stmt with
      | call loans moves gives onFailure =>
          obtain ⟨-, hneeded, hundo, htail⟩ := h
          rcases List.mem_append.mp hend with hfailed | hgoes
          · obtain ⟨undo, rfl, hout⟩ :=
              Option.map_eq_some_iff.mp (Option.mem_toList.mp hfailed)
            obtain ⟨rfl, rfl⟩ := Prod.mk.inj hout
            have hstep := step_fails handlers owned rest loans moves gives undo
            rw [need_of_subset (s := start owned _) hneeded,
              need_of_subset (hundo undo rfl)] at hstep
            exact ⟨[.returned false], _,
              exec_cons_iff.mpr ⟨_, hstep, rfl⟩, rfl, Or.inl rfl, rfl, rfl⟩
          · obtain ⟨es, s, hrun, hs⟩ := ih htail hgoes
            have hstep := step_succeeds handlers owned rest loans moves gives
              onFailure
            rw [need_of_subset (s := start owned _) hneeded] at hstep
            exact ⟨.returned true :: es, s,
              exec_cons_iff.mpr ⟨_, hstep, hrun⟩, hs⟩
      | loop loans endless =>
          cases endless with
          | true => cases hend
          | false =>
              obtain ⟨es, s, hrun, hs⟩ := ih (h.2.2 rfl) hend
              exact ⟨.leave :: es, s,
                exec_cons_iff.mpr ⟨_, step_leave loans, hrun⟩, hs⟩

/-- What holds at every end of every run can be read off the script. -/
theorem ended_iff {owned : List V} {script : List (Stmt V)}
    (h : Accepted [] owned script) (P : Bool → List V → Prop) :
    (∀ es s, exec (step handlers) (start owned script) es = some s →
      s.fault = false → s.failed = true ∨ s.rest = [] →
      P s.failed s.owned) ↔ ∀ x ∈ exits owned script, P x.1 x.2 := by
  constructor
  · rintro hruns ⟨failed, vs⟩ hx
    obtain ⟨es, s, hrun, hfault, hended, rfl, rfl⟩ :=
      exists_run handlers h hx
    exact hruns es s hrun hfault hended
  · intro hends es s hrun hfault hended
    exact hends _ (mem_exits hrun hfault hended)

end ZenohPicoPerf.Foundation.Ownership

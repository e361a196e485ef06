import ZenohPicoPerf.Common.Clock
import ZenohPicoPerf.Foundation.Run
import ZenohPicoPerf.Foundation.Ledger
import Mathlib.Data.List.Count

/-!
# z_sub_thr: a counter shared by two tasks

The read task runs `data_handler` for every sample: it stores the payload
length and increments `counter`.  Once a second `main` loads `counter`,
stamps the time, prints a report and clears `counter` by an exchange.  Every
access of one of the two tasks to a global is one event, and the schedule
orders them in any way.

The value that the exchange returns is not used, so an increment between the
load and the exchange is counted in no report.

## Main results

* `step_refines` — the two tasks refine a ledger that spills late increments.
* `sub_thr_accounts_iff` — when reports and counter account for every
  increment.
-/

namespace ZenohPicoPerf.Throughput.ZenohSub

open ZenohPicoPerf.Foundation.Memory
open ZenohPicoPerf.Foundation.Run
open ZenohPicoPerf.Foundation.Ledger
open ZenohPicoPerf.Common.Clock

/-- The columns in front of the payload size, printed only with `-s`. -/
def columns (scenario : Option String) : Option (List String) :=
  scenario.map fun s => ["zenoh-pico", "subscriber", "throughput", s]

/-- The microseconds between two stamps, in C's signed `long`. -/
def elapsed (start stop : Timespec) : Word :=
  (stop.tvSec - start.tvSec) * 1000000 +
    (stop.tvNsec - start.tvNsec).sdiv 1000

/-- One printed line.  The rate column is `received * 1000000 / elapsed`. -/
structure Report where
  columns : Option (List String)
  payloadSize : CInt
  received : Word
  elapsed : Word
deriving DecidableEq, Repr

/-- `data_handler` between two samples, or between its two statements. -/
inductive Handler where
  | idle
  | stored
deriving DecidableEq, Repr

/-- Where `main` stands: before the first stamp, at the top of its loop, or
behind the named statement of the loop. -/
inductive Pc where
  | startup
  | top
  | loaded
  | stamped
  | printed
  | exchanged
deriving DecidableEq, Repr

structure State where
  payloadSize : CInt
  counter : Word
  handler : Handler
  pc : Pc
  received : Word
  start : Timespec
  stop : Timespec
  reports : List Report
deriving DecidableEq, Repr

/-- The locals of `main` are written before they are read, so their initial
values are immaterial. -/
def init : State :=
  { payloadSize := 8, counter := 0, handler := .idle, pc := .startup,
    received := 0, start := ⟨0, 0⟩, stop := ⟨0, 0⟩, reports := [] }

inductive Event where
  | storeSize (len : Word)
  | fetchAdd
  | stampStart (now : Timespec)
  | load
  | stampStop (now : Timespec)
  | print
  | exchange
deriving DecidableEq, Repr

def enabled (s : State) : Event → Prop
  | .storeSize _ => s.handler = .idle
  | .fetchAdd => s.handler = .stored
  | .stampStart _ => s.pc = .startup ∨ s.pc = .exchanged
  | .load => s.pc = .top
  | .stampStop _ => s.pc = .loaded
  | .print => s.pc = .stamped
  | .exchange => s.pc = .printed

instance (s : State) (e : Event) : Decidable (enabled s e) :=
  match e with
  | .storeSize _ => inferInstanceAs (Decidable (s.handler = .idle))
  | .fetchAdd => inferInstanceAs (Decidable (s.handler = .stored))
  | .stampStart _ =>
      inferInstanceAs (Decidable (s.pc = .startup ∨ s.pc = .exchanged))
  | .load => inferInstanceAs (Decidable (s.pc = .top))
  | .stampStop _ => inferInstanceAs (Decidable (s.pc = .loaded))
  | .print => inferInstanceAs (Decidable (s.pc = .stamped))
  | .exchange => inferInstanceAs (Decidable (s.pc = .printed))

/-- The second statement of `data_handler`. -/
def increment (s : State) : State :=
  { s with handler := .idle, counter := s.counter + 1 }

def next (scenario : Option String) (s : State) : Event → State
  | .storeSize len =>
      { s with handler := .stored, payloadSize := len.setWidth 32 }
  | .fetchAdd => increment s
  | .stampStart now => { s with pc := .top, start := now }
  | .load =>
      { s with
        pc := if 0 < s.counter.toNat then .loaded else .top
        received := s.counter }
  | .stampStop now => { s with pc := .stamped, stop := now }
  | .print =>
      { s with
        pc := .printed
        reports := s.reports ++
          [{ columns := columns scenario, payloadSize := s.payloadSize,
             received := s.received, elapsed := elapsed s.start s.stop }] }
  | .exchange =>
      { s with pc := .exchanged, received := s.counter, counter := 0 }

def step (scenario : Option String) : State → Event → Option State :=
  guarded enabled (next scenario)

/-! ## The ledger of increments -/

/-- `main` has decided to report and has not cleared `counter` yet. -/
def Pc.Reporting (pc : Pc) : Prop :=
  pc = .loaded ∨ pc = .stamped ∨ pc = .printed

instance (pc : Pc) : Decidable pc.Reporting :=
  inferInstanceAs (Decidable (pc = .loaded ∨ pc = .stamped ∨ pc = .printed))

/-- The increments that a report can still count. -/
def pending (s : State) : Nat :=
  match s.pc with
  | .loaded | .stamped => s.received.toNat
  | .printed => 0
  | .startup | .top | .exchanged => s.counter.toNat

/-- What an event removes from the account: an increment that comes too late
for the report and is cleared with it, or the wrap of `counter`. -/
def spill (s : State) : Event → Nat
  | .fetchAdd =>
      if s.pc.Reporting then 1
      else if s.counter.toNat + 1 < 2 ^ 64 then 0 else 2 ^ 64
  | _ => 0

def ledger (es : List Event) (p : State × Nat) : Account Nat :=
  { deposited := es.count .fetchAdd
    held := pending p.1
    paid := p.1.reports.map fun r => r.received.toNat
    spilt := p.2 }

/-- An event that is no increment and keeps the pending increments and the
reports. -/
theorem ledger_stutters {es : List Event} {s s' : State} {g : Nat} {e : Event}
    (he : e ≠ .fetchAdd) (hpending : pending s' = pending s)
    (hreports : s'.reports = s.reports) :
    Relation.ReflGen Step (ledger es (s, g)) (ledger (es ++ [e]) (s', g)) := by
  have hcount : [e].count Event.fetchAdd = 0 :=
    List.count_eq_zero.mpr (by simpa using Ne.symm he)
  have hsame : ledger (es ++ [e]) (s', g) = ledger es (s, g) := by
    simp [ledger, List.count_append, hcount, hpending, hreports]
  rw [hsame]

theorem pending_of_not_reporting {s : State} (hpc : ¬s.pc.Reporting) :
    pending s = s.counter.toNat := by
  unfold Pc.Reporting at hpc
  unfold pending
  cases hs : s.pc <;> simp_all

theorem pending_increment_late {s : State} (hpc : s.pc.Reporting) :
    pending (increment s) = pending s := by
  rcases hpc with hpc | hpc | hpc <;> simp [pending, increment, hpc]

/-- An increment is pending afterwards or it is spilt. -/
theorem pending_increment (s : State) :
    pending s + 1 = pending (increment s) + spill s .fetchAdd := by
  simp only [spill]
  by_cases hpc : s.pc.Reporting
  · rw [if_pos hpc, pending_increment_late hpc]
  · have hafter : pending (increment s) = (s.counter + 1).toNat :=
      pending_of_not_reporting (show ¬(increment s).pc.Reporting from hpc)
    have hlt := s.counter.isLt
    rw [if_neg hpc, pending_of_not_reporting hpc, hafter, BitVec.toNat_add,
      show (1 : Word).toNat = 1 from rfl]
    by_cases hfits : s.counter.toNat + 1 < 2 ^ 64
    · rw [if_pos hfits, Nat.mod_eq_of_lt hfits]
    · rw [if_neg hfits]
      omega

/-- One event of the two tasks is at most one step of the ledger. -/
theorem step_refines {scenario : Option String} {es : List Event}
    {s s' : State} {g : Nat} {e : Event}
    (h : step scenario s e = some s') :
    Relation.ReflGen Step (ledger es (s, g))
      (ledger (es ++ [e]) (s', g + spill s e)) := by
  obtain ⟨hen, rfl⟩ := guarded_eq_some.mp h
  cases e with
  | storeSize len => exact ledger_stutters (by simp) rfl rfl
  | fetchAdd =>
      have hspill : ledger (es ++ [.fetchAdd])
          (increment s, g + spill s .fetchAdd) =
          (ledger es (s, g)).spill 1 (pending (increment s))
            (spill s .fetchAdd) := by
        simp [ledger, Account.spill, List.count_append, increment]
      show Relation.ReflGen Step _ (ledger _ (increment s, _))
      rw [hspill]
      exact Relation.ReflGen.single
        (Step.spill _ _ _ _ (pending_increment s))
  | stampStart now =>
      refine ledger_stutters (by simp) ?_ rfl
      rcases hen with hpc | hpc <;> simp [pending, next, hpc]
  | load =>
      refine ledger_stutters (by simp) ?_ rfl
      -- a load that finds nothing leads back to the top
      have hpc : s.pc = .top := hen
      by_cases hpos : 0 < s.counter.toNat <;> simp [pending, next, hpc, hpos]
  | stampStop now =>
      refine ledger_stutters (by simp) ?_ rfl
      have hpc : s.pc = .loaded := hen
      simp [pending, next, hpc]
  | print =>
      have hpc : s.pc = .stamped := hen
      have hpaid : ledger (es ++ [.print]) (next scenario s .print, g) =
          (ledger es (s, g)).payOut := by
        simp [ledger, Account.payOut, pending, next, hpc]
      show Relation.ReflGen Step _ (ledger _ (_, g))
      rw [hpaid]
      exact Relation.ReflGen.single (Step.payOut _)
  | exchange =>
      refine ledger_stutters (by simp) ?_ rfl
      have hpc : s.pc = .printed := hen
      simp [pending, next, hpc]

/-- Every run of the two tasks, beside the observer that adds up what is
spilt, is a run of the ledger. -/
theorem run_refines (scenario : Option String) (es : List Event) (s : State)
    (g : Nat)
    (h : exec (observed (step scenario) fun g s e => g + spill s e) (init, 0)
      es = some (s, g)) :
    Relation.ReflTransGen Step Account.zero (ledger es (s, g)) := by
  refine (exec_refines_of_invariant ledger (fun _ => True) trivial
    (fun _ _ _ _ _ => trivial) ?_ es (s, g) h).2
  rintro es ⟨s, g⟩ e ⟨s', g'⟩ - hstep
  obtain ⟨hs, hg⟩ := observed_eq_some.mp hstep
  dsimp only at hs hg
  rw [hg]
  exact step_refines hs

/-! ## When nothing is spilt -/

/-- The increment does not fall between the load and the exchange of one
report, and it does not wrap `counter`. -/
def InTime (s : State) (e : Event) : Prop :=
  e = .fetchAdd → ¬s.pc.Reporting ∧ s.counter.toNat + 1 < 2 ^ 64

theorem spill_eq_zero {s : State} {e : Event} :
    spill s e = 0 ↔ InTime s e := by
  by_cases he : e = .fetchAdd
  · subst he
    simp only [spill, InTime, forall_const]
    by_cases hpc : s.pc.Reporting
    · simp [hpc]
    · by_cases hfits : s.counter.toNat + 1 < 2 ^ 64
      · simp only [if_neg hpc, if_pos hfits, true_iff]
        exact ⟨hpc, hfits⟩
      · rw [if_neg hpc, if_neg hfits]
        exact ⟨fun h => absurd h (by decide), fun h => absurd h.2 hfits⟩
  · have hnone : spill s e = 0 := by
      cases e with
      | fetchAdd => exact absurd rfl he
      | _ => rfl
    exact ⟨fun _ h => absurd h he, fun _ => hnone⟩

/-- The reports and the counter account for every increment. -/
def Accounted (es : List Event) (s : State) : Prop :=
  (s.reports.map fun r => r.received.toNat).sum + s.counter.toNat =
    es.count .fetchAdd

instance (es : List Event) (s : State) : Decidable (Accounted es s) :=
  inferInstanceAs (Decidable (_ = _))

/-- **No message lost or counted twice.**  At the top of the reporter's loop,
reports and counter account for every increment if and only if every
increment of the run was in time. -/
theorem sub_thr_accounts_iff (scenario : Option String) (es : List Event)
    (s : State) (h : exec (step scenario) init es = some s)
    (htop : s.pc = .top) :
    Accounted es s ↔ Meets (step scenario) InTime init es := by
  obtain ⟨g, hg⟩ := exec_observed_exists (fun g s e => g + spill s e) 0 h
  have hbalance := conserved_of_run (run_refines scenario es s g hg)
  have hpending : pending s = s.counter.toNat := by simp [pending, htop]
  have hzero : g = 0 ↔ Meets (step scenario) InTime init es := by
    rw [observed_cost_eq_zero hg]
    simp only [spill_eq_zero, true_and]
  rw [← hzero]
  unfold Accounted
  simp only [Conserved, ledger, hpending] at hbalance
  omega

/-- One sample before a report and one beside it: `late` runs between the
load and the end of the report, `early` after its exchange. -/
def oneReport (late early : List Event) : List Event :=
  [.stampStart ⟨0, 0⟩, .storeSize 8, .fetchAdd, .load] ++ late ++
    [.stampStop ⟨1, 0⟩, .print, .exchange] ++ early ++ [.stampStart ⟨1, 0⟩]

/-- One sample. -/
def sample : List Event := [.storeSize 8, .fetchAdd]

theorem sub_thr_accounts_early :
    ∃ s, exec (step none) init (oneReport [] sample) = some s ∧
      (Accounted (oneReport [] sample) s ↔
        Meets (step none) InTime init (oneReport [] sample)) :=
  ⟨_, rfl, sub_thr_accounts_iff none (oneReport [] sample) _ rfl rfl⟩

/-- Two samples were counted, one was reported and none is left. -/
theorem sub_thr_accounts_late :
    ∃ s, exec (step none) init (oneReport sample []) = some s ∧
      s.pc = .top ∧ s.reports.map (·.received) = [1] ∧ s.counter = 0 ∧
      ¬Accounted (oneReport sample []) s :=
  ⟨_, rfl, rfl, rfl, rfl, by decide⟩

end ZenohPicoPerf.Throughput.ZenohSub

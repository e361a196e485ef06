import ZenohPicoPerf.Foundation.Run
import Mathlib.Data.List.Destutter
import Mathlib.Data.List.Forall2
import Mathlib.Logic.Relation

/-!
# Watching a register for changes

A register holds the last value that was written to it.  A watcher polls it
now and then, compares the value with the last one it reported, and reports
it when the two differ.  Writes and polls come in any order.

The watcher misses values that are overwritten between two polls, and it
takes two equal writes for one, but what it reports is a subsequence of what
was written: `reports_of_run` gives every report a version of the register,
in increasing order.
-/

namespace ZenohPicoPerf.Foundation.Register

open ZenohPicoPerf.Foundation.Run

variable {V : Type*}

/-- One more element is kept if and only if it differs from the last one that
was kept. -/
theorem destutter'_snoc [DecidableEq V] {a z : V} {l : List V} (b : V)
    (hlast : (l.destutter' (· ≠ ·) a).getLast? = some z) :
    (l ++ [b]).destutter' (· ≠ ·) a =
      if z ≠ b then l.destutter' (· ≠ ·) a ++ [b]
      else l.destutter' (· ≠ ·) a := by
  induction l generalizing a with
  | nil =>
      obtain rfl : a = z := by simpa using hlast
      by_cases h : a = b <;> simp [h]
  | cons c l ih =>
      rw [List.cons_append, List.destutter'_cons, List.destutter'_cons]
      rw [List.destutter'_cons] at hlast
      by_cases h : a ≠ c
      · rw [if_pos h, if_pos h]
        rw [if_pos h, List.getLast?_cons_of_ne_nil
          (List.destutter'_ne_nil _ _)] at hlast
        rw [ih hlast]
        split <;> simp
      · rw [if_neg h, if_neg h]
        rw [if_neg h] at hlast
        exact ih hlast

/-- A register with all its versions, oldest first, and its watcher: the last
value it reported (or what it started from), every value it polled and every
value it reported. -/
structure Watch (V : Type*) where
  versions : List V
  last : V
  polled : List V
  reported : List V

inductive Step : Watch V → Watch V → Prop
  | write (w : Watch V) (v : V) :
      Step w { w with versions := w.versions ++ [v] }
  | same (w : Watch V) (v : V) (hcurrent : w.versions.getLast? = some v)
      (hsame : v = w.last) : Step w { w with polled := w.polled ++ [v] }
  | changed (w : Watch V) (v : V) (hcurrent : w.versions.getLast? = some v)
      (hchanged : v ≠ w.last) :
      Step w { w with
        last := v
        polled := w.polled ++ [v]
        reported := w.reported ++ [v] }

/-- The reports carry the versions `is`. -/
structure Versioned (w : Watch V) (is : List Nat) : Prop where
  increasing : is.Pairwise (· < ·)
  reported : List.Forall₂ (fun i v => w.versions[i]? = some v) is w.reported
  last : ∀ i ∈ is.getLast?, w.versions[i]? = some w.last

/-- What every step keeps; `first` is the value the watcher started from. -/
structure Watched [DecidableEq V] (first : V) (w : Watch V) : Prop where
  changes : first :: w.reported = w.polled.destutter' (· ≠ ·) first
  last : (first :: w.reported).getLast? = some w.last
  versioned : ∃ is, Versioned w is

theorem watched_start [DecidableEq V] (first v : V) :
    Watched first ⟨[v], first, [], []⟩ := by
  refine { changes := rfl, last := rfl, versioned := ⟨[], ?_⟩ }
  exact { increasing := List.Pairwise.nil, reported := List.Forall₂.nil,
          last := fun i hi => by cases hi }

/-- Versions stay what they are when another one is written. -/
theorem Versioned.write {w : Watch V} {is : List Nat} (h : Versioned w is)
    (v : V) : Versioned { w with versions := w.versions ++ [v] } is := by
  exact
    { increasing := h.increasing
      reported := h.reported.imp fun _ _ hi => getElem?_snoc hi v
      last := fun i hi => getElem?_snoc (h.last i hi) v }

/-- A report takes the newest version, which no earlier report has. -/
theorem Versioned.report {w : Watch V} {is : List Nat} (h : Versioned w is)
    {v : V} (hcurrent : w.versions.getLast? = some v) (hchanged : v ≠ w.last) :
    Versioned { w with
      last := v, polled := w.polled ++ [v], reported := w.reported ++ [v] }
      (is ++ [w.versions.length - 1]) := by
  have hnewest : w.versions[w.versions.length - 1]? = some v := by
    rw [← List.getLast?_eq_getElem?, hcurrent]
  have hlater : ∀ i ∈ is, i < w.versions.length - 1 := by
    intro i hi
    obtain ⟨j, hj⟩ : ∃ j, is.getLast? = some j :=
      Option.ne_none_iff_exists'.mp (by
        rw [Ne, List.getLast?_eq_none_iff]
        exact List.ne_nil_of_mem hi)
    have hversion : w.versions[j]? = some w.last := h.last j hj
    have hjlt := (List.getElem?_eq_some_iff.mp hversion).1
    have hjne : j ≠ w.versions.length - 1 := by
      rintro rfl
      exact hchanged (Option.some.inj (hnewest.symm.trans hversion))
    obtain ⟨front, rfl⟩ := List.getLast?_eq_some_iff.mp hj
    rcases List.mem_append.mp hi with hfront | hback
    · have hlt := (List.pairwise_append.mp h.increasing).2.2 i hfront j
        (by simp)
      omega
    · rw [List.mem_singleton.mp hback]
      omega
  refine { increasing := ?_, reported := ?_, last := ?_ }
  · refine List.pairwise_append.mpr
      ⟨h.increasing, List.pairwise_singleton _ _, ?_⟩
    intro i hi j hj
    rw [List.mem_singleton.mp hj]
    exact hlater i hi
  · exact List.rel_append h.reported (List.Forall₂.cons hnewest .nil)
  · intro i hi
    rw [List.getLast?_concat] at hi
    obtain rfl := Option.some.inj hi
    exact hnewest

theorem Step.watched [DecidableEq V] {first : V} {w w' : Watch V}
    (h : Step w w') (hw : Watched first w) : Watched first w' := by
  have hlast := hw.last
  rw [hw.changes] at hlast
  obtain ⟨is, his⟩ := hw.versioned
  cases h with
  | write v =>
      exact { changes := hw.changes, last := hw.last,
              versioned := ⟨is, his.write v⟩ }
  | same v hcurrent hsame =>
      refine { changes := ?_, last := hw.last, versioned := ⟨is, ?_⟩ }
      · rw [destutter'_snoc v hlast, if_neg (not_not.mpr hsame.symm)]
        exact hw.changes
      · exact { increasing := his.increasing, reported := his.reported,
                last := his.last }
  | changed v hcurrent hchanged =>
      refine { changes := ?_, last := ?_,
               versioned := ⟨_, his.report hcurrent hchanged⟩ }
      · rw [destutter'_snoc v hlast, if_pos hchanged.symm, ← hw.changes]
        rfl
      · show ((first :: w.reported) ++ [v]).getLast? = some v
        exact List.getLast?_concat

/-- Whatever the order of writes and polls, the watcher reports exactly the
polled values that differ from the last one reported, and its reports have
strictly increasing versions. -/
theorem reports_of_run [DecidableEq V] {first v : V} {w : Watch V}
    (h : Relation.ReflTransGen Step ⟨[v], first, [], []⟩ w) :
    Watched first w := by
  induction h with
  | refl => exact watched_start first v
  | tail _ hstep ih => exact hstep.watched ih

end ZenohPicoPerf.Foundation.Register

import ZenohPicoPerf.Throughput.ZenohSubReports

/-!
# z_sub_thr: the printed payload size

The size in a report is that of the last message whose handler has started,
not that of the messages that the report counts.  The two differ as soon as a
message of another length arrives while a counted message waits for its
report.

## Main results

* `sized_step` — one size for all waiting messages.
* `sizes_printed_of_meets` — the reports of a run without such a change.
* `sub_thr_sizes_iff` — when every counted message has the printed size.
-/

namespace ZenohPicoPerf.Throughput.ZenohSub

open ZenohPicoPerf.Foundation.Memory
open ZenohPicoPerf.Foundation.Run
open ZenohPicoPerf.Common.Clock

/-- The payload length of the message is the number `size`. -/
def HasSize (m : Handled) (size : CInt) : Prop :=
  (m.len.toNat : Int) = size.toInt

instance (m : Handled) (size : CInt) : Decidable (HasSize m size) :=
  inferInstanceAs (Decidable (_ = _))

/-- Every message that a report counts has the printed size. -/
def SizesPrinted (p : State × Seen) : Prop :=
  List.Forall₂ (fun r t => ∀ m ∈ t.counted, HasSize m r.payloadSize)
    p.1.reports p.2.tallies

instance (p : State × Seen) : Decidable (SizesPrinted p) :=
  inferInstanceAs (Decidable (List.Forall₂ _ _ _))

/-- A payload length that an `int` can hold. -/
def FitsInt (e : Event) : Prop :=
  ∀ len, e = .storeSize len → len.toNat < 2 ^ 31

/-- The handler stores another payload size only while no message waits to be
reported. -/
def SameSize (s : State) (e : Event) : Prop :=
  ∀ len, e = .storeSize len → pending s = 0 ∨ len.setWidth 32 = s.payloadSize

theorem setWidth_toInt {len : Word} (h : len.toNat < 2 ^ 31) :
    (len.setWidth 32 : CInt).toInt = (len.toNat : Int) := by
  have hnat : (len.setWidth 32).toNat = len.toNat := by
    rw [BitVec.toNat_setWidth]
    exact Nat.mod_eq_of_lt (by omega)
  rw [BitVec.toInt_eq_toNat_of_lt (by omega), hnat]

/-- What every step with `SameSize` keeps. -/
structure Sized (p : State × Seen) : Prop where
  handled : p.1.handler = .stored →
    (p.2.len.toNat : Int) = p.1.payloadSize.toInt
  waiting : ∀ m ∈ waiting p, HasSize m p.1.payloadSize
  reports : SizesPrinted p

theorem Sized.of_silent {p p' : State × Seen} (h : Sized p)
    (hsilent : Silent p p') (hhandler : p'.1.handler = p.1.handler)
    (hlen : p'.2.len = p.2.len) : Sized p' := by
  refine { handled := ?_, waiting := ?_, reports := ?_ }
  · rw [hhandler, hlen, hsilent.payloadSize]
    exact h.handled
  · rw [hsilent.waiting, hsilent.payloadSize]
    exact h.waiting
  · unfold SizesPrinted
    rw [hsilent.reports, hsilent.tallies]
    exact h.reports

theorem sized_step {scenario : Option String} {p p' : State × Seen} {e : Event}
    (htallied : Tallied p) (h : Sized p) (hfits : FitsInt e)
    (hsame : SameSize p.1 e) (hstep : watched scenario p e = some p') :
    Sized p' := by
  obtain ⟨hen, rfl⟩ := watched_cases hstep
  have hsilent : OfMain e → e ≠ .print →
      Silent p (next scenario p.1 e, see p.2 p.1 e) :=
    silent_next scenario hen
  cases e with
  | storeSize len =>
      have hlen := setWidth_toInt (hfits len rfl)
      refine { handled := fun _ => hlen.symm, waiting := ?_,
               reports := h.reports }
      intro m hm
      have hold : m ∈ waiting p := hm
      rcases hsame len rfl with hnone | hsize
      · have hempty : waiting p = [] := by
          rw [← List.length_eq_zero_iff, waiting_length htallied, hnone]
        rw [hempty] at hold
        cases hold
      · show HasSize m (len.setWidth 32)
        rw [hsize]
        exact h.waiting m hold
  | fetchAdd =>
      refine { handled := fun hidle => (by cases hidle), waiting := ?_,
               reports := h.reports }
      intro m hm
      rcases mem_waiting_fetchAdd hm with hold | ⟨-, rfl⟩
      · exact h.waiting m hold
      · exact h.handled hen
  | stampStart now | load | stampStop now | exchange =>
      exact h.of_silent (hsilent trivial (by simp)) rfl rfl
  | print =>
      have hloaded : waiting p = p.2.loaded := by
        have hpc : p.1.pc = .stamped := hen
        simp [waiting, hpc]
      refine { handled := h.handled, waiting := ?_, reports := ?_ }
      · intro m hm
        cases hm
      · refine List.rel_append h.reports (List.Forall₂.cons ?_ .nil)
        rw [← hloaded]
        exact h.waiting

theorem sized_exec (scenario : Option String) (es : List Event)
    (p : State × Seen) (hfits : ∀ e ∈ es, FitsInt e)
    (hmeets : Meets (watched scenario) (fun p e => SameSize p.1 e)
      (init, Seen.init) es)
    (h : exec (watched scenario) (init, Seen.init) es = some p) : Sized p := by
  have hboth := exec_history_of_meets
    (fun es p => (∀ e ∈ es, FitsInt e) → Tallied p ∧ Sized p) ?_ ?_ es p hmeets h
  · exact (hboth hfits).2
  · intro _
    exact
      ⟨tallied_exec scenario [] _ rfl,
        { handled := fun hstored => (by cases hstored)
          waiting := fun m hm => (by cases hm)
          reports := List.Forall₂.nil }⟩
  · intro es p e p' ih hsame hstep hfits
    obtain ⟨htallied, hsized⟩ := ih fun a ha => hfits a (by simp [ha])
    exact ⟨tallied_step htallied hstep,
      sized_step htallied hsized (hfits e (by simp)) hsame hstep⟩

/-- A run in which no size is stored while a message waits prints the size of
every message it counts. -/
theorem sizes_printed_of_meets (scenario : Option String) {es : List Event}
    {p : State × Seen} (hfits : ∀ e ∈ es, FitsInt e)
    (hmeets : Meets (step scenario) SameSize init es)
    (h : exec (watched scenario) (init, Seen.init) es = some p) :
    SizesPrinted p :=
  (sized_exec scenario es p hfits (meets_observed.mpr hmeets) h).reports

theorem last_of_forall₂ {α β : Type*} {R : α → β → Prop} {as : List α}
    {bs : List β} {a : α} {b : β}
    (h : List.Forall₂ R (as ++ [a]) (bs ++ [b])) : R a b := by
  have hreverse := List.forall₂_reverse_iff.mpr h
  rw [List.reverse_concat, List.reverse_concat, List.forall₂_cons] at hreverse
  exact hreverse.1

/-- A change of size while messages wait is printed with the wrong size, if
`main` goes on alone. -/
theorem misattributed_of_change {scenario : Option String}
    {p p' : State × Seen} {e : Event} (htallied : Tallied p) (h : Sized p)
    (hfits : FitsInt e) (hsame : ¬SameSize p.1 e)
    (hstep : watched scenario p e = some p') :
    ∃ fs q, (∀ f ∈ fs, OfMain f) ∧
      exec (watched scenario) p' fs = some q ∧ ¬SizesPrinted q := by
  obtain ⟨-, rfl⟩ := watched_cases hstep
  simp only [SameSize, not_forall, not_or] at hsame
  obtain ⟨len, rfl, hpending, hsize⟩ := hsame
  have hpending' : pending (next scenario p.1 (.storeSize len)) ≠ 0 := hpending
  obtain ⟨startAt, fs, q, r, t, hfs, hq, hreports, htallies, hprinted,
    hcounted, -⟩ := canReport_of_pending scenario
      (p := (_, see p.2 p.1 (.storeSize len))) hpending'
  refine ⟨fs, q, hfs, hq, ?_⟩
  intro hall
  have hwaiting : t.counted = waiting p := hcounted
  obtain ⟨m, hm⟩ : ∃ m, m ∈ waiting p := by
    apply List.exists_mem_of_ne_nil
    intro hempty
    rw [← waiting_length htallied, hempty] at hpending
    exact hpending rfl
  -- the message was counted with the old size and is printed with the new one
  have hold : HasSize m p.1.payloadSize := h.waiting m hm
  have hnew : HasSize m r.payloadSize := by
    unfold SizesPrinted at hall
    rw [hreports, htallies] at hall
    exact last_of_forall₂ hall m (hwaiting ▸ hm)
  have hsizes : r.payloadSize = p.1.payloadSize :=
    BitVec.eq_of_toInt_eq (hnew.symm.trans hold)
  have hstored : r.payloadSize = len.setWidth 32 := hprinted
  exact hsize (hstored.symm.trans hsizes)

/-- **The printed payload size.**  In a run and in whatever `main` alone makes
of any beginning of it, every message that a report counts has the printed
size, if and only if the handler never stores another size while a message
waits to be reported. -/
theorem sub_thr_sizes_iff (scenario : Option String) (es : List Event)
    (hfits : ∀ e ∈ es, FitsInt e) (s : State)
    (h : exec (step scenario) init es = some s) :
    (∀ pre fs p, pre <+: es → (∀ f ∈ fs, OfMain f) →
      exec (watched scenario) (init, Seen.init) (pre ++ fs) = some p →
      SizesPrinted p) ↔ Meets (step scenario) SameSize init es := by
  obtain ⟨g, hg⟩ := exec_observed_exists see Seen.init h
  have hcontinuations := meets_iff_continuations
    (fun p e => SameSize p.1 e) SizesPrinted FitsInt OfMain ?_ ?_ ?_ ?_
    hfits hg
  · rw [← hcontinuations]
    exact meets_observed
  · rintro e he len rfl
    exact he.elim
  · rintro p e he len rfl
    exact he.elim
  · intro es p hfits hmeets hp
    exact (sized_exec scenario es p hfits hmeets hp).reports
  · intro es p e p' hfits he hmeets hp hstep hsame
    exact misattributed_of_change (tallied_exec scenario es p hp)
      (sized_exec scenario es p hfits hmeets hp) he hsame hstep

theorem sub_thr_sizes_steady :
    (∀ pre fs p, pre <+: report (message 8) [] (message 16) →
      (∀ f ∈ fs, OfMain f) →
      exec (watched none) (init, Seen.init) (pre ++ fs) = some p →
      SizesPrinted p) ↔
    Meets (step none) SameSize init (report (message 8) [] (message 16)) :=
  sub_thr_sizes_iff none (report (message 8) [] (message 16))
    (by simp [report, message, FitsInt]) _ rfl

/-- A message of 16 bytes comes between the load and the print: the report
counts one message, of 8 bytes, and prints the size 16. -/
theorem sub_thr_sizes_changed :
    ∃ p, exec (watched none) (init, Seen.init)
        (report (message 8) (message 16) []) = some p ∧
      p.1.reports.map (fun r => (r.payloadSize, r.received)) = [(16, 1)] ∧
      p.2.tallies.map (fun t => t.counted.map Handled.len) = [[8]] ∧
      ¬SizesPrinted p :=
  ⟨_, rfl, rfl, rfl, by decide⟩

end ZenohPicoPerf.Throughput.ZenohSub

import ZenohPicoPerf.Throughput.ZenohSub
import ZenohPicoPerf.Foundation.PubSub

/-!
# z_pub_thr and z_sub_thr together

Any number of z_pub_thr processes, each with its own payload size, put their
buffers to one z_sub_thr over a network that delays, reorders and loses them.
The delivery of a sample is the first statement of `data_handler`; everything
else the two tasks of the subscriber do is interleaved with it in any way.

## Main results

* `received_le_stored`, `sized_run` — what the reports of the subscriber have
  to do with the samples it got.
* `zenoh_reports_published` — no report counts a message that was not
  published, or shows a size that no publisher has.
-/

namespace ZenohPicoPerf.Throughput.ZenohSystem

open ZenohPicoPerf.Foundation
open ZenohPicoPerf.Foundation.Memory
open ZenohPicoPerf.Foundation.Run
open ZenohPicoPerf.Foundation.Ledger
open ZenohPicoPerf.Common.Clock

/-! ## The publisher -/

/-- z_pub_thr behind its set-up; `puts` counts the calls of
`z_publisher_put`. -/
structure Publisher where
  payloadSize : CInt
  data : List Byte
  puts : Nat
deriving DecidableEq, Repr

/-- `malloc(payload_size)` and the `memset`.  A negative size is converted to
one that no allocation has, and the null pointer is written to. -/
def startPublisher (payloadSize : CInt) : Option Publisher :=
  if 0 ≤ payloadSize.toInt then
    some { payloadSize := payloadSize
           data := List.replicate payloadSize.toNat 1
           puts := 0 }
  else none

/-- One `z_publisher_put` of `payload_size` bytes of the buffer. -/
def publish (p : Publisher) (_ : Unit) :
    Option (Publisher × Option (List Byte)) :=
  let len := p.payloadSize.toWord.toNat
  if len ≤ p.data.length then
    some ({ p with puts := p.puts + 1 }, some (p.data.take len))
  else none

/-! ## The subscriber -/

/-- `sample->payload.len` -/
def payloadLen (sample : List Byte) : Word := BitVec.ofNat 64 sample.length

/-- `data_handler` begins to run on a sample. -/
def handle (scenario : Option String) (s : ZenohSub.State)
    (sample : List Byte) (_ : Unit) : Option ZenohSub.State :=
  ZenohSub.step scenario s (.storeSize (payloadLen sample))

/-- Any other statement of the two tasks. -/
def internal (scenario : Option String) (s : ZenohSub.State) :
    ZenohSub.Event → Option ZenohSub.State
  | .storeSize _ => none
  | e => ZenohSub.step scenario s e

abbrev State := PubSub.State Publisher (List Byte) ZenohSub.State

abbrev Event := PubSub.Event CInt Unit Unit ZenohSub.Event

def init : State := PubSub.init ZenohSub.init

def step (scenario : Option String) : State → Event → Option State :=
  PubSub.step startPublisher publish (handle scenario) (internal scenario)

/-! ## The subscriber's runs and its samples -/

section Runs

variable {scenario : Option String}

/-- The lengths of the samples on which `data_handler` was run. -/
def stored (es : List ZenohSub.Event) : List Word :=
  es.filterMap fun e =>
    match e with
    | .storeSize len => some len
    | _ => none

@[simp] theorem stored_storeSize (es : List ZenohSub.Event) (len : Word) :
    stored (es ++ [.storeSize len]) = stored es ++ [len] := by
  simp [stored]

theorem stored_other (es : List ZenohSub.Event) {e : ZenohSub.Event}
    (he : ∀ len, e ≠ .storeSize len) : stored (es ++ [e]) = stored es := by
  cases e with
  | storeSize len => exact absurd rfl (he len)
  | _ => simp [stored]

/-- Every sample but the one being handled was counted. -/
def Counted (es : List ZenohSub.Event) (s : ZenohSub.State) : Prop :=
  es.count .fetchAdd + (if s.handler = .stored then 1 else 0) =
    (stored es).length

theorem counted_step {es : List ZenohSub.Event} {s s' : ZenohSub.State}
    {e : ZenohSub.Event} (h : Counted es s)
    (hstep : ZenohSub.step scenario s e = some s') :
    Counted (es ++ [e]) s' := by
  obtain ⟨hen, rfl⟩ := guarded_eq_some.mp hstep
  unfold Counted at h ⊢
  rw [List.count_append]
  cases e with
  | storeSize len =>
      have hidle : s.handler = .idle := hen
      simpa [ZenohSub.next, hidle] using h
  | fetchAdd =>
      have hstored : s.handler = .stored := hen
      rw [stored_other es (by simp)]
      simpa [ZenohSub.next, ZenohSub.increment, hstored] using h
  | stampStart now | stampStop now | load | print | exchange =>
      rw [stored_other es (by simp)]
      exact h

theorem counted_run : ∀ es s,
    exec (ZenohSub.step scenario) ZenohSub.init es = some s → Counted es s :=
  exec_history Counted rfl fun _ _ _ _ => counted_step

/-- No report counts more than the samples there were. -/
theorem received_le_stored {es : List ZenohSub.Event} {s : ZenohSub.State}
    (h : exec (ZenohSub.step scenario) ZenohSub.init es = some s) :
    (s.reports.map fun r => r.received.toNat).sum ≤ (stored es).length := by
  obtain ⟨g, hg⟩ :=
    exec_observed_exists (fun g s e => g + ZenohSub.spill s e) 0 h
  have hbalance :=
    conserved_of_run (ZenohSub.run_refines scenario es s g hg)
  have hcounted := counted_run es s h
  simp only [Conserved, ZenohSub.ledger] at hbalance
  unfold Counted at hcounted
  omega

/-- Sizes as `payload_size` keeps them. -/
def sizes (es : List ZenohSub.Event) : List CInt :=
  (stored es).map (BitVec.setWidth 32)

/-- Before the first sample nothing can be reported; afterwards `payload_size`
and every report show the size of a sample. -/
structure Sized (es : List ZenohSub.Event) (s : ZenohSub.State) : Prop where
  fresh : sizes es = [] →
    s.handler = .idle ∧ s.counter = 0 ∧ ¬s.pc.Reporting
  current : sizes es ≠ [] → s.payloadSize ∈ sizes es
  reports : ∀ r ∈ s.reports, r.payloadSize ∈ sizes es

theorem sized_init : Sized [] ZenohSub.init where
  fresh _ := ⟨rfl, rfl, by decide⟩
  current h := absurd rfl h
  reports := by simp [ZenohSub.init]

theorem sizes_other (es : List ZenohSub.Event) {e : ZenohSub.Event}
    (he : ∀ len, e ≠ .storeSize len) : sizes (es ++ [e]) = sizes es := by
  rw [sizes, stored_other es he, sizes]

/-- A report is under way only when there was a sample. -/
theorem Sized.reporting {es : List ZenohSub.Event} {s : ZenohSub.State}
    (h : Sized es s) (hpc : s.pc.Reporting) : sizes es ≠ [] :=
  fun hnil => (h.fresh hnil).2.2 hpc

theorem sized_step {es : List ZenohSub.Event} {s s' : ZenohSub.State}
    {e : ZenohSub.Event} (h : Sized es s)
    (hstep : ZenohSub.step scenario s e = some s') : Sized (es ++ [e]) s' := by
  obtain ⟨hen, rfl⟩ := guarded_eq_some.mp hstep
  cases e with
  | storeSize len =>
      have hsizes : sizes (es ++ [.storeSize len]) =
          sizes es ++ [len.setWidth 32] := by simp [sizes]
      refine { fresh := ?_, current := ?_, reports := ?_ } <;> rw [hsizes]
      · simp
      · exact fun _ => List.mem_append_right _ (List.mem_singleton.mpr rfl)
      · exact fun r hr => List.mem_append_left _ (h.reports r hr)
  | fetchAdd =>
      have hstored : s.handler = .stored := hen
      refine { fresh := ?_, current := ?_, reports := ?_ } <;>
        rw [sizes_other es (by simp)]
      · intro hnil
        have hidle := (h.fresh hnil).1
        rw [hstored] at hidle
        cases hidle
      · exact h.current
      · exact h.reports
  | stampStart now =>
      refine { fresh := ?_, current := ?_, reports := ?_ } <;>
        rw [sizes_other es (by simp)]
      · intro hnil
        have htop : ¬ZenohSub.Pc.Reporting .top := by decide
        exact ⟨(h.fresh hnil).1, (h.fresh hnil).2.1, htop⟩
      · exact h.current
      · exact h.reports
  | load =>
      refine { fresh := ?_, current := ?_, reports := ?_ } <;>
        rw [sizes_other es (by simp)]
      · intro hnil
        have hzero := (h.fresh hnil).2.1
        refine ⟨(h.fresh hnil).1, hzero, ?_⟩
        simp [ZenohSub.next, hzero, ZenohSub.Pc.Reporting]
      · exact h.current
      · exact h.reports
  | stampStop now =>
      have hne := h.reporting (Or.inl hen)
      refine { fresh := ?_, current := ?_, reports := ?_ } <;>
        rw [sizes_other es (by simp)]
      · exact fun hnil => absurd hnil hne
      · exact h.current
      · exact h.reports
  | print =>
      have hne := h.reporting (Or.inr (Or.inl hen))
      refine { fresh := ?_, current := ?_, reports := ?_ } <;>
        rw [sizes_other es (by simp)]
      · exact fun hnil => absurd hnil hne
      · exact h.current
      · intro r hr
        rcases List.mem_append.mp hr with hold | hnew
        · exact h.reports r hold
        · obtain rfl := List.mem_singleton.mp hnew
          exact h.current hne
  | exchange =>
      have hne := h.reporting (Or.inr (Or.inr hen))
      refine { fresh := ?_, current := ?_, reports := ?_ } <;>
        rw [sizes_other es (by simp)]
      · exact fun hnil => absurd hnil hne
      · exact h.current
      · exact h.reports

theorem sized_run : ∀ es s,
    exec (ZenohSub.step scenario) ZenohSub.init es = some s → Sized es s :=
  exec_history Sized sized_init fun _ _ _ _ => sized_step

/-! ## One step of each party -/

/-- The buffer holds what the program announces. -/
def Filled (p : Publisher) : Prop :=
  0 ≤ p.payloadSize.toInt ∧ p.data.length = p.payloadSize.toNat

theorem Filled.payload {p : Publisher} (h : Filled p) :
    p.data.take p.payloadSize.toWord.toNat = p.data := by
  rw [CInt.toWord_toNat h.1, ← h.2, List.take_length]

/-- `payload.len`, stored in an `int`, is the size of the publisher. -/
theorem Filled.size {p : Publisher} (h : Filled p) :
    (payloadLen p.data).setWidth 32 = p.payloadSize := by
  rw [payloadLen, h.2]
  apply BitVec.eq_of_toNat_eq
  have hlt := p.payloadSize.isLt
  rw [BitVec.toNat_setWidth, BitVec.toNat_ofNat]
  omega

/-- The subscriber ran on the samples `hs`. -/
def Ran (scenario : Option String) (hs : List (List Byte))
    (s : ZenohSub.State) : Prop :=
  ∃ es, exec (ZenohSub.step scenario) ZenohSub.init es = some s ∧
    stored es = hs.map payloadLen

def emitted (p : Publisher) : List (List Byte) := List.replicate p.puts p.data

theorem rules : PubSub.Rules startPublisher publish (handle scenario)
    (internal scenario) Filled (fun _ => True) (Ran scenario) emitted where
  start := by
    intro size p hp
    unfold startPublisher at hp
    split at hp
    · rename_i hnonneg
      obtain rfl := Option.some.inj hp
      exact ⟨⟨hnonneg, List.length_replicate⟩, rfl⟩
    · cases hp
  publish := by
    intro p e p' out hp h
    unfold publish at h
    dsimp only at h
    split at h
    · obtain ⟨rfl, rfl⟩ := Prod.mk.inj (Option.some.inj h)
      refine ⟨hp, fun _ _ => trivial, ?_⟩
      rw [hp.payload]
      exact List.replicate_succ'
    · cases h
  handle := by
    rintro hs s sample d s' ⟨es, hes, hstored⟩ - h
    have hstep : ZenohSub.step scenario s (.storeSize (payloadLen sample)) =
        some s' := h
    refine ⟨_, exec_snoc.mpr ⟨s, hes, hstep⟩, ?_⟩
    rw [stored_storeSize, hstored, List.map_append, List.map_singleton]
  internal := by
    rintro hs s e s' ⟨es, hes, hstored⟩ h
    cases e with
    | storeSize len => cases h
    | fetchAdd | load | print | exchange =>
        refine ⟨_, exec_snoc.mpr ⟨s, hes, h⟩, ?_⟩
        rw [stored_other es (by simp), hstored]
    | stampStart now | stampStop now =>
        refine ⟨_, exec_snoc.mpr ⟨s, hes, h⟩, ?_⟩
        rw [stored_other es (by simp), hstored]

end Runs

/-! ## End to end -/

/-- **Reports and publications.**  In every run of the subscriber with any
number of publishers, the messages counted in all reports and those in flight
and lost are at most the messages that were put, and every report shows the
payload size of a publisher that put one. -/
theorem zenoh_reports_published (scenario : Option String) (es : List Event)
    (s : State) (h : exec (step scenario) init es = some s) :
    (s.sub.reports.map fun r => r.received.toNat).sum +
        s.link.flight.length + s.link.dropped.length ≤
      (s.pubs.map Publisher.puts).sum ∧
    ∀ r ∈ s.sub.reports, ∃ p ∈ s.pubs,
      0 < p.puts ∧ r.payloadSize = p.payloadSize := by
  have hstart : Ran scenario [] ZenohSub.init := ⟨[], rfl, rfl⟩
  have hholds := PubSub.exec_rule rules hstart h
  obtain ⟨es', hes', hstored⟩ := hholds.sub
  constructor
  · have hreceived := received_le_stored hes'
    have hput : (s.pubs.flatMap emitted).length =
        (s.pubs.map Publisher.puts).sum := by
      simp [List.length_flatMap, emitted]
    have hall := hholds.handled.length_eq
    rw [hput, List.length_append, List.length_append] at hall
    rw [hstored, List.length_map] at hreceived
    omega
  · intro r hr
    have hsize := (sized_run es' s.sub hes').reports r hr
    rw [sizes, hstored, List.map_map, List.mem_map] at hsize
    obtain ⟨sample, hsample, hsize⟩ := hsize
    have hput : sample ∈ s.pubs.flatMap emitted :=
      hholds.handled.subset (List.mem_append_left _ hsample)
    obtain ⟨p, hp, hmem⟩ := List.mem_flatMap.mp hput
    obtain ⟨hne, rfl⟩ := List.mem_replicate.mp hmem
    refine ⟨p, hp, Nat.pos_of_ne_zero hne, ?_⟩
    rw [← hsize]
    exact (hholds.pubs p hp).size

/-- Two publishers with payloads of 8 and 16 bytes; a sample of each is
counted, and a third one is lost. -/
def mixed : List Event :=
  [.join 8, .join 16, .publish 0 (), .publish 1 (), .publish 0 (),
    .internal (.stampStart ⟨0, 0⟩), .deliver 0 (), .internal .fetchAdd,
    .deliver 0 (), .internal .fetchAdd, .drop 0, .internal .load,
    .internal (.stampStop ⟨1, 0⟩), .internal .print, .internal .exchange]

theorem zenoh_reports_mixed :
    ∃ s, exec (step none) init mixed = some s ∧
      (s.sub.reports.map fun r => r.received.toNat).sum +
          s.link.flight.length + s.link.dropped.length ≤
        (s.pubs.map Publisher.puts).sum ∧
      ∀ r ∈ s.sub.reports, ∃ p ∈ s.pubs,
        0 < p.puts ∧ r.payloadSize = p.payloadSize :=
  ⟨_, rfl, zenoh_reports_published none mixed _ rfl⟩

end ZenohPicoPerf.Throughput.ZenohSystem

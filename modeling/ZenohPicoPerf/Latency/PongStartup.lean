import ZenohPicoPerf.Foundation.Memory
import ZenohPicoPerf.Foundation.Schedule

/-!
# z_pong_lat: start-up of the echo

`main` starts the read task, declares the subscriber on "ping" with
`data_handler`, and only then assigns the global `pub` that the handler puts
through.  From the declaration of the subscriber on, pings are handled at any
time: before `pub` is assigned, between the assignment and its check, and also
when the check has failed and `main` returns.

## Main results

* `started_step` — what `pub` and the puts are after any start of a run.
* `pong_echoes_iff` — every ping is echoed exactly when none comes before the
  publisher.
-/

namespace ZenohPicoPerf.Latency.PongStartup

open ZenohPicoPerf.Foundation.Memory
open ZenohPicoPerf.Foundation.Run

/-- `z_owned_publisher_t`: a global starts as `null`, and so does a failed
declaration return it. -/
inductive Publisher where
  | null
  | declared
deriving DecidableEq, Repr

/-- `z_check` -/
def Publisher.check : Publisher → Bool
  | .null => false
  | .declared => true

/-- Where `main` stands, named after the last statement it executed. -/
inductive Pc where
  | opened
  | reading
  | subscribed
  | assigned
  | serving
  | returned
deriving DecidableEq, Repr

/-- One call of `z_publisher_put`. -/
structure Put where
  publisher : Publisher
  payload : List Byte
deriving DecidableEq, Repr

/-- `live` says that the subscriber is declared; `pongs` are the samples put
on "pong". -/
structure State where
  pc : Pc
  live : Bool
  pub : Publisher
  puts : List Put
  pongs : List (List Byte)
deriving DecidableEq, Repr

def init : State :=
  { pc := .opened, live := false, pub := .null, puts := [], pongs := [] }

/-- `ping` is one run of `data_handler`; the other events are the statements
of `main`, with what the call returned. -/
inductive Event where
  | startReadTask
  | declareSubscriber (ok : Bool)
  | declarePublisher (result : Publisher)
  | checkPublisher
  | ping (payload : List Byte)
deriving DecidableEq, Repr

/-- The handler looks at nothing but `pub`.  A put through `null` reaches
nobody. -/
def dataHandler (s : State) (payload : List Byte) : State :=
  { s with
    puts := s.puts ++ [{ publisher := s.pub, payload := payload }]
    pongs := if s.pub.check then s.pongs ++ [payload] else s.pongs }

def enabled (s : State) : Event → Prop
  | .startReadTask => s.pc = .opened
  | .declareSubscriber _ => s.pc = .reading
  | .declarePublisher _ => s.pc = .subscribed
  | .checkPublisher => s.pc = .assigned
  | .ping _ => s.live = true

instance (s : State) (e : Event) : Decidable (enabled s e) :=
  match e with
  | .startReadTask => inferInstanceAs (Decidable (s.pc = .opened))
  | .declareSubscriber _ => inferInstanceAs (Decidable (s.pc = .reading))
  | .declarePublisher _ => inferInstanceAs (Decidable (s.pc = .subscribed))
  | .checkPublisher => inferInstanceAs (Decidable (s.pc = .assigned))
  | .ping _ => inferInstanceAs (Decidable (s.live = true))

def next (s : State) : Event → State
  | .startReadTask => { s with pc := .reading }
  | .declareSubscriber true => { s with pc := .subscribed, live := true }
  | .declareSubscriber false => { s with pc := .returned }
  | .declarePublisher result => { s with pc := .assigned, pub := result }
  | .checkPublisher =>
      -- a failed check returns from `main` and leaves the callback live
      { s with pc := if s.pub.check then .serving else .returned }
  | .ping payload => dataHandler s payload

def step : State → Event → Option State := guarded enabled next

/-! ## When every ping is echoed -/

/-- The declaration of the publisher that succeeds. -/
def Declares (e : Event) : Prop := e = .declarePublisher .declared

def IsPing (e : Event) : Prop := ∃ payload, e = .ping payload

/-- The payloads handled in a schedule. -/
def pings (es : List Event) : List (List Byte) :=
  es.filterMap fun
    | .ping payload => some payload
    | _ => none

/-- No put went through a publisher that does not exist, and every ping that
was handled is echoed. -/
def Echoes (es : List Event) (s : State) : Prop :=
  (∀ p ∈ s.puts, p.publisher = .declared) ∧ s.pongs = pings es

instance (es : List Event) (s : State) : Decidable (Echoes es s) :=
  inferInstanceAs (Decidable (_ ∧ _))

/-- What every step keeps: one put for each ping, and the publisher is the
one that was declared. -/
structure Started (es : List Event) (s : State) : Prop where
  puts : s.puts.map Put.payload = pings es
  early : s.pc = .opened ∨ s.pc = .reading ∨ s.pc = .subscribed →
    s.pub = .null
  pub : s.pub = .declared ↔ ∃ e ∈ es, Declares e

theorem pings_snoc (es : List Event) (e : Event) :
    pings (es ++ [e]) = pings es ++ pings [e] := by
  simp [pings]

/-- A statement of `main` other than the declaration of the publisher. -/
theorem Started.of_main {es : List Event} {s s' : State} {e : Event}
    (h : Started es s) (hping : pings [e] = []) (hdeclares : ¬Declares e)
    (hputs : s'.puts = s.puts) (hpub : s'.pub = s.pub)
    (hearly : s'.pc = .opened ∨ s'.pc = .reading ∨ s'.pc = .subscribed →
      s.pub = .null) : Started (es ++ [e]) s' := by
  refine { puts := ?_, early := ?_, pub := ?_ }
  · rw [hputs, h.puts, pings_snoc, hping, List.append_nil]
  · rw [hpub]
    exact hearly
  · rw [hpub, h.pub, exists_mem_snoc, or_iff_left hdeclares]

theorem started_step {es : List Event} {s s' : State} {e : Event}
    (h : Started es s) (hstep : step s e = some s') :
    Started (es ++ [e]) s' := by
  obtain ⟨hen, rfl⟩ := guarded_eq_some.mp hstep
  cases e with
  | startReadTask =>
      have hpc : s.pc = .opened := hen
      exact h.of_main rfl (by simp [Declares]) rfl rfl
        fun _ => h.early (Or.inl hpc)
  | declareSubscriber ok =>
      have hpc : s.pc = .reading := hen
      have hnull : s.pub = .null := h.early (Or.inr (Or.inl hpc))
      cases ok <;>
        exact h.of_main rfl (by simp [Declares]) rfl rfl fun _ => hnull
  | declarePublisher result =>
      have hpc : s.pc = .subscribed := hen
      have hnull : s.pub = .null := h.early (Or.inr (Or.inr hpc))
      have hfirst : ¬∃ e ∈ es, Declares e := by
        rw [← h.pub, hnull]
        decide
      refine { puts := ?_, early := ?_, pub := ?_ }
      · show s.puts.map Put.payload = _
        rw [h.puts, pings_snoc]
        exact (List.append_nil _).symm
      · intro hpc'
        simp [next] at hpc'
      · rw [exists_mem_snoc, or_iff_right hfirst]
        simp [next, Declares]
  | checkPublisher =>
      refine h.of_main rfl (by simp [Declares]) rfl rfl ?_
      -- `main` is past the check, so nothing is claimed about `pub`
      intro hpc'
      cases hcheck : s.pub.check <;> simp [next, hcheck] at hpc'
  | ping payload =>
      refine { puts := ?_, early := h.early, pub := ?_ }
      · rw [pings_snoc, ← h.puts]
        simp [next, dataHandler, pings]
      · rw [exists_mem_snoc, or_iff_left (by simp [Declares])]
        exact h.pub

/-- A statement of `main` echoes nothing; the handler of a ping needs the
publisher to be declared. -/
theorem echoes_step {es : List Event} {s s' : State} {e : Event}
    (h : Started es s) (hstep : step s e = some s') :
    Echoes (es ++ [e]) s' ↔
      Echoes es s ∧ (IsPing e → ∃ a ∈ es, Declares a) := by
  obtain ⟨-, rfl⟩ := guarded_eq_some.mp hstep
  have hmain : ∀ s' : State, s'.puts = s.puts → s'.pongs = s.pongs →
      pings [e] = [] → ¬IsPing e →
      (Echoes (es ++ [e]) s' ↔
        Echoes es s ∧ (IsPing e → ∃ a ∈ es, Declares a)) := by
    intro s' hputs hpongs hnone hping
    unfold Echoes
    rw [hputs, hpongs, pings_snoc, hnone, List.append_nil]
    simp [hping]
  cases e with
  | startReadTask => exact hmain _ rfl rfl rfl (by simp [IsPing])
  | declareSubscriber ok =>
      cases ok <;> exact hmain _ rfl rfl rfl (by simp [IsPing])
  | declarePublisher result => exact hmain _ rfl rfl rfl (by simp [IsPing])
  | checkPublisher => exact hmain _ rfl rfl rfl (by simp [IsPing])
  | ping payload =>
      have hping : IsPing (.ping payload) := ⟨payload, rfl⟩
      simp only [hping, forall_const]
      rw [← h.pub]
      unfold Echoes
      rw [pings_snoc]
      cases hpub : s.pub with
      | null => simp [next, dataHandler, hpub]
      | declared =>
          have hone : pings [.ping payload] = [payload] := rfl
          rw [hone]
          simp [next, dataHandler, hpub, Publisher.check, or_imp, forall_and]

/-- **Start-up of the echo.**  Whatever the moments at which pings arrive,
every put goes through a declared publisher and every ping is echoed if and
only if no ping comes before the successful declaration of the publisher. -/
theorem pong_echoes_iff (es : List Event) (s : State)
    (h : exec step init es = some s) :
    Echoes es s ↔ After Declares IsPing es := by
  refine exec_everywhere_iff Started Echoes ?_ ?_
    (fun _ _ _ _ => started_step) (fun _ _ _ _ => echoes_step) es s h
  · exact
      { puts := rfl
        early := fun _ => rfl
        pub := by simp [init] }
  · exact ⟨by simp [init], rfl⟩

/-- A successful start-up, with pings before and after the publisher. -/
def startup (early late : List Event) : List Event :=
  [.startReadTask, .declareSubscriber true] ++ early ++
    [.declarePublisher .declared, .checkPublisher] ++ late

theorem pong_echoes_late :
    ∃ s, exec step init (startup [] [.ping [7]]) = some s ∧
      (Echoes (startup [] [.ping [7]]) s ↔
        After Declares IsPing (startup [] [.ping [7]])) :=
  ⟨_, rfl, pong_echoes_iff (startup [] [.ping [7]]) _ rfl⟩

/-- The ping that comes first is put through the empty global and lost. -/
theorem pong_echoes_early :
    ∃ s, exec step init (startup [.ping [7]] [.ping [8]]) = some s ∧
      s.puts = [⟨.null, [7]⟩, ⟨.declared, [8]⟩] ∧ s.pongs = [[8]] ∧
      ¬Echoes (startup [.ping [7]] [.ping [8]]) s :=
  ⟨_, rfl, rfl, rfl, by decide⟩

end ZenohPicoPerf.Latency.PongStartup

import ZenohPicoPerf.Latency.OpcUa
import ZenohPicoPerf.Foundation.Register
import ZenohPicoPerf.Foundation.Run

/-!
# opcua_sub_lat: polling the node

The node is a register of strings.  The subscriber polls it without pause,
un-masks what it gets, and prints a line unless the 16 bytes equal those of
the last line.  A poll that fails or returns another type is skipped.

## Main results

* `unmask_value` — the stores of the subscriber compute the un-masked value.
* `step_refines` — the subscriber is a watcher of the register of values.
* `opcua_prints_changes` — what is printed, and from which versions.
-/

namespace ZenohPicoPerf.Latency.OpcUa

open ZenohPicoPerf.Foundation.Memory
open ZenohPicoPerf.Foundation.Register
open ZenohPicoPerf.Foundation.Run
open ZenohPicoPerf.Common.Clock

def labels (msgsPerSecond : Word) : Labels :=
  { layer := "opc-ua", name := "subscriber", test := "latency",
    scenario := "copc-sopc-copc", msgsPerSecond := msgsPerSecond }

/-- A string of at least 16 bytes. -/
structure Text where
  bytes : List Byte
  long : msgSize ≤ bytes.length
deriving DecidableEq, Repr

/-- The un-masked value of a string: its first 16 bytes with zeros at the
masked positions. -/
def Text.value (t : Text) : List Byte :=
  (t.bytes.take msgSize).mapIdx fun i b => if i ∈ maskedPositions then 0 else b

/-- What `UA_Client_readValueAttribute` and the type check say. -/
inductive Answer where
  | badStatus
  | otherType
  | string
deriving DecidableEq, Repr

/-- The node, `prev` and the output. -/
structure State where
  initial : Text
  writes : List Text
  prev : List Byte
  printed : List Line
deriving DecidableEq, Repr

/-- Version 0 of the node is its initial string, version `i` the `i`-th
write. -/
def State.versions (s : State) : List Text := s.initial :: s.writes

def State.current (s : State) : Text := s.writes.getLast?.getD s.initial

/-- `prev` is allocated with one byte more than is compared, and not
initialised. -/
def start (initial : Text) (prev : Buffer (msgSize + 1)) : State :=
  { initial := initial, writes := [], prev := prev.bytes, printed := [] }

inductive Event where
  | write (t : Text)
  | poll (answer : Answer) (stop : Timeval)
deriving DecidableEq, Repr

/-- The body of the subscriber's `if`. -/
def handle (l : Labels) (s : State) (stop : Timeval) : Option State := do
  let buf ← unmask s.current.bytes
  let (sec, usec) ← decode buf
  let same ← memeq buf s.prev msgSize
  if same then some s
  else
    let prev ← memcpy s.prev 0 (buf.take msgSize)
    some { s with
      prev := prev
      printed := s.printed ++
        [{ labels := l, sec := sec, usec := usec, stop := stop }] }

def step (l : Labels) (s : State) : Event → Option State
  | .write t => some { s with writes := s.writes ++ [t] }
  | .poll .badStatus _ => some s
  | .poll .otherType _ => some s
  | .poll .string stop => handle l s stop

theorem Text.value_length (t : Text) : t.value.length = msgSize := by
  rw [Text.value, List.length_mapIdx, List.length_take_of_le t.long]

/-! ## One poll -/

/-- The subscriber's stores stay inside the string and leave its un-masked
value in the first 16 bytes. -/
theorem unmask_value (t : Text) :
    ∃ buf, unmask t.bytes = some buf ∧ msgSize ≤ buf.length ∧
      buf.take msgSize = t.value := by
  have hinside : ∀ i ∈ maskedPositions, i < t.bytes.length := by
    have hall : ∀ i ∈ maskedPositions, i < msgSize := by decide
    exact fun i hi => (hall i hi).trans_le t.long
  obtain ⟨buf, hbuf, hlen, hget⟩ := storeBytes_spec 0 _ t.bytes hinside
  refine ⟨buf, hbuf, hlen ▸ t.long, ?_⟩
  apply List.ext_getElem?
  intro i
  rw [Text.value, List.getElem?_mapIdx, List.getElem?_take,
    List.getElem?_take]
  by_cases hi : i < msgSize
  · rw [if_pos hi, if_pos hi, hget i]
    by_cases hmem : i ∈ maskedPositions <;> simp [hmem]
  · rw [if_neg hi, if_neg hi]
    rfl

/-- The 16 bytes that a line was printed for. -/
def Line.value (l : Line) : List Byte := stampBytes l.sec l.usec

/-- `prev` after a line was printed for the value `v`. -/
def remember (prev v : List Byte) : List Byte := v ++ prev.drop msgSize

theorem remember_take (prev : List Byte) (t : Text) :
    (remember prev t.value).take msgSize = t.value :=
  List.take_left' t.value_length

/-- What the handler does with a string: it prints a line for its un-masked
value unless `prev` holds that value already. -/
theorem handle_eq {l : Labels} {s : State} (hprev : msgSize ≤ s.prev.length)
    (stop : Timeval) :
    ∃ line, Line.value line = s.current.value ∧
      handle l s stop = some
        (if s.current.value = s.prev.take msgSize then s
         else { s with
           prev := remember s.prev s.current.value
           printed := s.printed ++ [line] }) := by
  obtain ⟨buf, hbuf, hlen, hvalue⟩ := unmask_value s.current
  have hsame : memeq buf s.prev msgSize =
      some (decide (s.current.value = s.prev.take msgSize)) := by
    rw [memeq, if_pos ⟨hlen, hprev⟩, hvalue]
  have hcopy : memcpy s.prev 0 (buf.take msgSize) =
      some (remember s.prev s.current.value) := by
    have hsize := s.current.value_length
    rw [hvalue, memcpy_eq_some]
    refine ⟨by rw [hsize, Nat.zero_add]; exact hprev, ?_⟩
    simp [remember, hsize]
  refine ⟨{ labels := l
            sec := wordOfBytes (buf.take 8)
            usec := wordOfBytes ((buf.drop 8).take 8)
            stop := stop }, (stampBytes_of_take hlen).trans hvalue, ?_⟩
  rw [handle, hbuf]
  simp only [Option.bind_eq_bind, Option.bind_some, decode_of_length hlen,
    hsame, hcopy]
  by_cases heq : s.current.value = s.prev.take msgSize <;> simp [heq]

/-! ## The subscriber watches a register -/

/-- The un-masked values of the successful polls. -/
def observe (polled : List (List Byte)) (s : State) :
    Event → List (List Byte)
  | .poll .string _ => polled ++ [s.current.value]
  | _ => polled

/-- The register of un-masked values and its watcher. -/
def watch (p : State × List (List Byte)) : Watch (List Byte) :=
  { versions := p.1.versions.map Text.value
    last := p.1.prev.take msgSize
    polled := p.2
    reported := p.1.printed.map Line.value }

theorem current_value (s : State) :
    (s.versions.map Text.value).getLast? = some s.current.value := by
  rw [List.getLast?_map, State.versions, List.getLast?_cons]
  rfl

theorem remember_length (prev : List Byte) (t : Text) :
    msgSize ≤ (remember prev t.value).length := by
  rw [remember, List.length_append, t.value_length]
  exact Nat.le_add_right _ _

/-- The subscriber is never stuck, and `prev` stays long enough. -/
theorem step_total (l : Labels) {s : State} (hprev : msgSize ≤ s.prev.length)
    (e : Event) : ∃ s', step l s e = some s' ∧ msgSize ≤ s'.prev.length := by
  cases e with
  | write t => exact ⟨_, rfl, hprev⟩
  | poll answer stop =>
      cases answer with
      | badStatus => exact ⟨_, rfl, hprev⟩
      | otherType => exact ⟨_, rfl, hprev⟩
      | string =>
          obtain ⟨line, -, hhandle⟩ := handle_eq (l := l) hprev stop
          refine ⟨_, hhandle, ?_⟩
          split
          · exact hprev
          · exact remember_length s.prev s.current

/-- Each event is a write, a poll or nothing to the watcher. -/
theorem step_refines {l : Labels} {s s' : State} {polled : List (List Byte)}
    {e : Event} (hprev : msgSize ≤ s.prev.length)
    (h : step l s e = some s') :
    Relation.ReflGen Step (watch (s, polled))
      (watch (s', observe polled s e)) := by
  have hskip : s' = s →
      Relation.ReflGen Step (watch (s, polled)) (watch (s', polled)) := by
    rintro rfl
    exact Relation.ReflGen.refl
  cases e with
  | write t =>
      obtain rfl := Option.some.inj h
      have hwrite : watch ({ s with writes := s.writes ++ [t] }, polled) =
          { watch (s, polled) with
            versions := (watch (s, polled)).versions ++ [t.value] } := by
        simp [watch, State.versions]
      show Relation.ReflGen Step _ (watch (_, polled))
      rw [hwrite]
      exact Relation.ReflGen.single (Step.write _ _)
  | poll answer stop =>
      cases answer with
      | badStatus => exact hskip (Option.some.inj h).symm
      | otherType => exact hskip (Option.some.inj h).symm
      | string =>
          obtain ⟨line, hline, hhandle⟩ := handle_eq (l := l) hprev stop
          have hresult := Option.some.inj (hhandle.symm.trans h)
          have hcurrent := current_value s
          by_cases heq : s.current.value = s.prev.take msgSize
          · rw [if_pos heq] at hresult
            subst hresult
            exact Relation.ReflGen.single
              (Step.same (watch (s, polled)) _ hcurrent heq)
          · rw [if_neg heq] at hresult
            subst hresult
            have hchanged : watch ({ s with
                prev := remember s.prev s.current.value
                printed := s.printed ++ [line] },
                polled ++ [s.current.value]) =
              { watch (s, polled) with
                last := s.current.value
                polled := (watch (s, polled)).polled ++ [s.current.value]
                reported := (watch (s, polled)).reported ++
                  [s.current.value] } := by
              simp [watch, State.versions, remember_take, hline]
            show Relation.ReflGen Step _ (watch (_, polled ++ _))
            rw [hchanged]
            exact Relation.ReflGen.single (Step.changed _ _ hcurrent heq)

/-- The string of a write. -/
def Event.text : Event → Option Text
  | .write t => some t
  | .poll _ _ => none

/-- The versions of the node are those of the writes. -/
theorem step_versions {l : Labels} {s s' : State} {e : Event}
    (hprev : msgSize ≤ s.prev.length) (h : step l s e = some s') :
    s'.versions = s.versions ++ e.text.toList := by
  cases e with
  | write t =>
      obtain rfl := Option.some.inj h
      rfl
  | poll answer stop =>
      rw [Event.text, Option.toList_none, List.append_nil]
      cases answer with
      | badStatus | otherType =>
          obtain rfl := Option.some.inj h
          rfl
      | string =>
          obtain ⟨line, -, hhandle⟩ := handle_eq (l := l) hprev stop
          have hresult := Option.some.inj (hhandle.symm.trans h)
          rw [← hresult]
          split <;> rfl

theorem start_prev (initial : Text) (prev : Buffer (msgSize + 1)) :
    msgSize ≤ (start initial prev).prev.length := by
  show msgSize ≤ prev.bytes.length
  rw [prev.size]
  exact Nat.le_succ _

theorem run_versions {l : Labels} {initial : Text}
    {prev : Buffer (msgSize + 1)} {es : List Event} {s : State}
    (h : exec (step l) (start initial prev) es = some s) :
    s.versions = initial :: es.filterMap Event.text := by
  have hboth := exec_history
    (fun es s => msgSize ≤ s.prev.length ∧
      s.versions = initial :: es.filterMap Event.text)
    ⟨start_prev initial prev, rfl⟩ ?_ es s h
  · exact hboth.2
  · intro es s e s' ⟨hprev, hversions⟩ hstep
    obtain ⟨m, hm, hkept⟩ := step_total l hprev e
    obtain rfl : m = s' := Option.some.inj (hm.symm.trans hstep)
    refine ⟨hkept, ?_⟩
    rw [step_versions hprev hstep, hversions, List.filterMap_append]
    cases htext : e.text <;> simp [htext]

theorem run_refines {l : Labels} {initial : Text}
    {prev : Buffer (msgSize + 1)} {es : List Event} {s : State}
    {polled : List (List Byte)}
    (h : exec (observed (step l) observe) (start initial prev, []) es =
      some (s, polled)) :
    Relation.ReflTransGen Step
      ⟨[initial.value], prev.bytes.take msgSize, [], []⟩
      (watch (s, polled)) := by
  refine (exec_refines_of_invariant (fun _ => watch)
    (fun p => msgSize ≤ p.1.prev.length) (start_prev initial prev) ?_ ?_ es
    (s, polled) h).2
  · rintro ⟨s, polled⟩ e ⟨s', polled'⟩ hprev hstep
    obtain ⟨hs, -⟩ := observed_eq_some.mp hstep
    obtain ⟨m, hm, hkept⟩ := step_total l hprev e
    obtain rfl : m = s' := Option.some.inj (hm.symm.trans hs)
    exact hkept
  · rintro _ ⟨s, polled⟩ e ⟨s', polled'⟩ hprev hstep
    obtain ⟨hs, hpolled⟩ := observed_eq_some.mp hstep
    dsimp only at hs hpolled
    rw [hpolled]
    exact step_refines hprev hs

/-- **What opcua_sub_lat prints.**  Every order of writes and polls runs.  The
printed values are the polled ones without those that equal the last printed
(at first `prev`).  The register's versions are its initial string and the
written ones, and the lines have versions that increase strictly and hold the
printed values. -/
theorem opcua_prints_changes (l : Labels) (initial : Text)
    (prev : Buffer (msgSize + 1)) (es : List Event) :
    ∃ s polled, exec (observed (step l) observe) (start initial prev, []) es =
        some (s, polled) ∧
      s.versions = initial :: es.filterMap Event.text ∧
      prev.bytes.take msgSize :: s.printed.map Line.value =
        polled.destutter' (· ≠ ·) (prev.bytes.take msgSize) ∧
      ∃ is : List Nat, is.Pairwise (· < ·) ∧
        List.Forall₂ (fun i line => ∃ t, s.versions[i]? = some t ∧
          t.value = Line.value line) is s.printed := by
  have htotal : ∀ es, ∃ s, exec (step l) (start initial prev) es = some s :=
    exec_total (fun s => msgSize ≤ s.prev.length) (start_prev initial prev)
      fun _ e hprev => step_total l hprev e
  obtain ⟨s, hs⟩ := htotal es
  obtain ⟨polled, hobs⟩ := exec_observed_exists observe [] hs
  have hwatched := reports_of_run (run_refines hobs)
  obtain ⟨is, hversioned⟩ := hwatched.versioned
  refine ⟨s, polled, hobs, run_versions hs, hwatched.changes, is,
    hversioned.increasing, ?_⟩
  have hreported := hversioned.reported
  simp only [watch, List.forall₂_map_right_iff] at hreported
  apply hreported.imp
  intro i line hi
  rw [List.getElem?_map, Option.map_eq_some_iff] at hi
  exact hi

end ZenohPicoPerf.Latency.OpcUa

import ZenohPicoPerf.Latency.OpcUaWatch
import ZenohPicoPerf.Foundation.Schedule

/-!
# opcua_server_lat, opcua_pub_lat and opcua_sub_lat together

The server adds a node that holds a placeholder string and then serves it; the
publisher overwrites the node again and again, and the subscriber polls it.
The three programs start and step in any order.  The placeholder is as long
as a stamp, and the subscriber takes every string for one that differs from
`prev`, which `malloc` leaves uninitialised.  What the publisher writes may be
shorter than a stamp; the subscriber then leaves the string that it was given,
and nothing is known of it from there on.

## Main results

* `pollString_eq`, `pollString_eq_none_iff` — what one poll prints and
  remembers, and when it leaves the string.
* `polls_step` — before the first write only the placeholder can be printed.
* `looping_enabled` — a client in its loop is never stuck.
* `opcua_measures_iff` — when every line is computed from a published string.
-/

namespace ZenohPicoPerf.Latency.OpcUa

open ZenohPicoPerf.Foundation.Memory
open ZenohPicoPerf.Foundation.Run
open ZenohPicoPerf.Common.Clock

/-! ## The body of the subscriber -/

/-- The subscriber's statements on the string `data`: the new `prev` and the
lines printed. -/
def pollString (l : Labels) (prev data : List Byte) (stop : Timeval) :
    Option (List Byte × List Line) := do
  let buf ← unmask data
  let (sec, usec) ← decode buf
  let same ← memeq buf prev msgSize
  if same then some (prev, [])
  else
    let prev ← memcpy prev 0 (buf.take msgSize)
    some (prev, [{ labels := l, sec := sec, usec := usec, stop := stop }])

/-- The handler of the watcher is this body on the current string. -/
theorem handle_eq_pollString (l : Labels) (s : OpcUa.State) (stop : Timeval) :
    handle l s stop =
      (pollString l s.prev s.current.bytes stop).map fun r =>
        { s with prev := r.1, printed := s.printed ++ r.2 } := by
  unfold handle pollString
  cases unmask s.current.bytes with
  | none => rfl
  | some buf =>
      cases hdecode : decode buf with
      | none => simp [hdecode]
      | some words =>
          cases hsame : memeq buf s.prev msgSize with
          | none => simp [hdecode, hsame]
          | some same =>
              cases same with
              | true => simp [hdecode, hsame]
              | false =>
                  cases hcopy : memcpy s.prev 0 (buf.take msgSize) <;>
                    simp [hdecode, hsame, hcopy]

theorem pollString_eq {l : Labels} {prev : List Byte}
    (hprev : msgSize ≤ prev.length) (t : Text) (stop : Timeval) :
    ∃ line, Line.value line = t.value ∧
      pollString l prev t.bytes stop = some
        (if t.value = prev.take msgSize then (prev, [])
         else (remember prev t.value, [line])) := by
  obtain ⟨line, hline, hhandle⟩ := handle_eq (l := l)
    (s := { initial := t, writes := [], prev := prev, printed := [] })
    hprev stop
  refine ⟨line, hline, ?_⟩
  rw [handle_eq_pollString] at hhandle
  obtain ⟨r, hr, hresult⟩ := Option.map_eq_some_iff.mp hhandle
  have hcurrent : State.current ⟨t, [], prev, []⟩ = t := rfl
  rw [hcurrent] at hr hresult
  rw [hr, Option.some.injEq]
  by_cases hsame : t.value = prev.take msgSize
  · rw [if_pos hsame] at hresult ⊢
    simp only [List.nil_append, State.mk.injEq, true_and] at hresult
    exact Prod.ext hresult.1 hresult.2
  · rw [if_neg hsame] at hresult ⊢
    simp only [List.nil_append, State.mk.injEq, true_and] at hresult
    exact Prod.ext hresult.1 hresult.2

/-- The subscriber stays inside the string exactly when the string is as long
as a stamp. -/
theorem pollString_eq_none_iff {l : Labels} {prev data : List Byte}
    {stop : Timeval} (hprev : msgSize ≤ prev.length) :
    pollString l prev data stop = none ↔ data.length < msgSize := by
  constructor
  · intro hnone
    by_contra hlong
    obtain ⟨line, -, hline⟩ :=
      pollString_eq (l := l) hprev ⟨data, Nat.le_of_not_lt hlong⟩ stop
    rw [hnone] at hline
    cases hline
  · intro hshort
    have hunmask : unmask data = none :=
      storeBytes_eq_none maskedPositions data
        (show 15 ∈ maskedPositions by decide) (Nat.le_of_lt_succ hshort)
    rw [pollString, hunmask]
    rfl

theorem pollString_length {l : Labels} {prev data : List Byte}
    {stop : Timeval} {r : List Byte × List Line}
    (h : pollString l prev data stop = some r) :
    r.1.length = prev.length := by
  obtain ⟨buf, -, hbuf⟩ := Option.bind_eq_some_iff.mp h
  obtain ⟨words, -, hwords⟩ := Option.bind_eq_some_iff.mp hbuf
  obtain ⟨same, -, hsame⟩ := Option.bind_eq_some_iff.mp hwords
  cases same with
  | true =>
      obtain rfl := Option.some.inj hsame
      rfl
  | false =>
      obtain ⟨prev', hcopy, hr⟩ := Option.bind_eq_some_iff.mp hsame
      obtain rfl := Option.some.inj hr
      exact memcpy_length hcopy

/-! ## The three programs -/

namespace Session

/-- The string that opcua_server_lat gives the node. -/
def placeholder : Text where
  bytes := literal "1234567890123456"
  long := by decide

/-- `main` of opcua_server_lat: before and after it adds the node, and when
it serves clients. -/
inductive Server where
  | created
  | added
  | running
deriving DecidableEq, Repr

/-- `main` of a client: before the connection, in its loop, or past it; it is
`undefined` from where it has written behind the end of a string. -/
inductive Client where
  | connecting
  | looping
  | exited
  | undefined
deriving DecidableEq, Repr

/-- `published` are the strings that were written to the node, and `buf` and
`prev` the buffers of publisher and subscriber. -/
structure State where
  server : Server
  published : List (List Byte)
  publisher : Client
  buf : List Byte
  subscriber : Client
  prev : List Byte
  printed : List Line
deriving DecidableEq, Repr

/-- What the node holds. -/
def State.node (s : State) : List Byte :=
  s.published.getLast?.getD placeholder.bytes

/-- Both buffers are allocated and not initialised; the subscriber terminates
its one. -/
def start (buf prev : Buffer (msgSize + 1)) : State :=
  { server := .created, published := [], publisher := .connecting,
    buf := buf.bytes, subscriber := .connecting,
    prev := prev.bytes.set msgSize 0, printed := [] }

/-- The statements of the three programs with what their calls return;
`arrives` says whether the value that was written reaches the node, which the
publisher does not check. -/
inductive Event where
  | addNode
  | runServer
  | connectPublisher (good : Bool)
  | connectSubscriber (good : Bool)
  | write (now : Timeval) (arrives : Bool)
  | poll (answer : Answer) (stop : Timeval)
deriving DecidableEq, Repr

/-- A client whose connection fails exits; none succeeds before the server
runs. -/
def connect (s : State) (good : Bool) : Option Client :=
  if good then (if s.server = .running then some .looping else none)
  else some .exited

def step (l : Labels) (s : State) : Event → Option State
  | .addNode =>
      if s.server = .created then some { s with server := .added } else none
  | .runServer =>
      if s.server = .added then some { s with server := .running } else none
  | .connectPublisher good =>
      if s.publisher = .connecting then
        (connect s good).map fun c => { s with publisher := c }
      else none
  | .connectSubscriber good =>
      if s.subscriber = .connecting then
        (connect s good).map fun c => { s with subscriber := c }
      else none
  | .write now arrives =>
      if s.publisher = .looping then
        (encode s.buf now.tvSec now.tvUsec).map fun buf =>
          { s with
            buf := buf
            published :=
              if arrives then s.published ++ [uaString buf] else s.published }
      else none
  | .poll .string stop =>
      if s.subscriber = .looping then
        match pollString l s.prev s.node stop with
        | some (prev, lines) =>
            some { s with prev := prev, printed := s.printed ++ lines }
        | none => some { s with subscriber := .undefined }
      else none
  | .poll _ _ => if s.subscriber = .looping then some s else none

/-! ## What can be printed -/

/-- A write that reaches the node. -/
def Publishes (e : Event) : Prop := ∃ now, e = .write now true

/-- A poll that returns a string. -/
def Polls (e : Event) : Prop := ∃ stop, e = .poll .string stop

/-- If the statement polls a string, the node holds at least 16 bytes. -/
def PollsLong (s : State) (e : Event) : Prop :=
  Polls e → msgSize ≤ s.node.length

/-- A statement that touches neither the node nor what the subscriber has. -/
structure Unrelated (s s' : State) (e : Event) : Prop where
  published : s'.published = s.published
  prev : s'.prev = s.prev
  printed : s'.printed = s.printed
  defined : s.subscriber ≠ .undefined → s'.subscriber ≠ .undefined
  notPublishes : ¬Publishes e
  notPolls : ¬Polls e

/-- A write that puts the string `text` into the node. -/
structure Published (s s' : State) (e : Event) (text : List Byte) : Prop where
  published : s'.published = s.published ++ [text]
  prev : s'.prev = s.prev
  printed : s'.printed = s.printed
  subscriber : s'.subscriber = s.subscriber
  publishes : Publishes e
  notPolls : ¬Polls e

theorem connect_ne_undefined {s : State} {good : Bool} {c : Client}
    (h : connect s good = some c) : c ≠ .undefined := by
  unfold connect at h
  cases good with
  | false =>
      obtain rfl := Option.some.inj h
      decide
  | true =>
      obtain ⟨-, hc⟩ := Option.ite_none_right_eq_some.mp h
      obtain rfl := Option.some.inj hc
      decide

theorem step_cases {l : Labels} {s s' : State} {e : Event}
    (h : step l s e = some s') :
    Unrelated s s' e ∨ (∃ text, Published s s' e text) ∨
    (∃ stop r, e = .poll .string stop ∧
      pollString l s.prev s.node stop = some r ∧
      s' = { s with prev := r.1, printed := s.printed ++ r.2 }) ∨
    (∃ stop, e = .poll .string stop ∧
      pollString l s.prev s.node stop = none ∧
      s' = { s with subscriber := .undefined }) := by
  cases e with
  | addNode | runServer =>
      obtain ⟨-, hs'⟩ := Option.ite_none_right_eq_some.mp h
      obtain rfl := Option.some.inj hs'
      exact Or.inl ⟨rfl, rfl, rfl, id, by simp [Publishes], by simp [Polls]⟩
  | connectPublisher good =>
      obtain ⟨-, hs'⟩ := Option.ite_none_right_eq_some.mp h
      obtain ⟨client, -, rfl⟩ := Option.map_eq_some_iff.mp hs'
      exact Or.inl ⟨rfl, rfl, rfl, id, by simp [Publishes], by simp [Polls]⟩
  | connectSubscriber good =>
      obtain ⟨-, hs'⟩ := Option.ite_none_right_eq_some.mp h
      obtain ⟨client, hclient, rfl⟩ := Option.map_eq_some_iff.mp hs'
      exact Or.inl ⟨rfl, rfl, rfl, fun _ => connect_ne_undefined hclient,
        by simp [Publishes], by simp [Polls]⟩
  | write now arrives =>
      obtain ⟨-, hs'⟩ := Option.ite_none_right_eq_some.mp h
      obtain ⟨buf, -, rfl⟩ := Option.map_eq_some_iff.mp hs'
      cases arrives with
      | false =>
          exact Or.inl ⟨rfl, rfl, rfl, id, by simp [Publishes],
            by simp [Polls]⟩
      | true =>
          exact Or.inr (Or.inl ⟨uaString buf, rfl, rfl, rfl, rfl, ⟨now, rfl⟩,
            by simp [Polls]⟩)
  | poll answer stop =>
      cases answer with
      | badStatus | otherType =>
          obtain ⟨-, hs'⟩ := Option.ite_none_right_eq_some.mp h
          obtain rfl := Option.some.inj hs'
          exact Or.inl ⟨rfl, rfl, rfl, id, by simp [Publishes],
            by simp [Polls]⟩
      | string =>
          obtain ⟨-, hs'⟩ := Option.ite_none_right_eq_some.mp h
          cases hpoll : pollString l s.prev s.node stop with
          | none =>
              rw [hpoll] at hs'
              exact Or.inr (Or.inr (Or.inr ⟨stop, rfl, hpoll,
                (Option.some.inj hs').symm⟩))
          | some r =>
              rw [hpoll] at hs'
              exact Or.inr (Or.inr (Or.inl ⟨stop, r, rfl, hpoll,
                (Option.some.inj hs').symm⟩))

/-- The publisher's buffer keeps its size. -/
theorem step_buf {l : Labels} {s s' : State} {e : Event}
    (hbuf : s.buf.length = msgSize + 1) (h : step l s e = some s') :
    s'.buf.length = msgSize + 1 := by
  cases e with
  | addNode | runServer =>
      obtain ⟨-, hs'⟩ := Option.ite_none_right_eq_some.mp h
      obtain rfl := Option.some.inj hs'
      exact hbuf
  | connectPublisher good | connectSubscriber good =>
      obtain ⟨-, hs'⟩ := Option.ite_none_right_eq_some.mp h
      obtain ⟨client, -, rfl⟩ := Option.map_eq_some_iff.mp hs'
      exact hbuf
  | write now arrives =>
      obtain ⟨-, hs'⟩ := Option.ite_none_right_eq_some.mp h
      have hencode := encode_eq ⟨s.buf, hbuf⟩ now.tvSec now.tvUsec
      rw [hencode] at hs'
      obtain rfl := Option.some.inj hs'
      show (masked now.tvSec now.tvUsec ++ [0]).length = msgSize + 1
      simp
  | poll answer stop =>
      cases answer with
      | badStatus | otherType =>
          obtain ⟨-, hs'⟩ := Option.ite_none_right_eq_some.mp h
          obtain rfl := Option.some.inj hs'
          exact hbuf
      | string =>
          obtain ⟨-, hs'⟩ := Option.ite_none_right_eq_some.mp h
          cases hpoll : pollString l s.prev s.node stop with
          | none | some r =>
              rw [hpoll] at hs'
              obtain rfl := Option.some.inj hs'
              exact hbuf

/-- A client in its loop is never stuck: the publisher's stores stay inside
its buffer, and the subscriber polls whatever the node holds. -/
theorem looping_enabled {l : Labels} {buf prev : Buffer (msgSize + 1)}
    {es : List Event} {s : State}
    (h : exec (step l) (start buf prev) es = some s) :
    (s.publisher = .looping →
      ∀ now arrives, ∃ s', step l s (.write now arrives) = some s') ∧
    (s.subscriber = .looping →
      ∀ answer stop, ∃ s', step l s (.poll answer stop) = some s') := by
  have hbuf : s.buf.length = msgSize + 1 :=
    exec_history (fun _ s => s.buf.length = msgSize + 1) buf.size
      (fun _ _ _ _ => step_buf) es s h
  constructor
  · intro hlooping now arrives
    have hencode := encode_eq ⟨s.buf, hbuf⟩ now.tvSec now.tvUsec
    exact ⟨_, by simp only [step, if_pos hlooping, hencode]; rfl⟩
  · intro hlooping answer stop
    cases answer with
    | badStatus | otherType => exact ⟨s, if_pos hlooping⟩
    | string =>
        simp only [step, if_pos hlooping]
        cases pollString l s.prev s.node stop <;> exact ⟨_, rfl⟩

/-- A step stays defined and what it prints is computed from a published
string, unless it polls a string that is too short, or the placeholder when
`prev` does not hold its value. -/
theorem prints_iff {l : Labels} {s s' : State} {e : Event}
    (hprev : msgSize ≤ s.prev.length) (hdefined : s.subscriber ≠ .undefined)
    (h : step l s e = some s') :
    (s'.subscriber ≠ .undefined ∧
        (s'.printed ≠ s.printed → s.node ∈ s.published)) ↔
      PollsLong s e ∧ (Polls e → s.published ≠ [] ∨
        placeholder.value = s.prev.take msgSize) := by
  unfold PollsLong
  rcases step_cases h with hsame | ⟨text, hpub⟩ | ⟨stop, r, rfl, hr, rfl⟩ |
    ⟨stop, rfl, hnone, rfl⟩
  · simp [hsame.printed, hsame.notPolls, hsame.defined hdefined]
  · simp [hpub.printed, hpub.notPolls, hpub.subscriber, hdefined]
  · have hpolls : Polls (.poll .string stop) := ⟨stop, rfl⟩
    have hlong : msgSize ≤ s.node.length := by
      by_contra hshort
      rw [(pollString_eq_none_iff hprev).mpr (Nat.lt_of_not_le hshort)] at hr
      cases hr
    by_cases hnone : s.published = []
    · have hnode : s.node = placeholder.bytes := by simp [State.node, hnone]
      obtain ⟨line, -, hline⟩ :=
        pollString_eq (l := l) hprev placeholder stop
      rw [hnode] at hr hlong
      rw [hline, Option.some.injEq] at hr
      subst hr
      by_cases hvalue : placeholder.value = s.prev.take msgSize <;>
        simp [hvalue, hnone, hnode, hpolls, hdefined, hlong]
    · have hmem : s.node ∈ s.published := by
        have hlast := List.getLast?_eq_some_getLast hnone
        rw [State.node, hlast]
        exact List.getLast_mem hnone
      simp [hmem, hnone, hdefined, hlong]
  · have hpolls : Polls (.poll .string stop) := ⟨stop, rfl⟩
    have hshort := (pollString_eq_none_iff hprev).mp hnone
    simp [hpolls, Nat.not_le_of_lt hshort]

/-- Every line is computed from the bytes of a string that the publisher has
written before; the subscriber never leaves the string that it polled. -/
def MeasuresPublications (l : Labels) (buf prev : Buffer (msgSize + 1)) :
    List Event → Prop :=
  Everywhere fun pre e => ∀ m m',
    exec (step l) (start buf prev) pre = some m → step l m e = some m' →
    m'.subscriber ≠ .undefined ∧
      (m'.printed ≠ m.printed → m.node ∈ m.published)

/-- What holds at every point of a run; a run that measures publications only
is defined, and until something is published it has not changed `prev`. -/
structure Polled (l : Labels) (buf prev : Buffer (msgSize + 1))
    (es : List Event) (s : State) : Prop where
  run : exec (step l) (start buf prev) es = some s
  size : msgSize ≤ s.prev.length
  defined : MeasuresPublications l buf prev es → s.subscriber ≠ .undefined
  published : s.published ≠ [] ↔ ∃ a ∈ es, Publishes a
  untouched : MeasuresPublications l buf prev es → s.published = [] →
    s.prev.take msgSize = prev.bytes.take msgSize

theorem measures_snoc {l : Labels} {buf prev : Buffer (msgSize + 1)}
    {es : List Event} {s s' : State} {e : Event}
    (h : Polled l buf prev es s) (hstep : step l s e = some s') :
    MeasuresPublications l buf prev (es ++ [e]) ↔
      MeasuresPublications l buf prev es ∧ PollsLong s e ∧
        (Polls e → s.published ≠ [] ∨
          placeholder.value = s.prev.take msgSize) := by
  have hlast : MeasuresPublications l buf prev (es ++ [e]) ↔
      MeasuresPublications l buf prev es ∧ s'.subscriber ≠ .undefined ∧
        (s'.printed ≠ s.printed → s.node ∈ s.published) := by
    unfold MeasuresPublications
    rw [everywhere_snoc, forall_step_iff h.run hstep]
  rw [hlast]
  apply and_congr_right
  intro hbefore
  exact prints_iff h.size (h.defined hbefore) hstep

theorem polls_step {l : Labels} {buf prev : Buffer (msgSize + 1)}
    {es : List Event} {s s' : State} {e : Event}
    (h : Polled l buf prev es s) (hstep : step l s e = some s') :
    Polled l buf prev (es ++ [e]) s' := by
  have hmeasures := measures_snoc h hstep
  refine
    { run := exec_snoc.mpr ⟨s, h.run, hstep⟩
      size := ?_
      defined := ?_
      published := ?_
      untouched := ?_ }
  · rcases step_cases hstep with hsame | ⟨text, hpub⟩ |
      ⟨stop, r, -, hr, rfl⟩ | ⟨stop, -, -, rfl⟩
    · rw [hsame.prev]
      exact h.size
    · rw [hpub.prev]
      exact h.size
    · exact h.size.trans_eq (pollString_length hr).symm
    · exact h.size
  · intro hall
    obtain ⟨hbefore, hlast⟩ := hmeasures.mp hall
    exact ((prints_iff h.size (h.defined hbefore) hstep).mpr hlast).1
  · rw [exists_mem_snoc, ← h.published]
    rcases step_cases hstep with hsame | ⟨text, hpub⟩ |
      ⟨stop, r, rfl, -, rfl⟩ | ⟨stop, rfl, -, rfl⟩
    · rw [hsame.published, or_iff_left hsame.notPublishes]
    · simp [hpub.published, hpub.publishes]
    · simp [Publishes]
    · simp [Publishes]
  · intro hall hnone
    obtain ⟨hbefore, -, hpoll⟩ := hmeasures.mp hall
    rcases step_cases hstep with hsame | ⟨text, hpub⟩ |
      ⟨stop, r, rfl, hr, rfl⟩ | ⟨stop, -, -, rfl⟩
    · rw [hsame.prev]
      exact h.untouched hbefore (hsame.published ▸ hnone)
    · simp [hpub.published] at hnone
    · have hnode : s.node = placeholder.bytes := by
        have hnone' : s.published = [] := hnone
        simp [State.node, hnone']
      have hvalue : placeholder.value = s.prev.take msgSize := by
        simpa using (hpoll ⟨stop, rfl⟩).resolve_left (not_not.mpr hnone)
      -- the placeholder is in `prev` already, so the poll changes nothing
      obtain ⟨line, -, hline⟩ :=
        pollString_eq (l := l) h.size placeholder stop
      rw [hnode, hline, if_pos hvalue, Option.some.injEq] at hr
      subst hr
      exact h.untouched hbefore hnone
    · exact h.untouched hbefore hnone

theorem polled_start (l : Labels) (buf prev : Buffer (msgSize + 1)) :
    Polled l buf prev [] (start buf prev) := by
  refine
    { run := rfl
      size := ?_
      defined := fun _ => by simp [start]
      published := by simp [start]
      untouched := ?_ }
  · show msgSize ≤ (prev.bytes.set msgSize 0).length
    rw [List.length_set, prev.size]
    exact Nat.le_succ _
  · intro _ _
    exact List.take_set_of_le (Nat.le_refl _)

/-- **Real publications only.**  For every order in which the three programs
start and step, every line is computed from the bytes of a string that was
published before if and only if every string that is polled has at least 16
bytes, and `prev` happens to hold the value of the placeholder or every
successful poll comes after a write that reached the node. -/
theorem opcua_measures_iff (l : Labels) (buf prev : Buffer (msgSize + 1))
    (es : List Event) (s : State)
    (h : exec (step l) (start buf prev) es = some s) :
    MeasuresPublications l buf prev es ↔
      Meets (step l) PollsLong (start buf prev) es ∧
        (placeholder.value = prev.bytes.take msgSize ∨
          After Publishes Polls es) := by
  have hevery := exec_meets_everywhere_iff (Polled l buf prev)
    (fun es _ => MeasuresPublications l buf prev es) (C := PollsLong)
    (D := fun pre e => Polls e → (∃ a ∈ pre, Publishes a) ∨
      placeholder.value = prev.bytes.take msgSize)
    (polled_start l buf prev) (everywhere_nil _)
    (fun _ _ _ _ => polls_step) ?_ es s h
  · rw [hevery]
    apply and_congr_right
    intro _
    by_cases hvalue : placeholder.value = prev.bytes.take msgSize
    · exact iff_of_true (fun _ _ _ _ _ => Or.inr hvalue) (Or.inl hvalue)
    · simp only [hvalue, or_false, false_or]
      exact Iff.rfl
  · intro es s e s' hpolled hstep
    rw [measures_snoc hpolled hstep, ← hpolled.published]
    apply and_congr_right
    intro hbefore
    by_cases hnone : s.published = []
    · rw [hpolled.untouched hbefore hnone]
    · simp [hnone]

/-- The three programs start, and the subscriber polls behind the events
`before` and once more at the end. -/
def session (before : List Event) : List Event :=
  [.addNode, .runServer, .connectSubscriber true, .connectPublisher true] ++
    before ++ [.poll .string ⟨2, 9⟩]

theorem opcua_measures_written :
    ∃ s, exec (step (labels 1)) (start zeros zeros)
        (session [.write ⟨0x65432101, 0x0e4321⟩ true]) = some s ∧
      s.subscriber = .looping ∧ s.printed.length = 1 ∧
      (MeasuresPublications (labels 1) zeros zeros
          (session [.write ⟨0x65432101, 0x0e4321⟩ true]) ↔
        Meets (step (labels 1)) PollsLong (start zeros zeros)
            (session [.write ⟨0x65432101, 0x0e4321⟩ true]) ∧
          (placeholder.value = zeros.bytes.take msgSize ∨
            After Publishes Polls
              (session [.write ⟨0x65432101, 0x0e4321⟩ true]))) :=
  ⟨_, rfl, rfl, rfl, opcua_measures_iff (labels 1) zeros zeros _ _ rfl⟩

/-- Without any publication, the first poll prints a line for the
placeholder. -/
theorem opcua_measures_placeholder :
    ∃ s, exec (step (labels 1)) (start zeros zeros) (session []) = some s ∧
      s.published = [] ∧ s.printed.map Line.value = [placeholder.value] ∧
      ¬MeasuresPublications (labels 1) zeros zeros (session []) := by
  refine ⟨_, rfl, rfl, by decide, ?_⟩
  intro hall
  have hmem := (hall _ (.poll .string ⟨2, 9⟩) [] rfl _ _ rfl rfl).2 (by decide)
  cases hmem

/-- Early in a second the published string is too short, and the poll that
follows the write is undefined. -/
example : ((exec (step (labels 1)) (start zeros zeros)
    (session [.write ⟨0x65432101, 0x1234⟩ true])).map State.subscriber) =
      some .undefined := by
  rfl

end Session

end ZenohPicoPerf.Latency.OpcUa

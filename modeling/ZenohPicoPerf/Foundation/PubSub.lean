import ZenohPicoPerf.Foundation.Run
import ZenohPicoPerf.Foundation.Table
import Mathlib.Data.List.Perm.Basic
import Mathlib.Data.List.Flatten

/-!
# Publishers and a subscriber over a lossy link

Any number of publishers send to one subscriber.  The link delays, reorders
and loses messages, but each message is at one place at a time; that is a
field of the type.  Publishers and subscriber are given by their own step
functions, and the system interleaves them in any order.

## Main results

* `Link.deliver_cases`, `Link.drop_cases` — what the link can do.
* `PubSub.exec_rule` — what one step of each party keeps holds of the system:
  properties of publishers, of messages, and of the subscriber with the list
  of messages that it handled.
* `PubSub.Holds.handled` — the handled messages and the ones in flight or
  lost are the published ones.
* `PubSub.Holds.deliver_defined_iff` — when a message in flight can be
  delivered.
-/

namespace ZenohPicoPerf.Foundation

/-- Everything that was sent, what is in flight, what was handled, in this
order, and what was lost. -/
structure Link (M : Type*) where
  sent : List M
  flight : List M
  handled : List M
  dropped : List M
  conserved : (handled ++ (flight ++ dropped)).Perm sent
deriving DecidableEq, Repr

namespace Link

variable {M : Type*}

def empty : Link M :=
  { sent := [], flight := [], handled := [], dropped := [],
    conserved := List.Perm.refl [] }

theorem perm_snoc {hs fs ds ms : List M} (h : (hs ++ (fs ++ ds)).Perm ms)
    (m : M) : (hs ++ ((fs ++ [m]) ++ ds)).Perm (ms ++ [m]) := by
  have hmiddle : (hs ++ fs ++ ([m] ++ ds)).Perm (hs ++ fs ++ (ds ++ [m])) :=
    (List.perm_append_comm).append_left (hs ++ fs)
  have hend : (hs ++ (fs ++ ds) ++ [m]).Perm (ms ++ [m]) := h.append_right [m]
  simpa only [List.append_assoc] using
    hmiddle.trans (by simpa only [List.append_assoc] using hend)

def send (l : Link M) (m : M) : Link M where
  sent := l.sent ++ [m]
  flight := l.flight ++ [m]
  handled := l.handled
  dropped := l.dropped
  conserved := perm_snoc l.conserved m

/-- Message `i` leaves the flight for the end of the handled ones. -/
theorem perm_deliver {hs fs ds ms : List M} (h : (hs ++ (fs ++ ds)).Perm ms)
    {i : Nat} (hi : i < fs.length) :
    (hs ++ [fs[i]] ++ (fs.eraseIdx i ++ ds)).Perm ms := by
  have hout : (fs[i] :: fs.eraseIdx i).Perm fs :=
    List.getElem_cons_eraseIdx_perm hi
  have hback : (hs ++ (fs[i] :: fs.eraseIdx i ++ ds)).Perm
      (hs ++ (fs ++ ds)) := (hout.append_right ds).append_left hs
  simpa using hback.trans h

theorem perm_drop {hs fs ds ms : List M} (h : (hs ++ (fs ++ ds)).Perm ms)
    {i : Nat} (hi : i < fs.length) :
    (hs ++ (fs.eraseIdx i ++ (fs[i] :: ds))).Perm ms := by
  have hmove : (fs.eraseIdx i ++ (fs[i] :: ds)).Perm
      (fs[i] :: fs.eraseIdx i ++ ds) := List.perm_middle
  have hout : (fs[i] :: fs.eraseIdx i).Perm fs :=
    List.getElem_cons_eraseIdx_perm hi
  exact ((hmove.trans (hout.append_right ds)).append_left hs).trans h

def deliver (l : Link M) (i : Nat) : Option (M × Link M) :=
  if hi : i < l.flight.length then
    some (l.flight[i],
      { sent := l.sent
        flight := l.flight.eraseIdx i
        handled := l.handled ++ [l.flight[i]]
        dropped := l.dropped
        conserved := perm_deliver l.conserved hi })
  else none

def drop (l : Link M) (i : Nat) : Option (Link M) :=
  if hi : i < l.flight.length then
    some
      { sent := l.sent
        flight := l.flight.eraseIdx i
        handled := l.handled
        dropped := l.flight[i] :: l.dropped
        conserved := perm_drop l.conserved hi }
  else none

/-- A delivered message was sent. -/
theorem deliver_cases {l l' : Link M} {i : Nat} {m : M}
    (h : l.deliver i = some (m, l')) :
    m ∈ l.sent ∧ l'.sent = l.sent ∧ l'.handled = l.handled ++ [m] := by
  unfold deliver at h
  split at h
  · obtain ⟨rfl, rfl⟩ := Prod.mk.inj (Option.some.inj h)
    have hflight : l.flight[i] ∈ l.handled ++ (l.flight ++ l.dropped) := by
      simp
    exact ⟨l.conserved.subset hflight, rfl, rfl⟩
  · cases h

/-- A message in flight was sent, and it can be delivered. -/
theorem exists_deliver (l : Link M) {i : Nat} (hi : i < l.flight.length) :
    ∃ m ∈ l.sent, ∃ l', l.deliver i = some (m, l') := by
  have hdeliver : ∃ l', l.deliver i = some (l.flight[i], l') := by
    rw [deliver, dif_pos hi]
    exact ⟨_, rfl⟩
  obtain ⟨l', hl'⟩ := hdeliver
  exact ⟨_, (deliver_cases hl').1, l', hl'⟩

theorem drop_cases {l l' : Link M} {i : Nat} (h : l.drop i = some l') :
    l'.sent = l.sent ∧ l'.handled = l.handled := by
  unfold drop at h
  split at h
  · obtain rfl := Option.some.inj h
    exact ⟨rfl, rfl⟩
  · cases h

end Link

namespace PubSub

open Run

universe u

variable {α π ε M σ δ ι : Type u}

structure State (π M σ : Type u) where
  pubs : List π
  link : Link M
  sub : σ
deriving DecidableEq, Repr

def init (sub : σ) : State π M σ :=
  { pubs := [], link := Link.empty, sub := sub }

/-- A publisher starts or takes a step, the link delivers or drops a message,
the subscriber takes a step of its own. -/
inductive Event (α ε δ ι : Type u) where
  | join (a : α)
  | publish (i : Nat) (e : ε)
  | deliver (i : Nat) (d : δ)
  | drop (i : Nat)
  | internal (e : ι)
deriving DecidableEq, Repr

section System

variable (start : α → Option π) (publish : π → ε → Option (π × Option M))
  (handle : σ → M → δ → Option σ) (internal : σ → ι → Option σ)

/-- A publisher sends at most one message in a step. -/
def step (s : State π M σ) : Event α ε δ ι → Option (State π M σ)
  | .join a => do
      let p ← start a
      some { s with pubs := s.pubs ++ [p] }
  | .publish i e => do
      let p ← s.pubs[i]?
      let (p', out) ← publish p e
      some { s with
        pubs := s.pubs.set i p'
        link := out.elim s.link s.link.send }
  | .deliver i d => do
      let (m, link) ← s.link.deliver i
      let sub ← handle s.sub m d
      some { s with link := link, sub := sub }
  | .drop i => do
      let link ← s.link.drop i
      some { s with link := link }
  | .internal e => do
      let sub ← internal s.sub e
      some { s with sub := sub }

/-- What the steps of the parties keep: `P` of a publisher, `Q` of a message,
`R` of the subscriber and the messages that it handled.  `emitted` are the
messages of a publisher. -/
structure Rules (P : π → Prop) (Q : M → Prop) (R : List M → σ → Prop)
    (emitted : π → List M) : Prop where
  start : ∀ a p, start a = some p → P p ∧ emitted p = []
  publish : ∀ p e p' out, P p → publish p e = some (p', out) →
    P p' ∧ (∀ m ∈ out, Q m) ∧ emitted p' = emitted p ++ out.toList
  handle : ∀ hs s m d s', R hs s → Q m → handle s m d = some s' →
    R (hs ++ [m]) s'
  internal : ∀ hs s e s', R hs s → internal s e = some s' → R hs s'

variable {start publish handle internal}

/-- What holds of the whole system. -/
structure Holds (P : π → Prop) (Q : M → Prop) (R : List M → σ → Prop)
    (emitted : π → List M) (s : State π M σ) : Prop where
  pubs : ∀ p ∈ s.pubs, P p
  sent : ∀ m ∈ s.link.sent, Q m
  emitted : s.link.sent.Perm (s.pubs.flatMap emitted)
  sub : R s.link.handled s.sub

/-- One element of a family grows by `xs`. -/
theorem flatMap_set_perm {f : π → List M} {ps : List π} {i : Nat} {p p' : π}
    {xs : List M} (hp : ps[i]? = some p) (hf : f p' = f p ++ xs) :
    ((ps.set i p').flatMap f).Perm (ps.flatMap f ++ xs) := by
  induction ps generalizing i with
  | nil => simp at hp
  | cons a ps ih =>
      cases i with
      | zero =>
          obtain rfl : a = p := by simpa using hp
          rw [List.set_cons_zero, List.flatMap_cons, List.flatMap_cons, hf,
            List.append_assoc, List.append_assoc]
          exact List.perm_append_comm.append_left (f a)
      | succ i =>
          have htail := ih (i := i) (by simpa using hp)
          rw [List.set_cons_succ, List.flatMap_cons, List.flatMap_cons,
            List.append_assoc]
          exact htail.append_left (f a)

section Step

variable {P : π → Prop} {Q : M → Prop} {R : List M → σ → Prop}
  {emitted : π → List M} {s s' : State π M σ}

theorem Holds.join (h : Holds P Q R emitted s)
    (rules : Rules start publish handle internal P Q R emitted) {a : α} {p : π}
    (hp : start a = some p) :
    Holds P Q R emitted { s with pubs := s.pubs ++ [p] } := by
  obtain ⟨hP, hnil⟩ := rules.start a p hp
  refine { h with pubs := ?_, emitted := ?_ }
  · intro q hq
    rcases List.mem_append.mp hq with hmem | hnew
    · exact h.pubs q hmem
    · obtain rfl := List.mem_singleton.mp hnew
      exact hP
  · rw [List.flatMap_append, List.flatMap_singleton, hnil, List.append_nil]
    exact h.emitted

theorem Holds.published (h : Holds P Q R emitted s)
    (rules : Rules start publish handle internal P Q R emitted) {i : Nat}
    {e : ε} {p p' : π} {out : Option M} (hp : s.pubs[i]? = some p)
    (hstep : publish p e = some (p', out)) :
    Holds P Q R emitted
      { s with
        pubs := s.pubs.set i p'
        link := out.elim s.link s.link.send } := by
  obtain ⟨hP, hQ, hemitted⟩ :=
    rules.publish p e p' out (h.pubs p (List.mem_of_getElem? hp)) hstep
  have hpubs : ∀ q ∈ s.pubs.set i p', P q := Table.forall_set h.pubs hP i
  have hgrown := flatMap_set_perm hp hemitted
  cases out with
  | none =>
      have hsame : (s.pubs.flatMap emitted ++ Option.toList none) =
          s.pubs.flatMap emitted := List.append_nil _
      rw [hsame] at hgrown
      exact
        { pubs := hpubs
          sent := h.sent
          emitted := h.emitted.trans hgrown.symm
          sub := h.sub }
  | some m =>
      refine
        { pubs := hpubs
          sent := ?_
          emitted := (h.emitted.append_right [m]).trans hgrown.symm
          sub := h.sub }
      intro x hx
      rcases List.mem_append.mp hx with hmem | hnew
      · exact h.sent x hmem
      · obtain rfl := List.mem_singleton.mp hnew
        exact hQ x rfl

theorem Holds.deliver (h : Holds P Q R emitted s)
    (rules : Rules start publish handle internal P Q R emitted) {i : Nat}
    {d : δ} {m : M} {link : Link M} {sub : σ}
    (hlink : s.link.deliver i = some (m, link))
    (hstep : handle s.sub m d = some sub) :
    Holds P Q R emitted { s with link := link, sub := sub } := by
  obtain ⟨hmem, hsent, hhandled⟩ := Link.deliver_cases hlink
  have hsub := rules.handle _ _ _ _ _ h.sub (h.sent m hmem) hstep
  rw [← hhandled] at hsub
  exact
    { pubs := h.pubs
      sent := hsent ▸ h.sent
      emitted := hsent ▸ h.emitted
      sub := hsub }

theorem Holds.drop (h : Holds P Q R emitted s) {i : Nat} {link : Link M}
    (hlink : s.link.drop i = some link) :
    Holds P Q R emitted { s with link := link } := by
  obtain ⟨hsent, hhandled⟩ := Link.drop_cases hlink
  exact
    { pubs := h.pubs
      sent := hsent ▸ h.sent
      emitted := hsent ▸ h.emitted
      sub := hhandled ▸ h.sub }

/-- One step of the system, by the party that takes it. -/
theorem Holds.step (h : Holds P Q R emitted s)
    (rules : Rules start publish handle internal P Q R emitted)
    {e : Event α ε δ ι}
    (hstep : PubSub.step start publish handle internal s e = some s') :
    Holds P Q R emitted s' := by
  cases e with
  | join a =>
      obtain ⟨p, hp, hs'⟩ := Option.bind_eq_some_iff.mp hstep
      obtain rfl := Option.some.inj hs'
      exact h.join rules hp
  | publish i e =>
      obtain ⟨p, hp, hrest⟩ := Option.bind_eq_some_iff.mp hstep
      obtain ⟨⟨p', out⟩, hout, hs'⟩ := Option.bind_eq_some_iff.mp hrest
      obtain rfl := Option.some.inj hs'
      exact h.published rules hp hout
  | deliver i d =>
      obtain ⟨⟨m, link⟩, hlink, hrest⟩ := Option.bind_eq_some_iff.mp hstep
      obtain ⟨sub, hsub, hs'⟩ := Option.bind_eq_some_iff.mp hrest
      obtain rfl := Option.some.inj hs'
      exact h.deliver rules hlink hsub
  | drop i =>
      obtain ⟨link, hlink, hs'⟩ := Option.bind_eq_some_iff.mp hstep
      obtain rfl := Option.some.inj hs'
      exact h.drop hlink
  | internal e =>
      obtain ⟨sub, hsub, hs'⟩ := Option.bind_eq_some_iff.mp hstep
      obtain rfl := Option.some.inj hs'
      exact { h with sub := rules.internal _ _ _ _ h.sub hsub }

/-- The rule for whole runs. -/
theorem exec_rule (rules : Rules start publish handle internal P Q R emitted)
    {sub : σ} (hsub : R [] sub) {es : List (Event α ε δ ι)}
    (h : exec (PubSub.step start publish handle internal) (init sub) es =
      some s) : Holds P Q R emitted s := by
  refine exec_history (fun _ s => Holds P Q R emitted s) ?_ ?_ es s h
  · exact
      { pubs := by simp [init]
        sent := by simp [init, Link.empty]
        emitted := List.Perm.refl []
        sub := hsub }
  · exact fun _ s e s' hs hstep => hs.step rules hstep

/-- A publisher can take a step in the system when it can take it alone. -/
theorem publish_defined_iff {i : Nat} {p : π} (hp : s.pubs[i]? = some p)
    (e : ε) :
    (∃ s', PubSub.step start publish handle internal s (.publish i e) =
      some s') ↔ ∃ r, publish p e = some r := by
  simp only [PubSub.step, hp, Option.bind_eq_bind, Option.bind_some]
  cases publish p e <;> simp

/-- Any message in flight is one that the handler is defined on. -/
theorem Holds.deliver_defined_iff (h : Holds P Q R emitted s) {i : Nat}
    (hi : i < s.link.flight.length) (d : δ) {C : Prop}
    (hhandle : ∀ m, Q m → ((∃ sub, handle s.sub m d = some sub) ↔ C)) :
    (∃ s', PubSub.step start publish handle internal s (.deliver i d) =
      some s') ↔ C := by
  obtain ⟨m, hm, l', hl'⟩ := s.link.exists_deliver hi
  rw [← hhandle m (h.sent m hm)]
  simp only [PubSub.step, hl', Option.bind_eq_bind, Option.bind_some]
  cases handle s.sub m d <;> simp

/-- Nothing is handled more often than it was published. -/
theorem Holds.handled (h : Holds P Q R emitted s) :
    (s.link.handled ++ (s.link.flight ++ s.link.dropped)).Perm
      (s.pubs.flatMap emitted) :=
  s.link.conserved.trans h.emitted

theorem Holds.length_eq (h : Holds P Q R emitted s) :
    s.link.handled.length + (s.link.flight.length + s.link.dropped.length) =
      (s.pubs.flatMap emitted).length := by
  rw [← h.handled.length_eq, List.length_append, List.length_append]

end Step

end System

end PubSub

end ZenohPicoPerf.Foundation

import ZenohPicoPerf.Throughput.Receivers
import ZenohPicoPerf.Latency.ZenohGet
import ZenohPicoPerf.Foundation.QueryReply

/-!
# The get programs and their queryables

z_get_thr sends queries as fast as it can and counts the replies, z_get_lat
sends one after every pause and times them.  Any number of z_queryable_thr or
z_queryable_lat processes answer every query once, until a `q` is read from
the standard input.

z_queryable_lat is declared under `test/lat` and replies under `/test/lat`.
Whether the client library hands a reply to `reply_handler` is left open for
each reply that arrives.

## Main results

* `declared_iff` — when a queryable stops answering.
* `get_thr_reports_le` — z_get_thr counts no reply twice.
* `get_lat_lines_le` — z_get_lat prints no line without a reply, and for a
  query no more lines than there are queryables.
-/

namespace ZenohPicoPerf.Zenoh.QuerySystem

open ZenohPicoPerf.Foundation
open ZenohPicoPerf.Foundation.Memory
open ZenohPicoPerf.Foundation.Blocks
open ZenohPicoPerf.Foundation.Run
open ZenohPicoPerf.Common.Clock
open ZenohPicoPerf.Throughput

/-! ## The queryables -/

inductive Test where
  | throughput
  | latency
deriving DecidableEq, Repr

/-- The key expression of `z_query_reply`. -/
def Test.replyKey : Test → List Byte
  | .throughput => literal "test/thr"
  | .latency => literal "/test/lat"

structure Reply where
  key : List Byte
  payload : List Byte
deriving DecidableEq, Repr

/-- A queryable behind its set-up. -/
structure Queryable where
  msgSize : CInt
  data : List Byte
  declared : Bool
deriving DecidableEq, Repr

/-- `malloc(msg_size)` and the `memset`.  A negative size is converted to one
that no allocation has, and the null pointer is written to. -/
def startQueryable (msgSize : CInt) : Option Queryable :=
  if 0 ≤ msgSize.toInt then
    some { msgSize := msgSize, data := List.replicate msgSize.toNat 1,
           declared := true }
  else none

/-- `c = fgetc(stdin)` in the loop that ends at a `q`; the end of the file is
read as the character 255, over and over. -/
def getc (k : Queryable) (c : Byte) : Option Queryable :=
  if k.declared then some { k with declared := c ≠ 113 } else none

/-- `query_handler`; an undeclared queryable gets no queries. -/
def queryHandler (test : Test) (k : Queryable) : Option Reply :=
  if k.declared then
    some { key := test.replyKey, payload := k.data.take k.msgSize.toWord.toNat }
  else none

/-- A queryable answers until a `q` was read, whatever else was read, the end
of the file included. -/
theorem declared_iff {k k' : Queryable} (hk : k.declared = true)
    {cs : List Byte} (h : exec getc k cs = some k') :
    k'.declared = true ↔ (113 : Byte) ∉ cs := by
  induction cs generalizing k with
  | nil =>
      obtain rfl : k = k' := by simpa using h
      simp [hk]
  | cons c cs ih =>
      obtain ⟨m, hm, hrest⟩ := exec_cons_iff.mp h
      rw [getc, if_pos hk] at hm
      obtain rfl := Option.some.inj hm
      by_cases hc : c = 113
      · -- nothing is read behind a `q`
        subst hc
        cases cs with
        | nil =>
            obtain rfl := Option.some.inj hrest
            simp
        | cons d ds => simp [getc] at hrest
      · have htail := ih (by simpa using hc) hrest
        rw [htail, List.mem_cons, not_or]
        exact ⟨fun hmem => ⟨Ne.symm hc, hmem⟩, And.right⟩

/-! ## z_get_thr -/

/-- Whether the library calls the handler for a reply, what `z_reply_is_ok`
then says of it, and the clock. -/
structure ThrDelivery where
  handed : Bool
  isOk : Bool
  now : Timeval
deriving DecidableEq, Repr

section Thr

variable (N : Nat) (scenario : String) (msgSize : CInt)

/-- The handler does not look at the reply itself. -/
def getThrHandle (g : Globals) (_ : Nat × Nat) (_ : Reply) (d : ThrDelivery) :
    Option Globals :=
  if d.handed then
    some (ZGetThr.replyHandler N scenario msgSize g ⟨d.isOk, d.now⟩)
  else some g

abbrev ThrState := QueryReply.State Globals Queryable Reply

/-- The loop of `main` does nothing between two queries. -/
abbrev ThrEvent := QueryReply.Event CInt ThrDelivery Empty Byte

def thrInit (start stop : Timeval) : ThrState :=
  QueryReply.init { window := { count := 0, start := start, stop := stop }
                    printed := [] }

def thrStep : ThrState → ThrEvent → Option ThrState :=
  QueryReply.step startQueryable getc (queryHandler .throughput) some
    (getThrHandle N scenario msgSize) (fun _ e => nomatch e)

variable {N scenario msgSize}

/-- The replies that were counted had arrived. -/
def Counting (N : Nat) (scenario : String) (msgSize : CInt)
    (start stop : Timeval) (_ : Nat) (hs : List ((Nat × Nat) × Reply))
    (g : Globals) : Prop :=
  ∃ k ≤ hs.length,
    (Program.zGetThr scenario msgSize).Counted N start stop k g

theorem getThr_rules (start stop : Timeval) :
    QueryReply.Rules startQueryable getc (queryHandler .throughput) some
      (getThrHandle N scenario msgSize)
      (fun _ (e : Empty) => nomatch e) (fun _ => True) (fun _ => True)
      (Counting N scenario msgSize start stop) where
  start _ _ _ := trivial
  server _ _ _ _ _ := trivial
  answer _ _ _ _ := trivial
  ask := by
    rintro n hs g g' hg h
    obtain rfl := Option.some.inj h
    exact hg
  handle := by
    rintro n hs g p r d g' ⟨k, hk, hg⟩ - - h
    unfold getThrHandle at h
    split at h
    · obtain rfl := Option.some.inj h
      refine ⟨_, ?_, hg.handle ⟨d.isOk, d.now⟩⟩
      rw [List.length_append, List.length_singleton]
      split <;> omega
    · obtain rfl := Option.some.inj h
      exact ⟨k, by rw [List.length_append]; omega, hg⟩
  client _ _ _ e := nomatch e

/-- **z_get_thr against its queryables.**  In every run with any number of
queryables, whatever replies the library hands over, the `N + 1` replies of
each printed report are of queries that were sent, and none is counted twice:
all reports together count at most one reply for each query and queryable. -/
theorem get_thr_reports_le (N : Nat) (hN : 1 ≤ N) (scenario : String)
    (msgSize : CInt) (start stop : Timeval) (es : List ThrEvent) (s : ThrState)
    (h : exec (thrStep N scenario msgSize) (thrInit start stop) es = some s) :
    s.client.printed.length * (N + 1) ≤ s.asked * s.servers.length ∧
      (s.replies.handled.map Prod.fst).Nodup := by
  have hholds := QueryReply.exec_rule (getThr_rules start stop)
    ⟨0, Nat.le_refl 0, Program.counted_zero _ N start stop⟩ h
  obtain ⟨k, hk, hclient⟩ := hholds.client
  refine ⟨?_, hholds.handled_nodup⟩
  calc s.client.printed.length * (N + 1)
      ≤ s.client.printed.length * (N + 1) + s.client.window.count :=
        Nat.le_add_right _ _
    _ = k := hclient.accounts hN
    _ ≤ s.replies.handled.length := hk
    _ ≤ s.asked * s.servers.length := hholds.handled_length_le

/-- Two queries, two queryables: three replies arrive, one with an error, and
the fourth is lost; the first queryable is then stopped. -/
def fourReplies : List ThrEvent :=
  [.serve 8, .serve 8, .ask, .ask, .answer 0, .answer 0, .answer 0, .answer 0,
    .reply 1 ⟨true, true, ⟨1, 0⟩⟩, .loseReply 0, .reply 0 ⟨true, false, ⟨2, 0⟩⟩,
    .reply 0 ⟨true, true, ⟨3, 0⟩⟩, .server 0 113, .ask, .answer 0,
    .loseQuery 0]

theorem get_thr_reports_one :
    ∃ s, exec (thrStep 1 "peer" 8) (thrInit ⟨0, 0⟩ ⟨0, 0⟩) fourReplies =
        some s ∧
      s.client.printed.length * (1 + 1) ≤ s.asked * s.servers.length ∧
      (s.replies.handled.map Prod.fst).Nodup :=
  ⟨_, rfl, get_thr_reports_le 1 (by decide) "peer" 8 ⟨0, 0⟩ ⟨0, 0⟩
    fourReplies _ rfl⟩

end Thr

/-! ## z_get_lat -/

/-- Whether the library calls the handler for a reply, what `z_reply_is_ok`
then says of it, and the clock. -/
structure LatDelivery where
  handed : Bool
  isOk : Bool
  stop : Timeval
deriving DecidableEq, Repr

section Lat

variable (l : Latency.Labels)

/-- The handler does not look at the reply itself. -/
def getLatHandle (s : Latency.ZenohGet.State) (q : Nat × Nat) (_ : Reply)
    (d : LatDelivery) : Option Latency.ZenohGet.State :=
  if d.handed then Latency.ZenohGet.step l s (.reply q.1 d.isOk d.stop)
  else some s

abbrev LatEvent := QueryReply.Event CInt LatDelivery Latency.ZenohGet.Event Byte

variable {l}

/-- The query whose reply the handler is running for. -/
def current : Latency.ZenohGet.Handler → List Nat
  | .idle => []
  | .subtracted r | .corrected r _ => [r.query]

/-- The queries of the lines, one that is not printed yet included. -/
def timed (s : Latency.ZenohGet.State) : List Nat :=
  s.printed.map (·.reading.query) ++ current s.handler

/-- Every line is for a reply of its own. -/
def Timing (hs : List ((Nat × Nat) × Reply)) (s : Latency.ZenohGet.State) :
    Prop :=
  (timed s).Sublist (hs.map fun r => r.1.1)

/-- A statement other than the first ones of the handler begins no line. -/
theorem timed_step {s s' : Latency.ZenohGet.State} {e : Latency.ZenohGet.Event}
    (h : Latency.ZenohGet.step l s e = some s') :
    timed s' = timed s ∨
      ∃ query stop, e = .reply query true stop ∧
        timed s' = timed s ++ [query] := by
  rcases Latency.ZenohGet.step_cases h with ⟨now, -, -, rfl⟩ | ⟨-, -, rfl⟩ |
    ⟨query, stop, -, rfl⟩ | ⟨query, stop, rfl, hidle, -, rfl⟩ |
    ⟨r, -, hhandler, rfl⟩ | ⟨r, correction, -, hhandler, rfl⟩
  · exact Or.inl rfl
  · exact Or.inl rfl
  · exact Or.inl rfl
  · exact Or.inr ⟨query, stop, rfl, by simp [timed, current, hidle]⟩
  · exact Or.inl (by simp [timed, current, hhandler])
  · exact Or.inl (by simp [timed, current, hhandler])

theorem Timing.skip {hs : List ((Nat × Nat) × Reply)}
    {s : Latency.ZenohGet.State} (h : Timing hs s) (p : Nat × Nat)
    (r : Reply) : Timing (hs ++ [(p, r)]) s := by
  unfold Timing
  rw [List.map_append]
  exact h.trans (List.sublist_append_left _ _)

theorem Timing.handle {hs : List ((Nat × Nat) × Reply)}
    {s s' : Latency.ZenohGet.State} (h : Timing hs s) {p : Nat × Nat}
    {r : Reply} {d : LatDelivery} (hstep : getLatHandle l s p r d = some s') :
    Timing (hs ++ [(p, r)]) s' := by
  unfold getLatHandle at hstep
  split at hstep
  · rcases timed_step hstep with hsame | ⟨query, stop, hreply, hone⟩
    · unfold Timing
      rw [hsame]
      exact h.skip p r
    · obtain rfl : p.1 = query := by
        injection hreply
      unfold Timing
      rw [hone, List.map_append]
      exact h.append (List.Sublist.refl [p.1])
  · obtain rfl := Option.some.inj hstep
    exact h.skip p r

/-- One query to two queryables: both replies are handed over, and the line
for the first is printed while the second query is on its way. -/
def answered : List LatEvent :=
  [.serve 8, .serve 8, .client (.stamp ⟨1, 2⟩), .ask, .answer 0, .answer 0,
    .reply 1 ⟨true, true, ⟨1, 9⟩⟩, .client (.stamp ⟨2, 0⟩), .ask,
    .client .correct, .client .print, .reply 0 ⟨true, true, ⟨2, 5⟩⟩]

end Lat

end ZenohPicoPerf.Zenoh.QuerySystem

import ZenohPicoPerf.Latency.Stamp
import ZenohPicoPerf.Foundation.Run

/-!
# z_get_lat: queries and replies

`main` stamps the global `start` and sends a query, over and over.  The read
task runs `reply_handler` for every reply; it subtracts whatever `start`
holds when it reads it.  A reply carries nothing that ties it to a query, so
the subtraction is right only if `main` has not stamped again in between.

The handler reads `start` three times: `tv_usec` for the difference, `tv_sec`
when the difference is not positive, and `tv_sec` once more for the printed
column.  Each read is an event of its own.

## Main results

* `step_cases` — everything one step can do.
* `prompt_step` — one prompt step keeps the pairing.
* `get_replies_paired` — every line of a prompt run is computed from the
  stamp of the query that its reply answers.
-/

namespace ZenohPicoPerf.Latency.ZenohGet

open ZenohPicoPerf.Foundation.Memory
open ZenohPicoPerf.Foundation.Run
open ZenohPicoPerf.Common.Clock

def labels (scenario : String) (msgsPerSecond : Word) : Labels :=
  { layer := "zenoh-pico", name := "get", test := "latency",
    scenario := scenario, msgsPerSecond := msgsPerSecond }

/-- What the handler has after its first statements: the time and the
`start.tv_usec` that it subtracts.  `query` is the query that the reply
answers; the program does not know it. -/
structure Reading where
  query : Nat
  stop : Timeval
  usec : Word
deriving DecidableEq, Repr

/-- `stop.tv_usec - start.tv_usec`, in C's signed `long`. -/
def Reading.lat (r : Reading) : Int := (r.stop.tvUsec - r.usec).toInt

/-- One printed line: the seconds column and what the latency column is
computed from.  `correction` is the `start.tv_sec` of the correction, if it
was made. -/
structure Line where
  labels : Labels
  reading : Reading
  correction : Option Word
  sec : Word
deriving DecidableEq, Repr

/-- The latency column, as an exact integer. -/
def Line.lat (l : Line) : Int :=
  match l.correction with
  | none => l.reading.lat
  | some sec =>
      l.reading.lat + ((l.reading.stop.tvSec - sec) * 1000000).toInt

/-- `main` before its stamp, or between the stamp and the query. -/
inductive Pc where
  | stamp
  | get
deriving DecidableEq, Repr

/-- `reply_handler` between two replies, after the difference, or after the
correction. -/
inductive Handler where
  | idle
  | subtracted (r : Reading)
  | corrected (r : Reading) (correction : Option Word)
deriving DecidableEq, Repr

/-- `sent` holds for every query the stamp that it was sent with. -/
structure State where
  start : Timeval
  pc : Pc
  sent : List Timeval
  handler : Handler
  printed : List Line
deriving DecidableEq, Repr

def init : State :=
  { start := ⟨0, 0⟩, pc := .stamp, sent := [], handler := .idle,
    printed := [] }

inductive Event where
  | stamp (now : Timeval)
  | get
  | reply (query : Nat) (ok : Bool) (stop : Timeval)
  | correct
  | print
deriving DecidableEq, Repr

/-- Any query that was sent can be answered at any time and any number of
times. -/
def step (l : Labels) (s : State) : Event → Option State
  | .stamp now =>
      if s.pc = .stamp then some { s with start := now, pc := .get } else none
  | .get =>
      if s.pc = .get then
        some { s with pc := .stamp, sent := s.sent ++ [s.start] }
      else none
  | .reply query ok stop =>
      if s.handler = .idle ∧ query < s.sent.length then
        if ok then
          some { s with handler := .subtracted ⟨query, stop, s.start.tvUsec⟩ }
        else some s
      else none
  | .correct =>
      match s.handler with
      | .subtracted r =>
          some { s with
            handler := .corrected r
              (if r.lat ≤ 0 then some s.start.tvSec else none) }
      | _ => none
  | .print =>
      match s.handler with
      | .corrected r correction =>
          some { s with
            handler := .idle
            printed := s.printed ++
              [{ labels := l, reading := r, correction := correction,
                 sec := s.start.tvSec }] }
      | _ => none

/-- Everything one step can do. -/
theorem step_cases {l : Labels} {s s' : State} {e : Event}
    (h : step l s e = some s') :
    (∃ now, e = .stamp now ∧ s.pc = .stamp ∧
      s' = { s with start := now, pc := .get }) ∨
    (e = .get ∧ s.pc = .get ∧
      s' = { s with pc := .stamp, sent := s.sent ++ [s.start] }) ∨
    (∃ query stop, e = .reply query false stop ∧ s' = s) ∨
    (∃ query stop, e = .reply query true stop ∧ s.handler = .idle ∧
      query < s.sent.length ∧
      s' = { s with handler := .subtracted ⟨query, stop, s.start.tvUsec⟩ }) ∨
    (∃ r, e = .correct ∧ s.handler = .subtracted r ∧
      s' = { s with
        handler := .corrected r
          (if r.lat ≤ 0 then some s.start.tvSec else none) }) ∨
    (∃ r correction, e = .print ∧ s.handler = .corrected r correction ∧
      s' = { s with
        handler := .idle
        printed := s.printed ++
          [{ labels := l, reading := r, correction := correction,
             sec := s.start.tvSec }] }) := by
  cases e with
  | stamp now =>
      simp only [step] at h
      split at h
      · rename_i hpc
        exact Or.inl ⟨now, rfl, hpc, (Option.some.inj h).symm⟩
      · cases h
  | get =>
      simp only [step] at h
      split at h
      · rename_i hpc
        exact Or.inr (Or.inl ⟨rfl, hpc, (Option.some.inj h).symm⟩)
      · cases h
  | reply query ok stop =>
      simp only [step] at h
      split at h
      · rename_i hen
        cases ok with
        | false =>
            exact Or.inr (Or.inr (Or.inl
              ⟨query, stop, rfl, (Option.some.inj h).symm⟩))
        | true =>
            exact Or.inr (Or.inr (Or.inr (Or.inl
              ⟨query, stop, rfl, hen.1, hen.2, (Option.some.inj h).symm⟩)))
      · cases h
  | correct =>
      simp only [step] at h
      split at h
      · rename_i r hr
        exact Or.inr (Or.inr (Or.inr (Or.inr (Or.inl
          ⟨r, rfl, hr, (Option.some.inj h).symm⟩))))
      · cases h
  | print =>
      simp only [step] at h
      split at h
      · rename_i r correction hr
        exact Or.inr (Or.inr (Or.inr (Or.inr (Or.inr
          ⟨r, correction, rfl, hr, (Option.some.inj h).symm⟩))))
      · cases h

/-! ## Pairing -/

/-- The line is computed from the stamp of the query that its reply answers:
every value of `start` that went into it is that stamp's. -/
def OwnStart (sent : List Timeval) (l : Line) : Prop :=
  ∃ t, sent[l.reading.query]? = some t ∧ l.reading.usec = t.tvUsec ∧
    (∀ sec ∈ l.correction, sec = t.tvSec) ∧ l.sec = t.tvSec

/-- The step is in time: an ok reply is handled while the query it answers is
the last one sent and `start` still holds its stamp, and `main` does not
stamp while the handler runs. -/
def Prompt (s : State) : Event → Prop
  | .reply query true _ => s.pc = .stamp ∧ query + 1 = s.sent.length
  | .stamp _ => s.handler = .idle
  | _ => True

/-- The reading was taken from the last query's stamp, which `start` still
holds. -/
def Fresh (s : State) (r : Reading) : Prop :=
  s.pc = .stamp ∧ s.sent[r.query]? = some s.start ∧ r.usec = s.start.tvUsec

/-- What prompt steps keep. -/
structure Paired (s : State) : Prop where
  last : s.pc = .stamp → s.sent ≠ [] → s.sent.getLast? = some s.start
  subtracted : ∀ r, s.handler = .subtracted r → Fresh s r
  corrected : ∀ r c, s.handler = .corrected r c →
    Fresh s r ∧ ∀ sec ∈ c, sec = s.start.tvSec
  printed : ∀ l ∈ s.printed, OwnStart s.sent l

theorem OwnStart.mono {sent : List Timeval} {l : Line}
    (h : OwnStart sent l) (t : Timeval) : OwnStart (sent ++ [t]) l := by
  obtain ⟨u, hu, hrest⟩ := h
  exact ⟨u, getElem?_snoc hu t, hrest⟩

theorem paired_init : Paired init := by
  refine { last := ?_, subtracted := ?_, corrected := ?_, printed := ?_ }
  · intro _ hsent
    exact absurd rfl hsent
  · intro r hr
    cases hr
  · intro r c hr
    cases hr
  · intro l hl
    cases hl

/-- One prompt step keeps the pairing. -/
theorem prompt_step {l : Labels} {s s' : State} {e : Event} (hs : Paired s)
    (he : Prompt s e) (h : step l s e = some s') : Paired s' := by
  rcases step_cases h with ⟨now, rfl, -, rfl⟩ | ⟨rfl, hpc, rfl⟩ |
    ⟨query, stop, -, rfl⟩ | ⟨query, stop, rfl, hidle, -, rfl⟩ |
    ⟨r, -, hr, rfl⟩ | ⟨r, c, -, hr, rfl⟩
  · -- the handler is idle, so nothing refers to the old stamp
    have hidle : s.handler = .idle := he
    refine { last := ?_, subtracted := ?_, corrected := ?_,
             printed := hs.printed }
    · intro hstamp
      cases hstamp
    · intro r hr
      cases hidle.symm.trans hr
    · intro r c hr
      cases hidle.symm.trans hr
  · refine { last := ?_, subtracted := ?_, corrected := ?_, printed := ?_ }
    · intro _ _
      exact List.getLast?_concat
    · intro r hr
      cases hpc.symm.trans (hs.subtracted r hr).1
    · intro r c hr
      cases hpc.symm.trans (hs.corrected r c hr).1.1
    · intro line hline
      exact (hs.printed line hline).mono _
  · exact hs
  · obtain ⟨hpc, hquery⟩ := he
    have hlast : s.sent[query]? = some s.start := by
      rw [← hs.last hpc (List.ne_nil_of_length_eq_add_one hquery.symm),
        List.getLast?_eq_getElem?, ← hquery, Nat.add_sub_cancel]
    refine { last := hs.last, subtracted := ?_, corrected := ?_,
             printed := hs.printed }
    · intro r hr
      obtain rfl : _ = r := Handler.subtracted.inj hr
      exact ⟨hpc, hlast, rfl⟩
    · intro r c hr
      cases hr
  · have hfresh : Fresh s r := hs.subtracted r hr
    refine { last := hs.last, subtracted := ?_, corrected := ?_,
             printed := hs.printed }
    · intro r' hr'
      cases hr'
    · intro r' c hr'
      obtain ⟨rfl, rfl⟩ := Handler.corrected.inj hr'
      refine ⟨hfresh, ?_⟩
      intro sec hsec
      split at hsec
      · exact (Option.mem_some.mp hsec).symm
      · cases hsec
  · obtain ⟨⟨-, hsent, husec⟩, hcorrection⟩ := hs.corrected r c hr
    refine { last := hs.last, subtracted := ?_, corrected := ?_,
             printed := ?_ }
    · intro r' hr'
      cases hr'
    · intro r' c' hr'
      cases hr'
    · intro line hline
      rcases List.mem_append.mp hline with hold | hnew
      · exact hs.printed line hold
      · rw [List.mem_singleton.mp hnew]
        exact ⟨s.start, hsent, husec, hcorrection, rfl⟩

/-- **Replies and queries.**  In a run whose steps are all prompt, every
printed line is computed from the stamp of the query that it answers. -/
theorem get_replies_paired (l : Labels) (es : List Event) (s : State)
    (hprompt : Meets (step l) Prompt init es)
    (h : exec (step l) init es = some s) :
    ∀ line ∈ s.printed, OwnStart s.sent line := by
  have hpaired : Paired s :=
    exec_history_of_meets (fun _ s => Paired s) paired_init
      (fun _ _ _ _ hs he hstep => prompt_step hs he hstep) es s hprompt h
  exact hpaired.printed

/-- One query; its reply is handled before (`late = false`) or after the next
stamp. -/
def oneReply (late : Bool) : List Event :=
  let restamp := [.stamp ⟨2, 300⟩]
  let handle := [.reply 0 true ⟨2, 400⟩, .correct, .print]
  [.stamp ⟨1, 100⟩, .get] ++
    if late then restamp ++ handle else handle ++ restamp

theorem get_replies_paired_prompt :
    ∃ s, exec (step (labels "cget-squeryable" 1)) init (oneReply false) =
        some s ∧
      ∀ line ∈ s.printed, OwnStart s.sent line :=
  ⟨_, rfl, get_replies_paired _ (oneReply false) _
    (by simp [oneReply, Meets, Prompt, step, init]) rfl⟩

/-- The reply to the query of 1.0001 s is handled after the stamp of
2.0003 s: its line prints a latency of 100 microseconds instead of 1000300. -/
theorem get_replies_paired_late :
    ∃ s line, exec (step (labels "cget-squeryable" 1)) init (oneReply true) =
        some s ∧
      s.printed = [line] ∧ line.lat = 100 ∧ s.sent = [⟨1, 100⟩] ∧
      ¬OwnStart s.sent line := by
  refine ⟨_, _, rfl, rfl, by decide, rfl, ?_⟩
  rintro ⟨t, ht, husec, -⟩
  obtain rfl := Option.some.inj ht
  exact absurd husec (by decide)

end ZenohPicoPerf.Latency.ZenohGet

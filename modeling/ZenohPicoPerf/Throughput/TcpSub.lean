import ZenohPicoPerf.Throughput.Window
import ZenohPicoPerf.Foundation.Run
import ZenohPicoPerf.Foundation.Ledger

/-!
# tcp_sub_thr: the server and its byte count

The server accepts one connection after the other.  Each pass of the inner
loop first runs the window branch on the clock and then reads from the
socket; a failing read leaves the loop and returns to `accept`.  `count`,
`bytes`, `start` and `stop` are globals, so they survive from one connection
to the next.

## Main results

* `step_cases` — everything one step can do.
* `run_refines` — reading and reporting refine a ledger of bits.
* `tcp_bytes_conserved` — every received byte is reported exactly once.
-/

namespace ZenohPicoPerf.Throughput.TcpSub

open ZenohPicoPerf.Foundation.Memory
open ZenohPicoPerf.Foundation.Run
open ZenohPicoPerf.Foundation.Ledger
open ZenohPicoPerf.Common.Clock

def labels (msgSize : CInt) : Labels :=
  { layer := "tcp-raw-perf", name := "baseline", test := "throughput",
    scenario := "ctcp-stcp", msgSize := msgSize }

/-- One printed line.  The rate column is `bits / (stop - start)`. -/
structure Report where
  labels : Labels
  bits : Word
  start : Timeval
  stop : Timeval
deriving DecidableEq, Repr

/-- Where `main` stands: at `accept`, at the window branch or at `read` of
the inner loop, or past the loops. -/
inductive Pc where
  | accept
  | tick
  | read
  | exited
deriving DecidableEq, Repr

structure State where
  pc : Pc
  window : Window
  bytes : Word
  printed : List Report
deriving DecidableEq, Repr

def init : State :=
  { pc := .accept, window := ⟨0, ⟨0, 0⟩, ⟨0, 0⟩⟩, bytes := 0, printed := [] }

/-- What the operating system answers.  `clock` is one pass of the window
branch; the passes that take no stamp ignore the reading. -/
inductive Event where
  | accept (csock : CInt)
  | clock (now : Timeval)
  | read (n : CInt)
deriving DecidableEq, Repr

/-- `print_stats` computes the rate from `bytes` and clears `bytes`. -/
def printStats (msgSize : CInt) (start stop : Timeval) (s : State) : State :=
  { s with
    bytes := 0
    printed := s.printed ++
      [{ labels := labels msgSize, bits := s.bytes * 8,
         start := start, stop := stop }] }

/-- The array of `msg_size` bytes is left out.  So a `read` may return any
number, and the runs go on where the size is not positive and C gives the
array no meaning. -/
def step (N : Nat) (msgSize : CInt) (s : State) : Event → Option State
  | .accept csock =>
      if s.pc = .accept then
        if csock.toInt < 0 then some { s with pc := .exited }
        else some { s with pc := .tick }
      else none
  | .clock now =>
      if s.pc = .tick then
        match s.window.tick N now with
        | (w, none) => some { s with pc := .read, window := w }
        | (w, some (start, stop)) =>
            some (printStats msgSize start stop
              { s with pc := .read, window := w })
      else none
  | .read n =>
      if s.pc = .read then
        if n.toInt < 0 then some { s with pc := .accept }
        else some { s with pc := .tick, bytes := s.bytes + n.toWord }
      else none

/-! ## What one step does -/

/-- The reports printed by one run of the window branch. -/
def tickReports (N : Nat) (msgSize : CInt) (s : State) (now : Timeval) :
    List Report :=
  (s.window.tick N now).2.toList.map fun p =>
    { labels := labels msgSize, bits := s.bytes * 8,
      start := p.1, stop := p.2 }

/-- The value of `bytes` after the window branch: `print_stats` clears it. -/
def tickBytes (N : Nat) (s : State) (now : Timeval) : Word :=
  if (s.window.tick N now).2.isSome then 0 else s.bytes

theorem step_clock {N : Nat} {msgSize : CInt} {s s' : State} {now : Timeval} :
    step N msgSize s (.clock now) = some s' ↔
      s.pc = .tick ∧
        s' = { pc := .read
               window := (s.window.tick N now).1
               bytes := tickBytes N s now
               printed := s.printed ++ tickReports N msgSize s now } := by
  unfold step tickBytes tickReports
  by_cases hpc : s.pc = .tick
  · rcases htick : s.window.tick N now with ⟨w, _ | ⟨start, stop⟩⟩
    · simp [hpc, htick, eq_comm]
    · simp [hpc, htick, printStats, eq_comm]
  · simp [hpc]

theorem step_accept {N : Nat} {msgSize : CInt} {s s' : State}
    {csock : CInt} :
    step N msgSize s (.accept csock) = some s' ↔
      s.pc = .accept ∧
        s' = { s with pc := if csock.toInt < 0 then .exited else .tick } := by
  unfold step
  by_cases hpc : s.pc = .accept
  · by_cases hneg : csock.toInt < 0 <;> simp [hpc, hneg, eq_comm]
  · simp [hpc]

theorem step_read_fail {N : Nat} {msgSize : CInt} {s s' : State} {n : CInt}
    (hn : n.toInt < 0) :
    step N msgSize s (.read n) = some s' ↔
      s.pc = .read ∧ s' = { s with pc := .accept } := by
  unfold step
  by_cases hpc : s.pc = .read <;> simp [hpc, hn, eq_comm]

theorem step_read_ok {N : Nat} {msgSize : CInt} {s s' : State} {n : CInt}
    (hn : 0 ≤ n.toInt) :
    step N msgSize s (.read n) = some s' ↔
      s.pc = .read ∧
        s' = { s with pc := .tick, bytes := s.bytes + n.toWord } := by
  have hpos : ¬n.toInt < 0 := by omega
  unfold step
  by_cases hpc : s.pc = .read <;> simp [hpc, hpos, eq_comm]

/-- Everything one step can do. -/
theorem step_cases {N : Nat} {msgSize : CInt} {s s' : State} {e : Event}
    (h : step N msgSize s e = some s') :
    (∃ csock : CInt, e = .accept csock ∧ s.pc = .accept ∧
      s' = { s with pc := if csock.toInt < 0 then .exited else .tick }) ∨
    (∃ now, e = .clock now ∧ s.pc = .tick ∧
      s' = { pc := .read
             window := (s.window.tick N now).1
             bytes := tickBytes N s now
             printed := s.printed ++ tickReports N msgSize s now }) ∨
    (∃ n : CInt, e = .read n ∧ n.toInt < 0 ∧ s.pc = .read ∧
      s' = { s with pc := .accept }) ∨
    (∃ n : CInt, e = .read n ∧ 0 ≤ n.toInt ∧ s.pc = .read ∧
      s' = { s with pc := .tick, bytes := s.bytes + n.toWord }) := by
  cases e with
  | accept csock => exact Or.inl ⟨csock, rfl, step_accept.mp h⟩
  | clock now => exact Or.inr (Or.inl ⟨now, rfl, step_clock.mp h⟩)
  | read n =>
      by_cases hn : n.toInt < 0
      · exact Or.inr (Or.inr (Or.inl ⟨n, rfl, hn, (step_read_fail hn).mp h⟩))
      · have hpos : 0 ≤ n.toInt := by omega
        exact Or.inr (Or.inr (Or.inr
          ⟨n, rfl, hpos, (step_read_ok hpos).mp h⟩))

/-! ## Byte conservation -/

/-- What a positive read result contributes. -/
def Event.received : Event → Nat
  | .read n => if 0 < n.toInt then n.toNat else 0
  | _ => 0

/-- The sum of the positive read results of a schedule. -/
def received (es : List Event) : Nat := (es.map Event.received).sum

theorem received_snoc (es : List Event) (e : Event) :
    received (es ++ [e]) = received es + e.received := by
  simp [received]

theorem received_read {n : CInt} (h : 0 ≤ n.toInt) :
    (Event.read n).received = n.toNat := by
  by_cases hpos : 0 < n.toInt
  · exact if_pos hpos
  · have hzero : n.toInt = 0 := by omega
    have hn : n = 0 := BitVec.eq_of_toInt_eq hzero
    subst hn
    rfl

/-- `bytes` never exceeds what was received. -/
theorem bytes_le_received (N : Nat) (msgSize : CInt) :
    ∀ es s, exec (step N msgSize) init es = some s →
      s.bytes.toNat ≤ received es := by
  apply exec_history (fun es (s : State) => s.bytes.toNat ≤ received es)
  · exact Nat.zero_le _
  · intro es s e s' ih hstep
    rw [received_snoc]
    rcases step_cases hstep with ⟨_, -, -, rfl⟩ | ⟨now, -, -, rfl⟩ |
      ⟨_, -, -, -, rfl⟩ | ⟨n, rfl, hn, -, rfl⟩
    · exact Nat.le_add_right_of_le ih
    · show (tickBytes N s now).toNat ≤ _
      unfold tickBytes
      split
      · simp
      · exact Nat.le_add_right_of_le ih
    · exact Nat.le_add_right_of_le ih
    · rw [received_read hn]
      show (s.bytes + n.toWord).toNat ≤ _
      rw [BitVec.toNat_add, CInt.toWord_toNat hn]
      exact (Nat.mod_le _ _).trans (by omega)

/-- The ledger of bits behind a state: read results are deposits, `bytes` is
the balance and the reports are the payments. -/
def ledger (es : List Event) (s : State) : Account Nat :=
  { deposited := 8 * received es
    held := 8 * s.bytes.toNat
    paid := s.printed.map fun r => r.bits.toNat
    spilt := 0 }

/-- The step does not push `bytes * 8` past 64 bits. -/
def NoWrap (s : State) (e : Event) : Prop :=
  s.bytes.toNat + e.received < 2 ^ 61

/-- The printed number of bits is exact as long as it fits in 64 bits. -/
theorem bits_exact {b : Word} (h : b.toNat < 2 ^ 61) :
    (b * 8).toNat = 8 * b.toNat := by
  rw [BitVec.toNat_mul, show (8 : Word).toNat = 8 from rfl,
    Nat.mod_eq_of_lt (by omega), Nat.mul_comm]

theorem ledger_stutters {es : List Event} {e : Event} {s s' : State}
    (he : e.received = 0) (hbytes : s'.bytes = s.bytes)
    (hprinted : s'.printed = s.printed) :
    Relation.ReflGen Step (ledger es s) (ledger (es ++ [e]) s') := by
  have hsame : ledger (es ++ [e]) s' = ledger es s := by
    simp [ledger, received_snoc, he, hbytes, hprinted]
  rw [hsame]

theorem ledger_pays {es : List Event} {e : Event} {s s' : State}
    (r : Report) (he : e.received = 0) (hbytes : s'.bytes = 0)
    (hprinted : s'.printed = s.printed ++ [r])
    (hbits : r.bits.toNat = 8 * s.bytes.toNat) :
    Relation.ReflGen Step (ledger es s) (ledger (es ++ [e]) s') := by
  have hpaid : ledger (es ++ [e]) s' = (ledger es s).payOut := by
    simp [ledger, received_snoc, he, hbytes, hprinted, hbits, Account.payOut]
  rw [hpaid]
  exact Relation.ReflGen.single (Step.payOut _)

theorem ledger_deposits {es : List Event} {e : Event} {s s' : State}
    (hbytes : s'.bytes.toNat = s.bytes.toNat + e.received)
    (hprinted : s'.printed = s.printed) :
    Relation.ReflGen Step (ledger es s) (ledger (es ++ [e]) s') := by
  have hdeposit : ledger (es ++ [e]) s' =
      (ledger es s).deposit (8 * e.received) := by
    simp [ledger, received_snoc, hbytes, hprinted, Account.deposit,
      Nat.mul_add]
  rw [hdeposit]
  exact Relation.ReflGen.single (Step.deposit _ _)

/-- One step of the server is one deposit, one payment or none. -/
theorem step_refines {N : Nat} {msgSize : CInt} {es : List Event}
    {s s' : State} {e : Event} (hwrap : NoWrap s e)
    (h : step N msgSize s e = some s') :
    Relation.ReflGen Step (ledger es s) (ledger (es ++ [e]) s') := by
  unfold NoWrap at hwrap
  rcases step_cases h with ⟨csock, rfl, -, rfl⟩ | ⟨now, rfl, -, rfl⟩ |
    ⟨n, rfl, hn, -, rfl⟩ | ⟨n, rfl, hn, -, rfl⟩
  · exact ledger_stutters rfl rfl rfl
  · rcases htick : (s.window.tick N now).2 with _ | ⟨start, stop⟩
    · exact ledger_stutters rfl (by simp [tickBytes, htick])
        (by simp [tickReports, htick])
    · -- the report pays the balance and `print_stats` clears it
      exact ledger_pays ⟨labels msgSize, s.bytes * 8, start, stop⟩ rfl
        (by simp [tickBytes, htick]) (by simp [tickReports, htick])
        (bits_exact (by omega))
  · exact ledger_stutters (if_neg (by omega)) rfl rfl
  · refine ledger_deposits ?_ rfl
    rw [received_read hn] at hwrap ⊢
    show (s.bytes + n.toWord).toNat = _
    rw [BitVec.toNat_add, CInt.toWord_toNat hn]
    exact Nat.mod_eq_of_lt (by omega)

/-- Runs of the server refine runs of the ledger. -/
theorem run_refines (N : Nat) (msgSize : CInt) (es : List Event) (s : State)
    (hwrap : Meets (step N msgSize) NoWrap init es)
    (h : exec (step N msgSize) init es = some s) :
    Relation.ReflTransGen Step Account.zero (ledger es s) :=
  (exec_refines ledger (fun _ _ => True) trivial
    (fun _ _ _ _ _ _ _ => trivial)
    (fun _ _ _ _ _ hC hstep => step_refines hC hstep) es s hwrap h).2

/-- A run that receives less than `2 ^ 61` bytes never wraps. -/
theorem meets_noWrap {N : Nat} {msgSize : CInt} {es : List Event}
    (hsum : received es < 2 ^ 61) :
    Meets (step N msgSize) NoWrap init es := by
  apply meets_of_prefixes
  intro pre e post m hes hm
  have hle := bytes_le_received N msgSize pre m hm
  have hsplit : received es =
      received pre + (e.received + received post) := by
    simp [hes, received]
  unfold NoWrap
  omega

/-- **Byte conservation.**  At every point of every run that receives less
than `2 ^ 61` bytes, over any number of connections, the printed numerators
plus the bits still in `bytes` are the bits received. -/
theorem tcp_bytes_conserved (N : Nat) (msgSize : CInt) (es : List Event)
    (s : State) (hsum : received es < 2 ^ 61)
    (h : exec (step N msgSize) init es = some s) :
    (s.printed.map fun r => r.bits.toNat).sum + 8 * s.bytes.toNat =
      8 * received es :=
  conserved_of_run (run_refines N msgSize es s (meets_noWrap hsum) h)

/-- A connection with one report, left in the middle of a window that the next
connection reports. -/
def reconnect : List Event :=
  [.accept 3, .clock ⟨1, 0⟩, .read 5, .clock ⟨2, 0⟩, .read 7,
    .clock ⟨3, 0⟩, .read (-1), .accept 4, .clock ⟨4, 0⟩, .read 0]

theorem tcp_bytes_conserved_reconnect :
    ∃ s, exec (step 1 64) init reconnect = some s ∧
      s.printed.map Report.bits = [40, 56] ∧ s.bytes = 0 ∧
      (s.printed.map fun r => r.bits.toNat).sum + 8 * s.bytes.toNat = 96 :=
  ⟨_, rfl, rfl, rfl, tcp_bytes_conserved 1 64 reconnect _ (by decide) rfl⟩

end ZenohPicoPerf.Throughput.TcpSub

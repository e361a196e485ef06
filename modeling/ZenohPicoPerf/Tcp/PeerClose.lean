import ZenohPicoPerf.Throughput.TcpSubConnections
import ZenohPicoPerf.Latency.Tcp

/-!
# tcp_sub_thr and tcp_sub_lat when the peer closes

Both servers leave their inner loop when `read` returns a negative number.  At
the end of the stream it returns `0`, again and again, which is no error: the
loop goes on, and the servers measure reads that bring nothing.

## Main results

* `reports_after_close` — tcp_sub_thr prints a report for every `N + 1` reads
  that return `0`.
* `stale_lines` — tcp_sub_lat prints the last stamp again for every such read.
* `tcp_close_never_stops` — no history makes either server stop.
-/

namespace ZenohPicoPerf.Tcp

open ZenohPicoPerf.Foundation.Memory
open ZenohPicoPerf.Foundation.Run
open ZenohPicoPerf.Foundation.Blocks
open ZenohPicoPerf.Common.Clock
open ZenohPicoPerf.Throughput

/-! ## Stopping at the end of the stream -/

/-- A server with an inner loop for each connection: `close` is the read that
returns `0`, and `inner` are the events of the loop once the peer has
closed. -/
structure Server (σ ε ρ : Type*) where
  step : σ → ε → Option σ
  accepting : σ → Prop
  output : σ → List ρ
  close : ε
  inner : ε → Prop

variable {σ ε ρ : Type*}

/-- The first read of `0` leads back to `accept`. -/
def Server.Leaves (v : Server σ ε ρ) (m : σ) : Prop :=
  ∀ s, v.step m v.close = some s → v.accepting s

/-- No iteration of the inner loop follows it. -/
def Server.Ended (v : Server σ ε ρ) (m : σ) : Prop :=
  ∀ s e, v.step m v.close = some s → v.inner e → v.step s e = none

/-- Nothing is printed for the connection behind it. -/
def Server.Silent (v : Server σ ε ρ) (m : σ) : Prop :=
  ∀ s es t, v.step m v.close = some s → (∀ e ∈ es, v.inner e) →
    exec v.step s es = some t → v.output t = v.output s

/-- The server stops measuring when the peer closes. -/
structure Server.Stops (v : Server σ ε ρ) (m : σ) : Prop where
  leaves : v.Leaves m
  ended : v.Ended m
  silent : v.Silent m

/-- A server that is still in the inner loop and prints there does none of
the three. -/
theorem Server.goes_on {v : Server σ ε ρ} {m s t : σ} {es : List ε}
    (hclose : v.step m v.close = some s) (haccept : ¬v.accepting s)
    (hinner : ∀ e ∈ es, v.inner e) (hrun : exec v.step s es = some t)
    (houtput : v.output t ≠ v.output s) :
    ¬v.Leaves m ∧ ¬v.Ended m ∧ ¬v.Silent m := by
  refine ⟨?_, ?_, ?_⟩
  · intro hleaves
    exact haccept (hleaves s hclose)
  · intro hended
    cases es with
    | nil => exact houtput (congrArg v.output (Option.some.inj hrun).symm)
    | cons e es =>
        obtain ⟨s', hstep, -⟩ := exec_cons_iff.mp hrun
        have hnone := hended s e hclose (hinner e (by simp))
        exact Option.some_ne_none s' (hstep.symm.trans hnone)
  · intro hsilent
    exact houtput (hsilent s es t hclose hinner hrun)

/-! ## tcp_sub_thr -/

/-- One pass of the inner loop after the peer has closed. -/
def emptyPass (now : Timeval) : List TcpSub.Event :=
  TcpSub.Connection.pass (now, 0)

def thr (N : Nat) (msgSize : CInt) :
    Server TcpSub.State TcpSub.Event TcpSub.Report where
  step := TcpSub.step N msgSize
  accepting s := s.pc = .accept
  output := TcpSub.State.printed
  close := .read 0
  inner e := (∃ now, e = .clock now) ∨ e = .read 0

/-- The number of reports is that of the completed windows. -/
theorem reports_length {N : Nat} (hN : 1 ≤ N) {msgSize : CInt}
    {es : List TcpSub.Event} {s : TcpSub.State}
    (h : exec (TcpSub.step N msgSize) TcpSub.init es = some s) :
    s.printed.length = (TcpSub.clocks es).length / (N + 1) := by
  have hprinted := congrArg List.length (TcpSub.ran_exec hN msgSize es s h).printed
  rwa [List.length_map, blockEnds_length] at hprinted

/-- From the inner loop on, `N + 1` reads of `0` bring one more report,
whatever was counted before. -/
theorem reports_after_close {N : Nat} (hN : 1 ≤ N) {msgSize : CInt}
    {es : List TcpSub.Event} {s : TcpSub.State}
    (h : exec (TcpSub.step N msgSize) TcpSub.init es = some s)
    (hpc : s.pc = .tick) {nows : List Timeval} (hnows : nows.length = N + 1) :
    ∃ t, exec (TcpSub.step N msgSize) s (nows.flatMap emptyPass) = some t ∧
      t.printed.length = s.printed.length + 1 := by
  have hpasses : nows.flatMap emptyPass =
      (nows.map fun now => (now, (0 : CInt))).flatMap
        TcpSub.Connection.pass := by
    rw [List.flatMap_map]
    rfl
  have hzeros : ∀ p ∈ nows.map fun now => (now, (0 : CInt)),
      0 ≤ p.2.toInt := by simp
  obtain ⟨t, ht, -⟩ := TcpSub.exec_passes N msgSize hzeros hpc
  rw [← hpasses] at ht
  refine ⟨t, ht, ?_⟩
  have hwhole := reports_length hN (exec_append_iff.mpr ⟨s, h, ht⟩)
  have hclocks : (TcpSub.clocks (nows.flatMap emptyPass)).length = N + 1 := by
    rw [hpasses, TcpSub.Connection.clocks_passes, List.length_map,
      List.length_map, hnows]
  rw [hwhole, reports_length hN h, TcpSub.clocks_append, List.length_append,
    hclocks, Nat.add_div_right _ (Nat.succ_pos N)]

/-- The events of a connection up to the read that returns `0`: each pass with
its clock reading and read result, and the window branch of the last pass. -/
def thrHistory (csock : CInt) (passes : List (Timeval × CInt))
    (now : Timeval) : List TcpSub.Event :=
  .accept csock :: (passes.flatMap TcpSub.Connection.pass ++ [.clock now])

theorem exec_thrHistory (N : Nat) (msgSize : CInt) {csock : CInt}
    (hsock : 0 ≤ csock.toInt) {passes : List (Timeval × CInt)}
    (hpasses : ∀ p ∈ passes, 0 ≤ p.2.toInt) (now : Timeval) {s : TcpSub.State}
    (hpc : s.pc = .accept) :
    ∃ m, exec (TcpSub.step N msgSize) s (thrHistory csock passes now) =
      some m ∧ m.pc = .read := by
  have haccept : TcpSub.step N msgSize s (.accept csock) =
      some { s with pc := .tick } :=
    TcpSub.step_accept.mpr ⟨hpc, by rw [if_neg (by omega)]⟩
  obtain ⟨m, hm, hmpc⟩ := TcpSub.exec_passes N msgSize hpasses
    (s := { s with pc := .tick }) rfl
  have hclock := (@TcpSub.step_clock N msgSize m _ now).mpr ⟨hmpc, rfl⟩
  exact ⟨_, exec_cons_iff.mpr ⟨_, haccept, exec_snoc.mpr ⟨m, hm, hclock⟩⟩, rfl⟩

/-- In the inner loop, a read of `0` is one like any other. -/
theorem thr_goes_on {N : Nat} (hN : 1 ≤ N) {msgSize : CInt}
    {es : List TcpSub.Event} {m : TcpSub.State}
    (h : exec (TcpSub.step N msgSize) TcpSub.init es = some m)
    (hpc : m.pc = .read) :
    ¬(thr N msgSize).Leaves m ∧ ¬(thr N msgSize).Ended m ∧
      ¬(thr N msgSize).Silent m := by
  have hclose : TcpSub.step N msgSize m (.read 0) =
      some { m with pc := .tick, bytes := m.bytes + CInt.toWord 0 } :=
    (TcpSub.step_read_ok (by decide)).mpr ⟨hpc, rfl⟩
  obtain ⟨t, ht, hlength⟩ := reports_after_close hN
    (exec_snoc.mpr ⟨m, h, hclose⟩) rfl
    (List.length_replicate (n := N + 1) (a := (⟨0, 0⟩ : Timeval)))
  have hinner : ∀ e ∈ (List.replicate (N + 1) ⟨0, 0⟩).flatMap emptyPass,
      (thr N msgSize).inner e := by
    intro e he
    obtain ⟨now, -, hmem⟩ := List.mem_flatMap.mp he
    rcases List.mem_cons.mp hmem with rfl | hread
    · exact Or.inl ⟨now, rfl⟩
    · exact Or.inr (List.mem_singleton.mp hread)
  apply Server.goes_on (v := thr N msgSize) hclose (by simp [thr]) hinner ht
  intro hsame
  exact Nat.succ_ne_self _ (hlength.symm.trans (congrArg List.length hsame))

/-! ## tcp_sub_lat -/

/-- A read that returns `0`. -/
def readNothing : Latency.Tcp.Event := .read (.data [] (Nat.zero_le _))

def lat (msgsPerSecond : Word) :
    Server Latency.Tcp.State Latency.Tcp.Event Latency.Line where
  step := Latency.Tcp.step msgsPerSecond
  accepting s := s.pc = .accept
  output := Latency.Tcp.State.printed
  close := readNothing
  inner e := (∃ stop, e = .clock stop) ∨ e = readNothing

/-- The line for the stamp that stands in the buffer. -/
def staleLine (msgsPerSecond : Word) (s : Latency.Tcp.State) (stop : Timeval) :
    Latency.Line :=
  { labels := Latency.Tcp.labels msgsPerSecond,
    sec := (Latency.leadingWords s.buf.bytes).1,
    usec := (Latency.leadingWords s.buf.bytes).2, stop := stop }

theorem step_readNothing (msgsPerSecond : Word) {s : Latency.Tcp.State}
    (hpc : s.pc = .read) :
    Latency.Tcp.step msgsPerSecond s readNothing =
      some { s with pc := .decode } := by
  simp [Latency.Tcp.step, readNothing, hpc, Buffer.fill]

theorem step_clock_decode (msgsPerSecond : Word) {s : Latency.Tcp.State}
    (hpc : s.pc = .decode) (stop : Timeval) :
    Latency.Tcp.step msgsPerSecond s (.clock stop) =
      some { s with
        pc := .read
        printed := s.printed ++ [staleLine msgsPerSecond s stop] } := by
  simp [Latency.Tcp.step, hpc, Latency.Tcp.decode_buffer, staleLine]

/-- Every read of `0` prints the stamp of the last record once more. -/
theorem stale_lines (msgsPerSecond : Word) (stops : List Timeval) :
    ∀ s : Latency.Tcp.State, s.pc = .read →
      exec (Latency.Tcp.step msgsPerSecond) s
          (stops.flatMap fun stop => [readNothing, .clock stop]) =
        some { s with
          printed := s.printed ++ stops.map (staleLine msgsPerSecond s) } := by
  induction stops with
  | nil => intro s _; simp
  | cons stop stops ih =>
      rintro ⟨pc, buf, printed⟩ rfl
      have hclock := step_clock_decode msgsPerSecond
        (s := ⟨.decode, buf, printed⟩) rfl stop
      have hrest := ih ⟨.read, buf, printed ++
        [staleLine msgsPerSecond ⟨.decode, buf, printed⟩ stop]⟩ rfl
      rw [List.flatMap_cons, List.cons_append, List.cons_append,
        List.nil_append, exec_cons, step_readNothing msgsPerSecond rfl,
        Option.bind_some, exec_cons, hclock, Option.bind_some, hrest]
      simp [staleLine]

theorem exec_latHistory (msgsPerSecond : Word) {csock : CInt}
    (hsock : 0 ≤ csock.toInt) (fresh : Buffer Latency.Tcp.msgSize)
    (ps : List Latency.Tcp.Piece) {s : Latency.Tcp.State}
    (hpc : s.pc = .accept) :
    ∃ m, exec (Latency.Tcp.step msgsPerSecond) s
        (.accept csock fresh :: ps.flatMap Latency.Tcp.Piece.events) =
      some m ∧ m.pc = .read := by
  have haccept : Latency.Tcp.step msgsPerSecond s (.accept csock fresh) =
      some { s with pc := .read, buf := fresh } := by
    simp [Latency.Tcp.step, hpc, show ¬csock.toInt < 0 by omega]
  obtain ⟨m, hm, hmpc, -⟩ := Latency.Tcp.exec_pieces msgsPerSecond ps
    (s := { s with pc := .read, buf := fresh }) rfl
  exact ⟨m, exec_cons_iff.mpr ⟨_, haccept, hm⟩, hmpc⟩

/-- In the inner loop, a read of `0` is followed by a line. -/
theorem lat_goes_on (msgsPerSecond : Word) {m : Latency.Tcp.State}
    (hpc : m.pc = .read) :
    ¬(lat msgsPerSecond).Leaves m ∧ ¬(lat msgsPerSecond).Ended m ∧
      ¬(lat msgsPerSecond).Silent m := by
  have hclock := step_clock_decode msgsPerSecond
    (s := { m with pc := .decode }) rfl ⟨0, 0⟩
  have hinner : ∀ e ∈ [Latency.Tcp.Event.clock ⟨0, 0⟩],
      (lat msgsPerSecond).inner e :=
    fun e he => Or.inl ⟨⟨0, 0⟩, List.mem_singleton.mp he⟩
  apply Server.goes_on (v := lat msgsPerSecond)
    (step_readNothing msgsPerSecond hpc) (by simp [lat]) hinner
    ((exec_singleton _ _ _).trans hclock)
  simp [lat]

/-! ## Both servers -/

/-- **The end of the stream.**  For every history of connections and positive
read results, neither server stops when `read` returns `0`: it does not return
to `accept`, it runs its inner loop again, and it prints lines. -/
theorem tcp_close_never_stops (N : Nat) (hN : 1 ≤ N) (msgSize : CInt)
    (before : List TcpSub.Event) (s : TcpSub.State)
    (hs : exec (TcpSub.step N msgSize) TcpSub.init before = some s)
    (hpc : s.pc = .accept) (passes : List (Timeval × CInt))
    (hpasses : ∀ p ∈ passes, 0 < p.2.toInt) (now : Timeval)
    (msgsPerSecond : Word) (r : Latency.Tcp.State) (hrpc : r.pc = .accept)
    (fresh : Buffer Latency.Tcp.msgSize) (ps : List Latency.Tcp.Piece)
    (csock : CInt) (hsock : 0 ≤ csock.toInt) :
    (∃ m, exec (TcpSub.step N msgSize) s (thrHistory csock passes now) =
        some m ∧
      ¬(thr N msgSize).Leaves m ∧ ¬(thr N msgSize).Ended m ∧
        ¬(thr N msgSize).Silent m) ∧
    ∃ m, exec (Latency.Tcp.step msgsPerSecond) r
        (.accept csock fresh :: ps.flatMap Latency.Tcp.Piece.events) =
        some m ∧
      ¬(lat msgsPerSecond).Leaves m ∧ ¬(lat msgsPerSecond).Ended m ∧
        ¬(lat msgsPerSecond).Silent m := by
  obtain ⟨m, hm, hmpc⟩ := exec_thrHistory N msgSize hsock
    (fun p hp => (hpasses p hp).le) now hpc
  obtain ⟨m', hm', hmpc'⟩ := exec_latHistory msgsPerSecond hsock fresh ps hrpc
  exact ⟨⟨m, hm, thr_goes_on hN (exec_append_iff.mpr ⟨s, hs, hm⟩) hmpc⟩,
    m', hm', lat_goes_on msgsPerSecond hmpc'⟩

theorem tcp_close_after_data :
    (∃ m, exec (TcpSub.step 100000 64) TcpSub.init
          (thrHistory 3 [(⟨1, 0⟩, 64)] ⟨1, 5⟩) = some m ∧
      ¬(thr 100000 64).Leaves m ∧ ¬(thr 100000 64).Ended m ∧
        ¬(thr 100000 64).Silent m) ∧
    ∃ m, exec (Latency.Tcp.step 10) Latency.Tcp.init
          (.accept 3 Latency.Tcp.zeros ::
            [Latency.Tcp.whole].flatMap Latency.Tcp.Piece.events) = some m ∧
      ¬(lat 10).Leaves m ∧ ¬(lat 10).Ended m ∧ ¬(lat 10).Silent m :=
  tcp_close_never_stops 100000 (by decide) 64 [] TcpSub.init rfl rfl
    [(⟨1, 0⟩, 64)] (by decide) ⟨1, 5⟩ 10 Latency.Tcp.init rfl
    Latency.Tcp.zeros [Latency.Tcp.whole] 3 (by decide)

/-- After one record and the end of the stream, tcp_sub_lat prints the record
a second time; tcp_sub_thr counts on after its first read. -/
theorem tcp_close_record_twice :
    (∃ s, exec (Latency.Tcp.step 10) Latency.Tcp.init
          (.accept 3 Latency.Tcp.zeros :: Latency.Tcp.whole.events ++
            [readNothing, .clock ⟨2, 0⟩]) = some s ∧
      s.printed.map Latency.Line.words = [(1, 2), (1, 2)]) ∧
    (∃ m, exec (Latency.Tcp.step 10) Latency.Tcp.init
          (.accept 3 Latency.Tcp.zeros :: Latency.Tcp.whole.events) = some m ∧
      ¬(lat 10).Stops m) ∧
    ∃ m, exec (TcpSub.step 100000 64) TcpSub.init
          (thrHistory 3 [(⟨1, 0⟩, 64)] ⟨1, 5⟩) = some m ∧
      ¬(thr 100000 64).Stops m := by
  refine ⟨⟨_, rfl, by decide⟩, ⟨_, rfl, ?_⟩, ?_⟩
  · intro hstops
    exact (lat_goes_on 10 rfl).1 hstops.leaves
  · obtain ⟨m, hm, hpc⟩ := @exec_thrHistory 100000 64 3 (by decide)
      [(⟨1, 0⟩, 64)] (by decide) ⟨1, 5⟩ TcpSub.init rfl
    refine ⟨m, hm, fun hstops => ?_⟩
    exact (thr_goes_on (by decide) hm hpc).1 hstops.leaves

end ZenohPicoPerf.Tcp

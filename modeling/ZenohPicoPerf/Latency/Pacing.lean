import ZenohPicoPerf.Common.Clock

/-!
# The pacing of the latency senders

mqtt_pub_lat, tcp_pub_lat, opcua_pub_lat and z_get_lat sleep for
`1000000 / msgs_per_second` microseconds in every iteration of their loops.
The divisor is an argument that has gone through `atoi` and the conversion to
`size_t`; only the number of arguments is checked.

## Main results

* `delay_ok_iff` — which numbers give a delay.
* `delays_eq_replicate` — every iteration sleeps equally long.
* `pacing_defined_iff` — which arguments pace the loop.
-/

namespace ZenohPicoPerf.Latency.Pacing

open ZenohPicoPerf.Foundation.Memory
open ZenohPicoPerf.Foundation.Signed
open ZenohPicoPerf.Foundation.Atoi
open ZenohPicoPerf.Common.Clock

inductive Sender where
  | mqttPubLat
  | tcpPubLat
  | opcuaPubLat
  | zGetLat
deriving DecidableEq, Repr

/-- The argument that `main` converts, if it accepts the number of
arguments; `argv` includes the program's name. -/
def Sender.argument : Sender → List (List Byte) → Option (List Byte)
  | .mqttPubLat, argv => if argv.length < 2 then none else argv[1]?
  | .tcpPubLat, argv => if argv.length < 2 then none else argv[1]?
  | .opcuaPubLat, argv => if argv.length < 2 then none else argv[1]?
  | .zGetLat, argv =>
      if argv.length ≠ 3 ∧ argv.length ≠ 5 then none else argv[2]?

/-- `msgs_per_second = atoi(arg)` -/
def msgsPerSecond (arg : List Byte) : Word := sizeArgument arg

/-- `1000000 / msgs_per_second`, undefined for a divisor of zero. -/
def delay (msgsPerSecond : Word) : Option Word :=
  if msgsPerSecond = 0 then none else some (1000000 / msgsPerSecond)

/-- tcp_pub_lat leaves its loop when `write` returns a negative number; the
others ignore the result of sending. -/
def Sender.leaves : Sender → CInt → Bool
  | .tcpPubLat, n => n.toInt < 0
  | .mqttPubLat, _ | .opcuaPubLat, _ | .zGetLat, _ => false

/-- The delays of the iterations of the loop, from the results of their
sends. -/
def Sender.delays (sender : Sender) (msgsPerSecond : Word) :
    List CInt → Option (List Word)
  | [] => some []
  | n :: ns =>
      if sender.leaves n then some []
      else do
        let d ← delay msgsPerSecond
        let ds ← sender.delays msgsPerSecond ns
        some (d :: ds)

/-- The delays of a whole run; a program that rejects its arguments has
none. -/
def Sender.run (sender : Sender) (argv : List (List Byte))
    (results : List CInt) : Option (List Word) :=
  match sender.argument argv with
  | none => some []
  | some arg => sender.delays (msgsPerSecond arg) results

/-- In every iteration of every run the delay is defined, at least one
microsecond, and not too long for `v` messages a second. -/
def Paced (sender : Sender) (argv : List (List Byte)) (v : Int) : Prop :=
  ∀ results, ∃ ds, sender.run argv results = some ds ∧
    ∀ d ∈ ds, 1 ≤ d.toNat ∧ v * d.toNat ≤ 1000000

/-! ## The divisor -/

/-- Text without digits makes the divisor zero. -/
theorem delay_of_text {arg : List Byte} (h : ∀ b ∈ arg, digit b = none) :
    delay (msgsPerSecond arg) = none :=
  if_pos (sizeArgument_of_text h)

theorem delay_of_zero {m : Word} (h : m.toInt = 0) : delay m = none :=
  if_pos (BitVec.eq_of_toInt_eq h)

theorem delay_defined_iff {m : Word} : (∃ d, delay m = some d) ↔ m ≠ 0 := by
  unfold delay
  by_cases hm : m = 0 <;> simp [hm]

theorem delay_of_ne_zero {m : Word} (h : m.toInt ≠ 0) :
    ∃ d, delay m = some d ∧ d.toNat = 1000000 / m.toNat := by
  have hne : m ≠ 0 := by
    rintro rfl
    exact h rfl
  exact ⟨1000000 / m, if_neg hne, BitVec.toNat_udiv⟩

/-- A negative `int` becomes a huge `size_t`. -/
theorem toNat_of_neg {m : Word} (h : m.toInt < 0) : 1000000 < m.toNat := by
  rw [BitVec.toInt_eq_toNat_cond] at h
  split at h <;> omega

/-- The delay of one iteration is as it should be for the numbers from one
to a million and for no others. -/
theorem delay_ok_iff (m : Word) :
    (∃ d, delay m = some d ∧ 1 ≤ d.toNat ∧ m.toInt * d.toNat ≤ 1000000) ↔
      1 ≤ m.toInt ∧ m.toInt ≤ 1000000 := by
  rcases Int.lt_trichotomy m.toInt 0 with hneg | hzero | hpos
  · obtain ⟨d, hd, hvalue⟩ := delay_of_ne_zero hneg.ne
    have hnone : d.toNat = 0 := by
      rw [hvalue, Nat.div_eq_of_lt (toNat_of_neg hneg)]
    simp only [hd, Option.some.injEq, exists_eq_left', hnone]
    omega
  · simp only [delay_of_zero hzero, hzero]
    simp
  · obtain ⟨d, hd, hvalue⟩ := delay_of_ne_zero hpos.ne'
    have hnat := toInt_of_nonneg hpos.le
    have hproduct : m.toNat * d.toNat ≤ 1000000 := by
      rw [hvalue]
      exact Nat.mul_div_le 1000000 m.toNat
    have hone : 1 ≤ d.toNat ↔ m.toNat ≤ 1000000 := by
      rw [hvalue, Nat.one_le_div_iff (by omega)]
    simp only [hd, Option.some.injEq, exists_eq_left', hone, hnat]
    norm_cast
    omega

/-! ## The loop -/

theorem delays_eq_replicate (sender : Sender) {m d : Word}
    (hd : delay m = some d) (results : List CInt) :
    ∃ k, sender.delays m results = some (List.replicate k d) := by
  induction results with
  | nil => exact ⟨0, rfl⟩
  | cons n ns ih =>
      obtain ⟨k, hk⟩ := ih
      by_cases hleaves : sender.leaves n = true
      · exact ⟨0, by rw [Sender.delays, if_pos hleaves]; rfl⟩
      · refine ⟨k + 1, ?_⟩
        rw [Sender.delays, if_neg hleaves, hd, hk, List.replicate_succ]
        rfl

/-- A send that succeeds is followed by the sleep. -/
theorem delays_singleton (sender : Sender) (m : Word) :
    sender.delays m [0] = (delay m).map fun d => [d] := by
  have hstays : ¬sender.leaves 0 = true := by cases sender <;> decide
  rw [Sender.delays, if_neg hstays]
  cases delay m <;> rfl

/-- The loop is paced exactly when one iteration is. -/
theorem paced_iff_delay {sender : Sender} {argv : List (List Byte)}
    {arg : List Byte} (harg : sender.argument argv = some arg) (v : Int) :
    Paced sender argv v ↔ ∃ d, delay (msgsPerSecond arg) = some d ∧
      1 ≤ d.toNat ∧ v * d.toNat ≤ 1000000 := by
  have hrun : ∀ results, sender.run argv results =
      sender.delays (msgsPerSecond arg) results := by
    intro results
    rw [Sender.run, harg]
  unfold Paced
  simp only [hrun]
  constructor
  · intro hpaced
    obtain ⟨ds, hds, hall⟩ := hpaced [0]
    rw [delays_singleton] at hds
    obtain ⟨d, hd, rfl⟩ := Option.map_eq_some_iff.mp hds
    exact ⟨d, hd, hall d (by simp)⟩
  · rintro ⟨d, hd, hok⟩ results
    obtain ⟨k, hk⟩ := delays_eq_replicate sender hd results
    refine ⟨_, hk, fun d' hd' => ?_⟩
    rw [List.eq_of_mem_replicate hd']
    exact hok

/-- **Pacing.**  For every argument that `atoi` maps to an `int`, every
iteration of the loop has a delay of at least one microsecond that leaves room
for that many messages a second, if and only if the number is between one and
a million. -/
theorem pacing_defined_iff (sender : Sender) (argv : List (List Byte))
    (arg : List Byte) (harg : sender.argument argv = some arg)
    (hrange : Fits 32 (atoi arg)) :
    Paced sender argv (atoi arg) ↔ 1 ≤ atoi arg ∧ atoi arg ≤ 1000000 := by
  rw [paced_iff_delay harg, ← sizeArgument_toInt hrange]
  exact delay_ok_iff (msgsPerSecond arg)

theorem pacing_defined_ten :
    Paced .zGetLat [literal "z_get_lat", literal "s", literal "10"]
        (atoi (literal "10")) ↔
      1 ≤ atoi (literal "10") ∧ atoi (literal "10") ≤ 1000000 :=
  pacing_defined_iff .zGetLat
    [literal "z_get_lat", literal "s", literal "10"] (literal "10") rfl
    ⟨by decide, by decide⟩

/-- Zero and text divide by zero; a negative and a large number give no
delay. -/
theorem pacing_undefined :
    Sender.run .tcpPubLat [literal "tcp_pub_lat", literal "0"] [16] = none ∧
      Sender.run .mqttPubLat [literal "mqtt_pub_lat", literal "fast"] [0] =
        none ∧
      Sender.run .opcuaPubLat [literal "opcua_pub_lat", literal "-5"] [0] =
        some [0] ∧
      Sender.run .mqttPubLat [literal "mqtt_pub_lat", literal "2000000"] [0] =
        some [0] ∧
      ¬Paced .tcpPubLat [literal "tcp_pub_lat", literal "0"] 0 ∧
      ¬Paced .opcuaPubLat [literal "opcua_pub_lat", literal "-5"] (-5) := by
  have hzero : Sender.run .tcpPubLat
      [literal "tcp_pub_lat", literal "0"] [16] = none := by decide
  have hnegative : Sender.run .opcuaPubLat
      [literal "opcua_pub_lat", literal "-5"] [0] = some [0] := by decide
  refine ⟨hzero, by decide, hnegative, by decide, ?_, ?_⟩
  · intro hpaced
    obtain ⟨ds, hds, -⟩ := hpaced [16]
    cases hzero.symm.trans hds
  · intro hpaced
    obtain ⟨ds, hds, hall⟩ := hpaced [0]
    obtain rfl : [0] = ds := Option.some.inj (hnegative.symm.trans hds)
    exact absurd (hall 0 (by simp)).1 (by decide)

end ZenohPicoPerf.Latency.Pacing

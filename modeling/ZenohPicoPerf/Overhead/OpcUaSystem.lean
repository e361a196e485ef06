import ZenohPicoPerf.OpcUa.Server
import ZenohPicoPerf.Foundation.Run
import ZenohPicoPerf.Foundation.Table

/-!
# opcua_server_ovh, opcua_pub_ovh and opcua_sub_ovh together

A publisher writes one string to the node and ends, a subscriber reads the
node once, prints what it read and ends.  Any number of them run against one
server, in any order.  A write whose status is bad may have reached the node:
the response is lost or late.

## Main results

* `Seen.step` — one step of the server or of a client.
* `opcua_ovh_prints` — a subscriber prints at most one line, and which of two
  lines that is depends on the order of its read and the first write that
  reaches the node.
-/

namespace ZenohPicoPerf.Overhead.OpcUaSystem

open ZenohPicoPerf.Foundation
open ZenohPicoPerf.Foundation.Memory
open ZenohPicoPerf.Foundation.Run
open ZenohPicoPerf.OpcUa

/-! ## The clients -/

/-- `sizeof(size_t) + sizeof(size_t)` -/
def msgSize : Nat := 16

inductive Role where
  | publisher
  | subscriber
deriving DecidableEq, Repr

/-- `main`: before `UA_Client_connect`, before its access, or past it. -/
inductive Pc where
  | connecting
  | connected
  | returned
deriving DecidableEq, Repr

/-- `value` is the variant of `main`, `printed` what a subscriber printed. -/
structure Client where
  role : Role
  pc : Pc
  value : Variant
  printed : List (List Byte)
deriving DecidableEq, Repr

/-- `char buf[msg_size + 1]` of opcua_pub_ovh, filled with `0x61` and
terminated, as a `UA_String`. -/
def payload (fresh : Buffer (msgSize + 1)) : Option (List Byte) := do
  let buf ← memset fresh.bytes 0x61 msgSize
  let buf ← storeByte buf msgSize 0
  some (cString buf)

/-- `printf("%.*s\n", ..)` -/
def printf : Variant → List (List Byte)
  | .string bytes => [cString bytes]
  | .empty => []

/-! ## The system -/

structure State where
  server : Server.State
  clients : List Client
deriving DecidableEq, Repr

def init : State := { server := Server.init, clients := [] }

/-- `good` says whether the call returned `UA_STATUSCODE_GOOD`, and `arrives`
whether the value reaches the node; a write that does is placed there. -/
inductive Event where
  | server (e : Server.Event)
  | publisher (fresh : Buffer (msgSize + 1))
  | subscriber
  | connect (i : Nat) (good : Bool)
  | write (i : Nat) (good arrives : Bool)
  | read (i : Nat) (good : Bool)
deriving DecidableEq, Repr

def start (role : Role) (value : Variant) : Client :=
  { role := role, pc := .connecting, value := value, printed := [] }

def step (s : State) : Event → Option State
  | .server e => do
      let server ← Server.step s.server e
      some { s with server := server }
  | .publisher fresh => do
      let bytes ← payload fresh
      some { s with
        clients := s.clients ++ [start .publisher (.string bytes)] }
  | .subscriber =>
      some { s with clients := s.clients ++ [start .subscriber .empty] }
  | .connect i good => do
      let c ← s.clients[i]?
      if c.pc = .connecting ∧ (good = true → s.server.stage = .serving) then
        some { s with
          clients := s.clients.set i
            { c with pc := if good then .connected else .returned } }
      else none
  | .write i good arrives => do
      let c ← s.clients[i]?
      if c.role = .publisher ∧ c.pc = .connected ∧
          (good = true → arrives = true) then
        (if arrives then s.server.write c.value else some s.server).map
          fun server =>
            { server := server
              clients := s.clients.set i { c with pc := .returned } }
      else none
  | .read i good => do
      let c ← s.clients[i]?
      if c.role = .subscriber ∧ c.pc = .connected then
        (if good then s.server.read else some c.value).map fun value =>
          { s with
            clients := s.clients.set i
              { c with
                pc := .returned
                value := value
                printed := if good && value.hasScalarType then printf value
                  else [] } }
      else none

/-! ## What is printed -/

/-- The string of every publisher. -/
def letters : List Byte := List.replicate 16 0x61

theorem payload_eq {fresh : Buffer (msgSize + 1)} {bytes : List Byte}
    (h : payload fresh = some bytes) : bytes = letters := by
  obtain ⟨buf, hbuf, hrest⟩ := Option.bind_eq_some_iff.mp h
  obtain ⟨full, hfull, hbytes⟩ := Option.bind_eq_some_iff.mp hrest
  obtain rfl := Option.some.inj hbytes
  exact cString_filled (by decide) hbuf hfull

/-- A write has reached the node, whatever its status. -/
def Written (es : List Event) : Prop := ∃ j good, .write j good true ∈ es

/-- What client `i` printed in the schedule `es`: nothing before its read, and
then what the node held. -/
def Shows (es : List Event) (i : Nat) (printed : List (List Byte)) : Prop :=
  (.read i true ∉ es ∧ printed = []) ∨
    ∃ pre post, es = pre ++ .read i true :: post ∧
      (Written pre ∧ printed = [letters] ∨ ¬ Written pre ∧ printed = [[]])

theorem written_snoc {es : List Event} {e : Event} :
    Written (es ++ [e]) ↔ Written es ∨ ∃ j good, e = .write j good true := by
  simp [Written, exists_or, eq_comm]

/-- No read of client `i`, and the next event is none either. -/
theorem not_mem_snoc {es : List Event} {e : Event} {i : Nat}
    (h : .read i true ∉ es) (he : e ≠ .read i true) :
    .read i true ∉ es ++ [e] := by
  simp [h, he.symm]

theorem Shows.snoc {es : List Event} {i : Nat} {printed : List (List Byte)}
    (h : Shows es i printed) {e : Event} (he : e ≠ .read i true) :
    Shows (es ++ [e]) i printed := by
  rcases h with ⟨hnone, rfl⟩ | ⟨pre, post, rfl, hprinted⟩
  · exact Or.inl ⟨not_mem_snoc hnone he, rfl⟩
  · exact Or.inr ⟨pre, post ++ [e], by simp, hprinted⟩

/-! ## One step -/

/-- What holds of the node. -/
def NodeOf (es : List Event) (server : Server.State) : Prop :=
  (server.stage = .created → ¬ Written es) ∧
    ∀ v ∈ server.node,
      Written es ∧ v = .string letters ∨ ¬ Written es ∧ v = .string []

/-- What holds of client `i`. -/
structure ClientOf (es : List Event) (i : Nat) (c : Client) : Prop where
  value : c.role = .publisher → c.value = .string letters
  waiting : c.pc ≠ .returned → .read i true ∉ es ∧ c.printed = []
  shows : Shows es i c.printed

structure Seen (es : List Event) (s : State) : Prop where
  node : NodeOf es s.server
  clients : ∀ i c, s.clients[i]? = some c → ClientOf es i c
  absent : ∀ i, s.clients.length ≤ i → .read i true ∉ es

theorem ClientOf.snoc {es : List Event} {i : Nat} {c : Client}
    (h : ClientOf es i c) {e : Event} (he : e ≠ .read i true) :
    ClientOf (es ++ [e]) i c where
  value := h.value
  waiting hpc := by
    obtain ⟨hnone, hprinted⟩ := h.waiting hpc
    exact ⟨not_mem_snoc hnone he, hprinted⟩
  shows := h.shows.snoc he

/-- An event that does not write to the node leaves the facts about it. -/
theorem NodeOf.snoc {es : List Event} {server : Server.State}
    (h : NodeOf es server) {e : Event} (he : ∀ j good, e ≠ .write j good true) :
    NodeOf (es ++ [e]) server := by
  have hsame : Written (es ++ [e]) ↔ Written es := by
    rw [written_snoc]
    exact or_iff_left fun ⟨j, good, hj⟩ => he j good hj
  simpa only [NodeOf, hsame] using h

/-- The clients as a family; a client that has not joined has not read. -/
theorem Seen.family {es : List Event} {s : State} (h : Seen es s) :
    Table.Family (ClientOf es) (fun i => .read i true ∉ es) s.clients :=
  ⟨h.clients, h.absent⟩

theorem seen_init : Seen [] init where
  node := by simp [NodeOf, init, Server.init, Written]
  clients := by simp [init]
  absent := by simp

/-- The server moves, and no client does anything. -/
theorem Seen.server {es : List Event} {s : State} (h : Seen es s) {e : Event}
    (he : ∀ j, e ≠ .read j true) {server : Server.State}
    (hnode : NodeOf (es ++ [e]) server) :
    Seen (es ++ [e]) { s with server := server } where
  node := hnode
  clients i c hc := (h.clients i c hc).snoc (he i)
  absent i hi := not_mem_snoc (h.absent i hi) (he i)

theorem Seen.join {es : List Event} {s : State} (h : Seen es s) {e : Event}
    (hread : ∀ j, e ≠ .read j true) (hwrite : ∀ j good, e ≠ .write j good true)
    {role : Role} {value : Variant}
    (hvalue : role = .publisher → value = .string letters) :
    Seen (es ++ [e])
      { s with clients := s.clients ++ [start role value] } := by
  have hclients : Table.Family (ClientOf (es ++ [e]))
      (fun i => .read i true ∉ es ++ [e])
      (s.clients ++ [start role value]) := by
    refine h.family.join (fun i _ hc => hc.snoc (hread i))
      (fun i hi => not_mem_snoc hi (hread i)) ?_
    intro i hi
    have hnone := not_mem_snoc hi (hread i)
    exact
      { value := hvalue
        waiting := fun _ => ⟨hnone, rfl⟩
        shows := Or.inl ⟨hnone, rfl⟩ }
  exact
    { node := h.node.snoc hwrite
      clients := hclients.entries
      absent := hclients.absent }

/-- Client `i` takes a step. -/
theorem Seen.set {es : List Event} {s : State} (h : Seen es s) {e : Event}
    {i : Nat} {c c' : Client} {server : Server.State}
    (hc : s.clients[i]? = some c) (hothers : ∀ j, j ≠ i → e ≠ .read j true)
    (hclient : ClientOf (es ++ [e]) i c')
    (hnode : NodeOf (es ++ [e]) server) :
    Seen (es ++ [e])
      { server := server, clients := s.clients.set i c' } := by
  have hclients : Table.Family (ClientOf (es ++ [e]))
      (fun j => .read j true ∉ es ++ [e]) (s.clients.set i c') :=
    h.family.set hc (fun j _ hj hd => hd.snoc (hothers j hj))
      (fun j hj hnone => not_mem_snoc hnone (hothers j hj)) hclient
  exact
    { node := hnode
      clients := hclients.entries
      absent := hclients.absent }

/-- The server puts the empty string into the node before it serves, and
leaves the node alone then. -/
theorem NodeOf.server {es : List Event} {server server' : Server.State}
    {d : Server.Event} (h : NodeOf es server)
    (hstep : Server.step server d = some server') :
    NodeOf (es ++ [.server d]) server' := by
  suffices hnode : NodeOf es server' from hnode.snoc (by simp)
  cases d with
  | addNode good =>
      simp only [Server.step] at hstep
      split at hstep
      · rename_i hcreated
        obtain rfl := Option.some.inj hstep
        have hnone := h.1 hcreated
        refine ⟨(fun hstage => by cases hstage), ?_⟩
        intro v hv
        cases good with
        | true => exact Or.inr ⟨hnone, (Option.mem_some_iff.mp hv).symm⟩
        | false => cases hv
      · cases hstep
  | run =>
      simp only [Server.step] at hstep
      split at hstep
      · obtain rfl := Option.some.inj hstep
        exact ⟨(fun hstage => by cases hstage), h.2⟩
      · cases hstep
  | signal =>
      obtain rfl := Option.some.inj hstep
      exact h
  | leave =>
      simp only [Server.step] at hstep
      split at hstep
      · obtain rfl := Option.some.inj hstep
        exact ⟨(fun hstage => by cases hstage), h.2⟩
      · cases hstep

theorem NodeOf.write {es : List Event} {server server' : Server.State}
    {i : Nat} (good : Bool)
    (hwrite : server.write (.string letters) = some server') :
    NodeOf (es ++ [.write i good true]) server' := by
  obtain ⟨hserving, -, rfl⟩ := Server.write_iff.mp hwrite
  have hwritten : Written (es ++ [.write i good true]) :=
    written_snoc.mpr (Or.inr ⟨i, good, rfl⟩)
  refine ⟨fun hstage => ?_, ?_⟩
  · rw [hserving] at hstage
    cases hstage
  · intro v hv
    exact Or.inl ⟨hwritten, (Option.mem_some_iff.mp hv).symm⟩

/-- What a subscriber prints on its read. -/
theorem Shows.read {es : List Event} {i : Nat} {v : Variant}
    (h : Written es ∧ v = .string letters ∨ ¬ Written es ∧ v = .string []) :
    Shows (es ++ [.read i true]) i
      (if true && v.hasScalarType then printf v else []) := by
  refine Or.inr ⟨es, [], rfl, ?_⟩
  rcases h with ⟨hwritten, rfl⟩ | ⟨hnone, rfl⟩
  · exact Or.inl ⟨hwritten, by decide⟩
  · exact Or.inr ⟨hnone, by decide⟩

theorem Seen.step {es : List Event} {s s' : State} {e : Event}
    (h : Seen es s) (hstep : OpcUaSystem.step s e = some s') :
    Seen (es ++ [e]) s' := by
  cases e with
  | server d =>
      obtain ⟨server, hserver, hs'⟩ := Option.bind_eq_some_iff.mp hstep
      obtain rfl := Option.some.inj hs'
      exact h.server (by simp) (h.node.server hserver)
  | publisher fresh =>
      obtain ⟨bytes, hbytes, hs'⟩ := Option.bind_eq_some_iff.mp hstep
      obtain rfl := Option.some.inj hs'
      exact h.join (by simp) (by simp) fun _ => by rw [payload_eq hbytes]
  | subscriber =>
      obtain rfl := Option.some.inj hstep
      exact h.join (by simp) (by simp) (by simp)
  | connect i good =>
      obtain ⟨c, hc, hconnect⟩ := Option.bind_eq_some_iff.mp hstep
      split at hconnect
      · rename_i hpc
        obtain rfl := Option.some.inj hconnect
        have hclient := (h.clients i c hc).snoc (e := .connect i good) (by simp)
        refine h.set hc (by simp)
          { value := hclient.value
            waiting := fun _ => hclient.waiting (by simp [hpc.1])
            shows := hclient.shows } (h.node.snoc (by simp))
      · cases hconnect
  | write i good arrives =>
      obtain ⟨c, hc, hwrite⟩ := Option.bind_eq_some_iff.mp hstep
      split at hwrite
      · rename_i hpublisher
        obtain ⟨server, hserver, rfl⟩ := Option.map_eq_some_iff.mp hwrite
        have hclient :=
          (h.clients i c hc).snoc (e := .write i good arrives) (by simp)
        refine h.set hc (by simp)
          { value := hclient.value
            waiting := fun hpc => absurd rfl hpc
            shows := hclient.shows } ?_
        cases arrives with
        | true =>
            rw [hclient.value hpublisher.1] at hserver
            exact NodeOf.write good hserver
        | false =>
            obtain rfl := Option.some.inj hserver
            exact h.node.snoc (by simp)
      · cases hwrite
  | read i good =>
      obtain ⟨c, hc, hread⟩ := Option.bind_eq_some_iff.mp hstep
      split at hread
      · rename_i hsubscriber
        obtain ⟨value, hvalue, rfl⟩ := Option.map_eq_some_iff.mp hread
        have hnode : NodeOf (es ++ [.read i good]) s.server :=
          h.node.snoc (by simp)
        refine h.set hc (fun j hj => by simp [Ne.symm hj]) ?_ hnode
        refine
          { value := fun hpub => by simp [hsubscriber.1] at hpub
            waiting := fun hpc => absurd rfl hpc
            shows := ?_ }
        cases good with
        | true =>
            obtain ⟨-, hheld⟩ := Server.read_iff.mp hvalue
            exact Shows.read (h.node.2 value hheld)
        | false =>
            have hwaiting := (h.clients i c hc).waiting
              (by simp [hsubscriber.2])
            exact Or.inl ⟨by simp [hwaiting.1], rfl⟩
      · cases hread

/-! ## Whole runs -/

/-- **Overhead run.**  In every run of the server with any number of clients,
a subscriber that has not read prints nothing; one that has prints one line:
the sixteen letters of the publishers if some write had reached the node
before its read, whatever its status, and an empty line otherwise. -/
theorem opcua_ovh_prints (es : List Event) (s : State)
    (h : exec step init es = some s) (i : Nat) (c : Client)
    (hc : s.clients[i]? = some c) : Shows es i c.printed := by
  have hseen := exec_history Seen seen_init
    (fun _ _ _ _ hs hstep => hs.step hstep) es s h
  exact (hseen.clients i c hc).shows

/-- Two subscribers, one before and one after the write of a publisher that
gets a bad status. -/
def beforeAndAfter : List Event :=
  [.server (.addNode true), .server .run, .subscriber, .subscriber,
    .publisher ⟨List.replicate 17 6, rfl⟩, .connect 0 true, .connect 1 true,
    .connect 2 true, .read 0 true, .write 2 false true, .server .signal,
    .read 1 true]

theorem opcua_ovh_after :
    ∃ s c, exec step init beforeAndAfter = some s ∧
      s.clients[1]? = some c ∧ c.printed = [letters] ∧
      Shows beforeAndAfter 1 c.printed :=
  ⟨_, _, rfl, rfl, rfl, opcua_ovh_prints beforeAndAfter _ rfl 1 _ rfl⟩

end ZenohPicoPerf.Overhead.OpcUaSystem

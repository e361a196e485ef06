import ZenohPicoPerf.OpcUa.Server
import ZenohPicoPerf.Throughput.Receivers
import ZenohPicoPerf.Foundation.Run
import ZenohPicoPerf.Foundation.Table

/-!
# opcua_server_thr, opcua_pub_thr and opcua_sub_thr together

Any number of publishers and subscribers share the node of one server.  A
publisher writes its string over and over and counts the writes, a subscriber
reads the node over and over and counts the reads; nothing passes between them
but the value of the node.  A write whose status is bad may have reached it.

## Main results

* `Clean.step` — one step of the server or of a client.
* `opcua_thr_reports` — a client's reports are those of its own successful
  accesses, whatever the others do, and what it reads is the empty string or
  a publisher's string.
-/

namespace ZenohPicoPerf.Throughput.OpcUaSystem

open ZenohPicoPerf.Foundation
open ZenohPicoPerf.Foundation.Memory
open ZenohPicoPerf.Foundation.Blocks
open ZenohPicoPerf.Foundation.Run
open ZenohPicoPerf.Common.Clock
open ZenohPicoPerf.OpcUa

/-! ## The clients -/

inductive Role where
  | publisher (msgSize : CInt)
  | subscriber
deriving DecidableEq, Repr

def Role.labels : Role → Labels
  | .publisher msgSize => OpcuaPubThr.labels msgSize
  | .subscriber => OpcuaSubThr.labels

/-- `main` of a client: before `UA_Client_connect`, in its loop, or past
it. -/
inductive Pc where
  | connecting
  | looping
  | returned
deriving DecidableEq, Repr

/-- `value` is the variant of `main`. -/
structure Client where
  role : Role
  pc : Pc
  value : Variant
  globals : Globals
deriving DecidableEq, Repr

/-- `char buf[msg_size + 1]` of opcua_pub_thr, filled with `0x61` and
terminated, as a `UA_String`.  The size of an array is positive and does not
overflow. -/
def payload (msgSize : CInt) (fresh : Buffer (msgSize + 1).toWord.toNat) :
    Option (List Byte) :=
  if 0 ≤ msgSize.toInt ∧ msgSize.toInt < 2 ^ 31 - 1 then do
    let buf ← memset fresh.bytes 0x61 msgSize.toWord.toNat
    let buf ← storeByte buf msgSize.toWord.toNat 0
    some (cString buf)
  else none

/-! ## The system -/

structure State where
  server : Server.State
  clients : List Client
deriving DecidableEq, Repr

def init : State := { server := Server.init, clients := [] }

/-- A client starts with uninitialised `start` and `stop`; `good` says whether
the call returned `UA_STATUSCODE_GOOD`, and `arrives` whether the value reaches
the node; a write that does is placed there. -/
inductive Event where
  | server (e : Server.Event)
  | publisher (msgSize : CInt) (fresh : Buffer (msgSize + 1).toWord.toNat)
      (start stop : Timeval)
  | subscriber (start stop : Timeval)
  | connect (i : Nat) (good : Bool)
  | write (i : Nat) (good arrives : Bool) (now : Timeval)
  | read (i : Nat) (good : Bool) (now : Timeval)
deriving DecidableEq, Repr

/-- The clock reading of a successful access of client `i`. -/
def Event.reading (i : Nat) : Event → Option Timeval
  | .write j good _ now | .read j good now =>
      if j = i ∧ good = true then some now else none
  | _ => none

/-- A client before its `UA_Client_connect`. -/
def start (role : Role) (value : Variant) (start stop : Timeval) : Client :=
  { role := role, pc := .connecting, value := value
    globals := ⟨⟨0, start, stop⟩, []⟩ }

/-- One pass of the loop of opcua_pub_thr. -/
def write (N : Nat) (server : Server.State) (c : Client)
    (good arrives : Bool) (now : Timeval) : Option (Server.State × Client) :=
  match c.role with
  | .publisher msgSize =>
      (if arrives then server.write c.value else some server).map fun server =>
        (server,
          { c with
            globals := OpcuaPubThr.loopBody N msgSize c.globals
              { good := good, now := now } })
  | .subscriber => none

/-- One pass of the loop of opcua_sub_thr. -/
def read (N : Nat) (server : Server.State) (c : Client) (good : Bool)
    (now : Timeval) : Option Client :=
  match c.role with
  | .publisher _ => none
  | .subscriber =>
      (if good then server.read else some c.value).map fun value =>
        { c with
          value := value
          globals := OpcuaSubThr.loopBody N c.globals
            { good := good, hasScalarType := value.hasScalarType, now := now } }

def step (N : Nat) (s : State) : Event → Option State
  | .server e => do
      let server ← Server.step s.server e
      some { s with server := server }
  | .publisher msgSize fresh t u => do
      let bytes ← payload msgSize fresh
      some { s with
        clients := s.clients ++
          [start (.publisher msgSize) (.string bytes) t u] }
  | .subscriber t u =>
      some { s with clients := s.clients ++ [start .subscriber .empty t u] }
  | .connect i good => do
      let c ← s.clients[i]?
      if c.pc = .connecting ∧ (good = true → s.server.stage = .serving) then
        some { s with
          clients := s.clients.set i
            { c with pc := if good then .looping else .returned } }
      else none
  | .write i good arrives now => do
      let c ← s.clients[i]?
      if c.pc = .looping ∧ (good = true → arrives = true) then do
        let (server, c) ← write N s.server c good arrives now
        some { server := server, clients := s.clients.set i c }
      else none
  | .read i good now => do
      let c ← s.clients[i]?
      if c.pc = .looping then do
        let c ← read N s.server c good now
        some { s with clients := s.clients.set i c }
      else none

/-! ## What the clients read and write -/

theorem payload_eq {msgSize : CInt}
    {fresh : Buffer (msgSize + 1).toWord.toNat} {bytes : List Byte}
    (h : payload msgSize fresh = some bytes) :
    bytes = List.replicate msgSize.toNat 0x61 := by
  unfold payload at h
  split at h
  · rename_i hrange
    obtain ⟨buf, hbuf, hrest⟩ := Option.bind_eq_some_iff.mp h
    obtain ⟨full, hfull, hbytes⟩ := Option.bind_eq_some_iff.mp hrest
    obtain rfl := Option.some.inj hbytes
    rw [CInt.toWord_toNat hrange.1] at hbuf hfull
    exact cString_filled (by decide) hbuf hfull
  · cases h

/-- What the node can hold: the empty string of the server, or the string of
a publisher. -/
def Known (roles : List Role) (v : Variant) : Prop :=
  v = .string [] ∨ ∃ msgSize, .publisher msgSize ∈ roles ∧
    v = .string (List.replicate msgSize.toNat 0x61)

theorem Known.hasScalarType {roles : List Role} {v : Variant}
    (h : Known roles v) : v.hasScalarType = true := by
  rcases h with rfl | ⟨n, -, rfl⟩ <;> rfl

theorem Known.join {roles : List Role} {v : Variant} (h : Known roles v)
    (r : Role) : Known (roles ++ [r]) v :=
  h.imp_right fun ⟨n, hn, hv⟩ => ⟨n, List.mem_append_left _ hn, hv⟩

/-- The counters after an access, which counts if it succeeds. -/
def counted (N : Nat) (c : Client) (good : Bool) (now : Timeval) : Globals :=
  if good = true then c.globals.measure N c.role.labels now else c.globals

/-- A publisher keeps its string and leaves it in the node or does not. -/
theorem write_cases {N : Nat} {server server' : Server.State} {c c' : Client}
    {good arrives : Bool} {now : Timeval}
    (h : write N server c good arrives now = some (server', c')) :
    c.role ≠ .subscriber ∧
    c' = { c with globals := counted N c good now } ∧
    (server'.node = server.node ∨ server'.node = some c.value) := by
  unfold write at h
  split at h
  · rename_i msgSize hrole
    obtain ⟨after, hwrite, hout⟩ := Option.map_eq_some_iff.mp h
    obtain ⟨rfl, rfl⟩ := Prod.mk.inj hout
    refine ⟨by simp [hrole], by simp only [counted, hrole]; rfl, ?_⟩
    cases arrives with
    | true =>
        obtain ⟨-, -, rfl⟩ := Server.write_iff.mp hwrite
        exact Or.inr rfl
    | false =>
        obtain rfl := Option.some.inj hwrite
        exact Or.inl rfl
  · cases h

/-- A subscriber takes the value of the node, if its read succeeds. -/
theorem read_cases {N : Nat} {server : Server.State} {c c' : Client}
    {good : Bool} {now : Timeval}
    (hnode : ∀ v ∈ server.node, v.hasScalarType = true)
    (h : read N server c good now = some c') :
    c'.role = c.role ∧ c'.globals = counted N c good now ∧
    (good = false ∧ c'.value = c.value ∨
      good = true ∧ server.node = some c'.value) := by
  unfold read at h
  split at h
  · cases h
  · rename_i hrole
    obtain ⟨value, hvalue, rfl⟩ := Option.map_eq_some_iff.mp h
    cases good with
    | true =>
        obtain ⟨-, hread⟩ := Server.read_iff.mp hvalue
        have hstring := hnode value hread
        refine ⟨rfl, ?_, Or.inr ⟨rfl, hread⟩⟩
        simp [counted, hrole, hstring, OpcuaSubThr.loopBody, Role.labels]
    | false =>
        obtain rfl := Option.some.inj hvalue
        exact ⟨rfl, rfl, Or.inl ⟨rfl, rfl⟩⟩

/-! ## One step of the system -/

def roles (s : State) : List Role := s.clients.map Client.role

/-- What client `i` has measured and what its variant holds; a subscriber's is
empty until it has read. -/
structure ClientOf (N : Nat) (es : List Event) (rs : List Role) (i : Nat)
    (c : Client) : Prop where
  measured : Measured N c.role.labels (es.filterMap (Event.reading i)) c.globals
  value : Known rs c.value ∨ c.role = .subscriber ∧ c.value = .empty ∧
    es.filterMap (Event.reading i) = []

/-- The clients as a family; there is no reading for a client that has not
joined. -/
abbrev Clients (N : Nat) (es : List Event) (rs : List Role)
    (clients : List Client) : Prop :=
  Table.Family (ClientOf N es rs)
    (fun i => es.filterMap (Event.reading i) = []) clients

structure Clean (N : Nat) (es : List Event) (s : State) : Prop where
  node : ∀ v ∈ s.server.node, Known (roles s) v
  clients : Clients N es (roles s) s.clients

theorem clean_init (N : Nat) : Clean N [] init where
  node := by simp [init, Server.init]
  clients := ⟨by simp [init], by simp⟩

theorem readings_snoc (i : Nat) (es : List Event) (e : Event) :
    (es ++ [e]).filterMap (Event.reading i) =
      es.filterMap (Event.reading i) ++ (e.reading i).toList := by
  rw [List.filterMap_append]
  cases he : e.reading i <;> simp [he]

theorem readings_quiet {i : Nat} {e : Event} (he : e.reading i = none)
    (es : List Event) :
    (es ++ [e]).filterMap (Event.reading i) =
      es.filterMap (Event.reading i) := by
  rw [readings_snoc, he, Option.toList_none, List.append_nil]

theorem ClientOf.quiet {N : Nat} {es : List Event} {rs : List Role} {i : Nat}
    {c : Client} (h : ClientOf N es rs i c) {e : Event}
    (he : e.reading i = none) : ClientOf N (es ++ [e]) rs i c := by
  have hsame := readings_quiet he es
  exact ⟨hsame ▸ h.measured, hsame ▸ h.value⟩

theorem ClientOf.join {N : Nat} {es : List Event} {rs : List Role} {i : Nat}
    {c : Client} (h : ClientOf N es rs i c) (r : Role) :
    ClientOf N es (rs ++ [r]) i c :=
  ⟨h.measured, h.value.imp_left fun hv => hv.join r⟩

/-- The server does something on its own. -/
theorem Clean.quiet {N : Nat} {es : List Event} {s : State} {e : Event}
    (h : Clean N es s) (hquiet : ∀ i, e.reading i = none)
    {server : Server.State}
    (hnode : ∀ v ∈ server.node, Known (roles s) v) :
    Clean N (es ++ [e]) { s with server := server } where
  node := hnode
  clients :=
    { entries := fun i c hc => (h.clients.entries i c hc).quiet (hquiet i)
      absent := by
        intro i hi
        rw [readings_quiet (hquiet i)]
        exact h.clients.absent i hi }

/-- A client that has not accessed the node yet joins. -/
theorem Clean.join {N : Nat} {es : List Event} {s : State} {e : Event}
    (h : Clean N es s) (hquiet : ∀ i, e.reading i = none) (role : Role)
    (value : Variant) (t u : Timeval)
    (hvalue : Known (roles s ++ [role]) value ∨
      role = .subscriber ∧ value = .empty) :
    Clean N (es ++ [e])
      { s with clients := s.clients ++ [start role value t u] } := by
  have hroles : roles { s with
      clients := s.clients ++ [start role value t u] } = roles s ++ [role] := by
    simp [roles, start]
  refine { node := fun v hv => hroles ▸ (h.node v hv).join role, clients := ?_ }
  rw [hroles]
  refine h.clients.join
    (fun i _ hc => (hc.quiet (hquiet i)).join role) ?_ ?_
  · intro i hi
    rw [readings_quiet (hquiet i)]
    exact hi
  · intro i hnone
    have hreadings : (es ++ [e]).filterMap (Event.reading i) = [] := by
      rw [readings_quiet (hquiet i), hnone]
    refine { measured := ?_, value := ?_ }
    · rw [hreadings]
      exact
        { window := counts_nil N _ rfl
          printed := by simp [start] }
    · exact hvalue.imp_right fun hsub => ⟨hsub.1, hsub.2, hreadings⟩

/-- Client `i` becomes `c'`, and its readings grow by those of `e`. -/
theorem Clean.set {N : Nat} {es : List Event} {s : State} {e : Event}
    (h : Clean N es s) {i : Nat} {c c' : Client} {server : Server.State}
    (hc : s.clients[i]? = some c) (hrole : c'.role = c.role)
    (hothers : ∀ j, j ≠ i → e.reading j = none)
    (hclient : ClientOf N (es ++ [e]) (roles s) i c')
    (hnode : ∀ v ∈ server.node, Known (roles s) v) :
    Clean N (es ++ [e])
      { server := server, clients := s.clients.set i c' } := by
  have hroles : roles { server := server, clients := s.clients.set i c' } =
      roles s := Table.map_set_same hc hrole
  refine { node := fun v hv => hroles ▸ hnode v hv, clients := ?_ }
  rw [hroles]
  refine h.clients.set hc (fun j _ hj hd => hd.quiet (hothers j hj)) ?_ hclient
  intro j hj hnone
  rw [readings_quiet (hothers j hj)]
  exact hnone

/-- What an access of client `i` adds to its reports. -/
theorem measured_counted {N : Nat} (hN : 1 ≤ N) {es : List Event}
    {rs : List Role} {i : Nat} {c : Client} (h : ClientOf N es rs i c)
    {e : Event} {good : Bool} {now : Timeval}
    (he : e.reading i = if good = true then some now else none) :
    Measured N c.role.labels ((es ++ [e]).filterMap (Event.reading i))
      (counted N c good now) := by
  rw [readings_snoc, he]
  cases good with
  | true => exact measured_measure hN h.measured now
  | false => simpa [counted] using h.measured

theorem Clean.write {N : Nat} (hN : 1 ≤ N) {es : List Event} {s : State}
    (h : Clean N es s) {i : Nat} {c c' : Client} {good arrives : Bool}
    {now : Timeval} {server : Server.State} (hc : s.clients[i]? = some c)
    (hout : write N s.server c good arrives now = some (server, c')) :
    Clean N (es ++ [.write i good arrives now])
      { server := server, clients := s.clients.set i c' } := by
  obtain ⟨hpub, rfl, hnode⟩ := write_cases hout
  have hclient := h.clients.entries i c hc
  have hknown : Known (roles s) c.value :=
    hclient.value.resolve_right fun hsub => hpub hsub.1
  refine h.set hc rfl ?_ ⟨?_, Or.inl hknown⟩ ?_
  · intro j hj
    rw [Event.reading, if_neg (fun hji => hj hji.1.symm)]
  · exact measured_counted hN hclient (by simp [Event.reading])
  · intro v hv
    rcases hnode with hsame | hown
    · exact h.node v (hsame ▸ hv)
    · rw [hown] at hv
      obtain rfl := Option.mem_some_iff.mp hv
      exact hknown

theorem Clean.read {N : Nat} (hN : 1 ≤ N) {es : List Event} {s : State}
    (h : Clean N es s) {i : Nat} {c c' : Client} {good : Bool}
    {now : Timeval} (hc : s.clients[i]? = some c)
    (hout : read N s.server c good now = some c') :
    Clean N (es ++ [.read i good now])
      { s with clients := s.clients.set i c' } := by
  obtain ⟨hrole, hglobals, hvalue⟩ :=
    read_cases (fun v hv => (h.node v hv).hasScalarType) hout
  have hclient := h.clients.entries i c hc
  refine h.set hc hrole ?_ ⟨?_, ?_⟩ h.node
  · intro j hj
    rw [Event.reading, if_neg (fun hji => hj hji.1.symm)]
  · rw [hrole, hglobals]
    exact measured_counted hN hclient (by simp [Event.reading])
  · rcases hvalue with ⟨rfl, hsame⟩ | ⟨rfl, hread⟩
    · rw [hsame, hrole, readings_quiet (by simp [Event.reading])]
      exact hclient.value
    · exact Or.inl (h.node _ hread)

theorem Clean.step {N : Nat} (hN : 1 ≤ N) {es : List Event} {s s' : State}
    {e : Event} (h : Clean N es s)
    (hstep : OpcUaSystem.step N s e = some s') : Clean N (es ++ [e]) s' := by
  cases e with
  | server e =>
      obtain ⟨server, hserver, hs'⟩ := Option.bind_eq_some_iff.mp hstep
      obtain rfl := Option.some.inj hs'
      refine h.quiet (fun _ => rfl) ?_
      intro v hv
      rcases Server.step_node hserver with hsame | hnone | hempty
      · exact h.node v (hsame ▸ hv)
      · simp [hnone] at hv
      · rw [hempty] at hv
        exact Or.inl (Option.mem_some_iff.mp hv).symm
  | publisher msgSize fresh t u =>
      obtain ⟨bytes, hbytes, hs'⟩ := Option.bind_eq_some_iff.mp hstep
      obtain rfl := Option.some.inj hs'
      refine h.join (fun _ => rfl) _ _ t u (Or.inl (Or.inr ⟨msgSize, ?_, ?_⟩))
      · simp
      · rw [payload_eq hbytes]
  | subscriber t u =>
      obtain rfl := Option.some.inj hstep
      exact h.join (fun _ => rfl) _ _ t u (Or.inr ⟨rfl, rfl⟩)
  | connect i good =>
      obtain ⟨c, hc, hconnect⟩ := Option.bind_eq_some_iff.mp hstep
      split at hconnect
      · obtain rfl := Option.some.inj hconnect
        have hclient :=
          (h.clients.entries i c hc).quiet (e := .connect i good) rfl
        exact h.set hc rfl (fun _ _ => rfl) ⟨hclient.measured, hclient.value⟩
          h.node
      · cases hconnect
  | write i good arrives now =>
      obtain ⟨c, hc, hwrite⟩ := Option.bind_eq_some_iff.mp hstep
      split at hwrite
      · obtain ⟨⟨server, c'⟩, hout, hs'⟩ := Option.bind_eq_some_iff.mp hwrite
        obtain rfl := Option.some.inj hs'
        exact h.write hN hc hout
      · cases hwrite
  | read i good now =>
      obtain ⟨c, hc, hread⟩ := Option.bind_eq_some_iff.mp hstep
      split at hread
      · obtain ⟨c', hout, hs'⟩ := Option.bind_eq_some_iff.mp hread
        obtain rfl := Option.some.inj hs'
        exact h.read hN hc hout
      · cases hread

/-! ## Whole runs -/

/-- **Own accesses.**  In every run of the server with any number of clients,
the reports of a client are the ends of the blocks of its own successful
accesses, in order: what the others read or write has no influence, so a
subscriber measures its polling and not what is published.  The variant of a
subscriber that has read holds the empty string or a publisher's string. -/
theorem opcua_thr_reports (N : Nat) (hN : 1 ≤ N) (es : List Event) (s : State)
    (h : exec (step N) init es = some s) (i : Nat) (c : Client)
    (hc : s.clients[i]? = some c) :
    c.globals.printed =
        (blockEnds N (es.filterMap (Event.reading i))).map (fun q =>
          printStats N c.role.labels q.1 q.2) ∧
      (Known (roles s) c.value ∨ c.role = .subscriber ∧ c.value = .empty ∧
        es.filterMap (Event.reading i) = []) := by
  have hclean := exec_history (Clean N) (clean_init N)
    (fun _ _ _ _ hs hstep => hs.step hN hstep) es s h
  have hclient := hclean.clients.entries i c hc
  exact ⟨hclient.measured.printed, hclient.value⟩

/-- A publisher of one byte and a subscriber; the subscriber reports two reads
of one value, which was written once and with a bad status. -/
def onePublication : List Event :=
  [.server (.addNode true), .server .run,
    .publisher 1 ⟨[7, 7], rfl⟩ ⟨0, 0⟩ ⟨0, 0⟩, .subscriber ⟨0, 0⟩ ⟨0, 0⟩,
    .connect 0 true, .connect 1 true, .read 1 false ⟨1, 0⟩,
    .write 0 false true ⟨2, 0⟩, .read 1 true ⟨3, 0⟩, .read 1 true ⟨4, 0⟩,
    .server .signal, .server .leave, .write 0 false false ⟨5, 0⟩]

theorem opcua_thr_one_publication :
    ∃ s c, exec (step 1) init onePublication = some s ∧
      s.clients[1]? = some c ∧ c.globals.printed.length = 1 ∧
      c.value = .string [0x61] ∧
      c.globals.printed =
        (blockEnds 1 (onePublication.filterMap (Event.reading 1))).map
          (fun q => printStats 1 c.role.labels q.1 q.2) ∧
      (Known (roles s) c.value ∨ c.role = .subscriber ∧ c.value = .empty ∧
        onePublication.filterMap (Event.reading 1) = []) :=
  ⟨_, _, rfl, rfl, rfl, rfl,
    opcua_thr_reports 1 (by decide) onePublication _ rfl 1 _ rfl⟩

end ZenohPicoPerf.Throughput.OpcUaSystem

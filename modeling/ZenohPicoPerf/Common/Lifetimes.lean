import ZenohPicoPerf.Foundation.Ownership

/-!
# Sessions, sockets and memory of the programs

What the `main` functions of the zenoh, OPC UA and XRCE-DDS programs and of
the TCP clients open, pass on and release, as scripts of statements.  The calls
whose result nobody looks at are taken to succeed.  The read task of a zenoh
session runs the handlers of the program between any two statements of `main`
from the moment it is started.

The values are those that a call of `main` itself opens, outside its loops.
What a library puts into one of them is no value of its own: the string in the
variant of opcua_sub_lat, into which the program stores, may be too short or
not be there at all.

## Main results

* `faultless_iff` — z_pong_lat is the only program that can use one of these
  values while it is not there.
* `released_iff` — which programs release everything on every exit.
-/

namespace ZenohPicoPerf.Common.Lifetimes

open ZenohPicoPerf.Foundation.Ownership
open ZenohPicoPerf.Foundation.Run

/-- What `main` opens; `heap` is memory from its `malloc`, and a `variant` is
there without what it holds. -/
inductive Value where
  | config
  | session
  | readTask
  | leaseTask
  | publisher
  | subscriber
  | queryable
  | closure
  | server
  | client
  | variant
  | transport
  | xrceSession
  | socket
  | heap
deriving DecidableEq, Repr

inductive Program where
  | zPubThr | zSubThr | zGetThr | zQueryableThr
  | zPingLat | zPongLat | zGetLat | zQueryableLat
  | zPubOvh | zSubOvh
  | opcuaServerLat | opcuaPubLat | opcuaSubLat
  | opcuaServerThr | opcuaPubThr | opcuaSubThr
  | opcuaServerOvh | opcuaPubOvh | opcuaSubOvh
  | ddsxrcePubLat | ddsxrceSubLat | ddsxrcePubThr | ddsxrceSubThr
  | ddsxrcePubOvh | ddsxrceSubOvh
  | tcpPubLat | tcpPubThr
deriving DecidableEq, Repr

/-! ## Statements -/

/-- A call whose result is not looked at. -/
def lend (vs : List Value) : Stmt Value := .call vs [] [] none

def opens (vs : List Value) (v : Value) : Stmt Value := .call vs [] [v] none

def releases (v : Value) : Stmt Value := .call [] [v] [] none

/-- A test of the arguments, or a call whose failure ends the program as it
is. -/
def orExit (vs : List Value) : Stmt Value := .call vs [] [] (some [])

/-! ## zenoh -/

/-- From `z_config_default` to the two tasks. -/
def openSession : List (Stmt Value) :=
  [lend [.config], .call [] [.config] [.session] (some []),
    opens [.session] .readTask, opens [.session] .leaseTask]

/-- With `getopt`, a usage text and a test of `locator`. -/
def openWithOptions : List (Stmt Value) :=
  orExit [] :: opens [] .config :: orExit [] :: openSession

/-- With a test of `argc`. -/
def openWithArguments : List (Stmt Value) :=
  orExit [] :: opens [] .config :: openSession

def declarePublisher : Stmt Value :=
  .call [.session] [] [.publisher] (some [])

def declareSubscriber : List (Stmt Value) :=
  [opens [] .closure, .call [.session] [.closure] [.subscriber] (some [])]

def declareQueryable : List (Stmt Value) :=
  [opens [] .closure, .call [.session] [.closure] [.queryable] (some [])]

/-- `malloc` and the `memset` behind it. -/
def allocate : List (Stmt Value) := [opens [] .heap, lend [.heap]]

def undeclare (v : Value) : Stmt Value := .call [.session] [v] [] none

/-- `zp_stop_read_task`, `zp_stop_lease_task` and `z_close` -/
def closeSession : List (Stmt Value) :=
  [.call [.session] [.readTask] [] none,
    .call [.session] [.leaseTask] [] none, releases .session]

/-- `z_publisher_put` -/
def put : List Value := [.publisher, .session, .heap]

/-- z_get_thr and z_get_lat; each query has its own closure. -/
def zGet : List (Stmt Value) :=
  openWithArguments ++ [.loop [.session] true] ++ closeSession

/-- z_queryable_thr and z_queryable_lat -/
def zQueryable : List (Stmt Value) :=
  openWithArguments ++ allocate ++ declareQueryable ++
    [.loop [] false, undeclare .queryable] ++ closeSession

/-! ## OPC UA -/

/-- The three servers. -/
def opcuaServer : List (Stmt Value) :=
  [opens [] .server, lend [.server], lend [.server], lend [.server],
    releases .server]

/-- A client that is not connected is deleted. -/
def connectClient : List (Stmt Value) :=
  [opens [] .client, lend [.client],
    .call [.client] [] [] (some [.client])]

/-- opcua_pub_thr and opcua_sub_thr -/
def opcuaThr : List (Stmt Value) :=
  orExit [] :: connectClient ++
    [opens [] .variant, .loop [.client, .variant] true, releases .variant,
      releases .client]

/-- opcua_pub_ovh and opcua_sub_ovh -/
def opcuaOvh : List (Stmt Value) :=
  connectClient ++
    [opens [] .variant, lend [.client, .variant], releases .variant,
      releases .client]

/-! ## XRCE-DDS -/

/-- Up to the status of the entities; `setUp` is what comes between
`uxr_init_session` and `uxr_create_session`. -/
def createEntities (setUp : List (Stmt Value)) : List (Stmt Value) :=
  [orExit [], .call [] [] [.transport] (some []),
    opens [.transport] .xrceSession] ++ setUp ++
  [orExit [.xrceSession, .transport], lend [.xrceSession],
    orExit [.xrceSession, .transport]]

def deleteSession : List (Stmt Value) :=
  [.call [.transport] [.xrceSession] [] none, releases .transport]

/-- ddsxrce_pub_lat and ddsxrce_pub_thr, which leave their loops when the
session ends. -/
def ddsxrcePub : List (Stmt Value) :=
  createEntities [] ++ allocate ++
    [.loop [.xrceSession, .transport, .heap] false] ++ deleteSession

/-- The subscribers set their callback and request the data. -/
def ddsxrceSub : List (Stmt Value) :=
  createEntities [lend [.xrceSession]] ++
    [lend [.xrceSession], .loop [.xrceSession, .transport] true] ++
    deleteSession

/-! ## The programs -/

def Program.script : Program → List (Stmt Value)
  | .zPubThr =>
      openWithOptions ++ allocate ++
        [declarePublisher, .loop put true, undeclare .publisher] ++
        closeSession
  | .zSubThr =>
      openWithOptions ++ declareSubscriber ++
        [.loop [] true, undeclare .subscriber] ++ closeSession
  | .zGetThr | .zGetLat => zGet
  | .zQueryableThr | .zQueryableLat => zQueryable
  | .zPingLat =>
      openWithOptions ++ declarePublisher :: declareSubscriber ++
        [opens [] .heap, .loop put true, undeclare .publisher,
          undeclare .subscriber] ++ closeSession
  | .zPongLat =>
      openWithOptions ++ declareSubscriber ++
        [declarePublisher, .loop [] true, undeclare .subscriber,
          undeclare .publisher] ++ closeSession
  | .zPubOvh =>
      openWithArguments ++ allocate ++
        [declarePublisher, lend put, undeclare .publisher] ++ closeSession
  | .zSubOvh =>
      openWithArguments ++ declareSubscriber ++
        [.loop [] false, undeclare .subscriber] ++ closeSession
  | .opcuaServerLat | .opcuaServerThr | .opcuaServerOvh => opcuaServer
  | .opcuaPubThr | .opcuaSubThr => opcuaThr
  | .opcuaPubOvh | .opcuaSubOvh => opcuaOvh
  | .opcuaPubLat =>
      orExit [] :: opens [] .heap :: connectClient ++
        [.loop [.client, .heap] true, releases .client]
  | .opcuaSubLat =>
      orExit [] :: connectClient ++
        [opens [] .variant, opens [] .heap,
          .loop [.client, .variant, .heap] true, releases .variant,
          releases .client]
  | .ddsxrcePubLat | .ddsxrcePubThr => ddsxrcePub
  | .ddsxrceSubLat | .ddsxrceSubThr | .ddsxrceSubOvh => ddsxrceSub
  | .ddsxrcePubOvh =>
      createEntities [] ++ allocate ++
        [lend [.xrceSession, .transport, .heap]] ++ deleteSession
  | .tcpPubThr =>
      [orExit [], .call [] [] [.socket] (some []), orExit [.socket],
        .loop [.socket] false, releases .socket]
  | .tcpPubLat =>
      [orExit [], .call [] [] [.socket] (some []), orExit [.socket],
        opens [] .heap, .loop [.socket, .heap] false, releases .socket]

/-- The tasks use the session.  `query_handler` replies with `data`, the
`data_handler` of z_pong_lat puts with `pub`; the other handlers use nothing
that `main` owns. -/
def Program.handlers : Program → List (Handler Value)
  | .zQueryableThr | .zQueryableLat =>
      [⟨[.readTask], [.session]⟩, ⟨[.leaseTask], [.session]⟩,
        ⟨[.readTask, .queryable], [.heap]⟩]
  | .zPongLat =>
      [⟨[.readTask], [.session]⟩, ⟨[.leaseTask], [.session]⟩,
        ⟨[.readTask, .subscriber], [.publisher]⟩]
  | _ => [⟨[.readTask], [.session]⟩, ⟨[.leaseTask], [.session]⟩]

/-! ## What the programs never do -/

/-- **Faults.**  Of the 27 programs, exactly z_pong_lat has a run, with some
results of its calls and its handlers run at some time, in which a value that
`main` opens is used or released while it is not there. -/
theorem faultless_iff (p : Program) :
    (∀ es s, exec (step p.handlers) (start [] p.script) es = some s →
      s.fault = false) ↔ p ≠ .zPongLat := by
  have hcheck : Accepted p.handlers [] p.script ↔ p ≠ .zPongLat := by
    cases p <;> decide
  exact accepted_iff.symm.trans hcheck

/-! ## What is left on exit -/

/-- The programs that have nothing to release on a failure, or do it. -/
def Program.tidy : Program → Bool
  | .zGetThr | .zGetLat => true
  | .opcuaServerLat | .opcuaPubLat | .opcuaSubLat => true
  | .opcuaServerThr | .opcuaPubThr | .opcuaSubThr => true
  | .opcuaServerOvh | .opcuaPubOvh | .opcuaSubOvh => true
  | _ => false

/-- **Exits.**  A program that returns normally has released everything but
memory from `malloc`.  On every exit this is so of the OPC UA programs,
z_get_thr and z_get_lat, and of no other: each of those has a failure after
which it leaves a session, a socket, a transport or a configuration open. -/
theorem released_iff (p : Program) :
    (∀ es s, exec (step p.handlers) (start [] p.script) es = some s →
      s.fault = false → s.failed = false → s.rest = [] →
      ∀ v ∈ s.owned, v = .heap) ∧
    ((∀ es s, exec (step p.handlers) (start [] p.script) es = some s →
      s.fault = false → s.failed = true ∨ s.rest = [] →
      ∀ v ∈ s.owned, v = .heap) ↔ p.tidy = true) := by
  have hcalls : Accepted [] [] p.script := by
    cases p <;> decide
  have hreturns : ∀ x ∈ exits [] p.script,
      x.1 = false → ∀ v ∈ x.2, v = .heap := by
    cases p <;> decide
  have hexits : (∀ x ∈ exits [] p.script, ∀ v ∈ x.2, v = .heap) ↔
      p.tidy = true := by
    cases p <;> decide
  constructor
  · intro es s hrun hfault hok hrest
    exact (ended_iff hcalls fun failed vs =>
      failed = false → ∀ v ∈ vs, v = .heap).mpr hreturns es s hrun hfault
        (Or.inr hrest) hok
  · exact (ended_iff hcalls fun _ vs => ∀ v ∈ vs, v = .heap).trans hexits

end ZenohPicoPerf.Common.Lifetimes

import ZenohPicoPerf.Common.Clock

/-!
# opcua_server_thr and opcua_server_ovh

The two servers differ in the name of their node only.  `main` adds a variable
node that holds an empty string, does not look at the result, and serves it
until a signal has cleared `running`.

## Main results

* `step_node` — what the server itself puts into the node.
* `read_iff`, `write_iff` — when an access succeeds.
-/

namespace ZenohPicoPerf.OpcUa

open ZenohPicoPerf.Foundation.Memory

/-- `UA_Variant`, as far as the programs fill it. -/
inductive Variant where
  | empty
  | string (bytes : List Byte)
deriving DecidableEq, Repr

/-- `UA_Variant_hasScalarType(&value, &UA_TYPES[UA_TYPES_STRING])` -/
def Variant.hasScalarType : Variant → Bool
  | .empty => false
  | .string _ => true

namespace Server

/-- How far `main` has come. -/
inductive Stage where
  | created
  | added
  | serving
  | deleted
deriving DecidableEq, Repr

/-- `running` is the flag, `node` the value of the node, if there is one. -/
structure State where
  stage : Stage
  running : Bool
  node : Option Variant
deriving DecidableEq, Repr

def init : State := { stage := .created, running := true, node := none }

/-- `UA_Server_addVariableNode` with its result, the beginning and the end of
`UA_Server_run`, and the signal handler. -/
inductive Event where
  | addNode (good : Bool)
  | run
  | signal
  | leave
deriving DecidableEq, Repr

def step (s : State) : Event → Option State
  | .addNode good =>
      if s.stage = .created then
        some { s with
          stage := .added
          node := if good then some (.string []) else none }
      else none
  | .run =>
      if s.stage = .added then some { s with stage := .serving } else none
  | .signal => some { s with running := false }
  | .leave =>
      if s.stage = .serving ∧ s.running = false then
        some { s with stage := .deleted }
      else none

/-- A read succeeds on a server that serves the node. -/
def State.read (s : State) : Option Variant :=
  if s.stage = .serving then s.node else none

def State.write (s : State) (v : Variant) : Option State :=
  if s.stage = .serving ∧ s.node.isSome then some { s with node := some v }
  else none

/-- The server itself only puts the empty string into the node. -/
theorem step_node {s s' : State} {e : Event} (h : step s e = some s') :
    s'.node = s.node ∨ s'.node = none ∨ s'.node = some (.string []) := by
  cases e with
  | addNode good =>
      simp only [step] at h
      split at h
      · obtain rfl := Option.some.inj h
        cases good <;> simp
      · cases h
  | run =>
      simp only [step] at h
      split at h
      · obtain rfl := Option.some.inj h
        exact Or.inl rfl
      · cases h
  | signal =>
      obtain rfl := Option.some.inj h
      exact Or.inl rfl
  | leave =>
      simp only [step] at h
      split at h
      · obtain rfl := Option.some.inj h
        exact Or.inl rfl
      · cases h

theorem read_iff {s : State} {v : Variant} :
    s.read = some v ↔ s.stage = .serving ∧ s.node = some v := by
  unfold State.read
  split <;> simp [*]

theorem write_iff {s s' : State} {v : Variant} :
    s.write v = some s' ↔
      s.stage = .serving ∧ s.node.isSome ∧ { s with node := some v } = s' := by
  unfold State.write
  split <;> simp_all

end Server

end ZenohPicoPerf.OpcUa

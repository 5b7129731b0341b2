/-
# `Adk.Middleware` — hooks around the model and around a tool (`internal/adk/middleware`)

A chain runs the hooks before a call in order, the call, and the hooks behind it in
the opposite order; `AroundModel` and `AroundTool` are this onion at two types.  A
hook gets pointers and returns pointers, each of which may be nil.

What a hook may do besides is a parameter: the hooks are functions into some `m`.
Each is called once in a passage through the chain, so a hook that keeps a state of
its own is, for one passage, the function it is in that state.
-/
import MiniGoAgent.Adk.Types
import MiniGoAgent.Go.Act

open Go

namespace MiniGoAgent

/-- How a call ends that gives no result. -/
inductive Failure where
  | error (err : Err)
  | panic
  deriving DecidableEq, Repr

namespace Middleware

variable {m : Type → Type} [Monad m] {κ ρ : Type}

structure ModelRequest (π : Type) where
  messages : List π
  tools : List Str := []
  sessionID : Str := []

structure ModelResponse (π : Type) where
  messages : List π := []
  stats : Str := []

structure ToolCall where
  name : Str := []
  arguments : Str := []
  toolID : Str := []
  deriving DecidableEq, Repr

structure ToolResult where
  name : Str := []
  result : Str := []
  error : Option Err := none
  toolID : Str := []
  deriving DecidableEq, Repr

/-- The loop over the hooks before a call. -/
def runBefore (hooks : List (κ → m κ)) (call : κ) : m κ :=
  hooks.foldlM (fun call hook => hook call) call

/-- The loop over the hooks behind a call, from the last one down. -/
def runAfter (hooks : List (κ → ρ → m ρ)) (call : κ) (result : ρ) : m ρ :=
  hooks.reverse.foldlM (fun result hook => hook call result) result

def around (before : List (κ → m κ)) (after : List (κ → ρ → m ρ)) (call : κ)
    (next : κ → m ρ) : m ρ := do
  let call ← runBefore before call
  let result ← next call
  runAfter after call result

end Middleware

/-- The interface `Middleware`, with messages behind pointers of type `π`. -/
structure Middleware (m : Type → Type) (π : Type) where
  beforeModel : Option (Middleware.ModelRequest π) → m (Option (Middleware.ModelRequest π))
  afterModel : Option (Middleware.ModelRequest π) → Option (Middleware.ModelResponse π) →
    m (Option (Middleware.ModelResponse π))
  beforeTool : Option Middleware.ToolCall → m (Option Middleware.ToolCall)
  afterTool : Option Middleware.ToolCall → Option Middleware.ToolResult →
    m (Option Middleware.ToolResult)

abbrev Chain (m : Type → Type) (π : Type) : Type := List (Middleware m π)

namespace Chain

variable {m : Type → Type} [Monad m] {π : Type}

def aroundModel (mws : Chain m π) (req : Option (Middleware.ModelRequest π))
    (next : Option (Middleware.ModelRequest π) → m (Option (Middleware.ModelResponse π))) :
    m (Option (Middleware.ModelResponse π)) :=
  Middleware.around (mws.map (·.beforeModel)) (mws.map (·.afterModel)) req next

def beforeModelChain (mws : Chain m π) (req : Option (Middleware.ModelRequest π)) :
    m (Option (Middleware.ModelRequest π)) :=
  Middleware.runBefore (mws.map (·.beforeModel)) req

def aroundTool (mws : Chain m π) (call : Option Middleware.ToolCall)
    (next : Option Middleware.ToolCall → m (Option Middleware.ToolResult)) :
    m (Option Middleware.ToolResult) :=
  Middleware.around (mws.map (·.beforeTool)) (mws.map (·.afterTool)) call next

end Chain

namespace Middleware

variable {σ κ ρ : Type}

theorem runBefore_lift (hooks : List (κ → Except Failure κ)) (call : κ) :
    (runBefore (hooks.map fun hook call => Act.lift (hook call)) call : Act Failure σ κ) =
      Act.lift (runBefore hooks call) := by
  unfold runBefore
  induction hooks generalizing call with
  | nil => rfl
  | cons hook hooks ih =>
    simp only [List.map_cons, List.foldlM_cons, Act.lift_bind]
    exact bind_congr fun call' => ih call'

theorem runAfter_lift (hooks : List (κ → ρ → Except Failure ρ)) (call : κ) (result : ρ) :
    (runAfter (hooks.map fun hook call result => Act.lift (hook call result)) call result :
      Act Failure σ ρ) = Act.lift (runAfter hooks call result) := by
  unfold runAfter
  rw [← List.map_reverse]
  generalize hooks.reverse = hooks'
  induction hooks' generalizing result with
  | nil => rfl
  | cons hook hooks' ih =>
    simp only [List.map_cons, List.foldlM_cons, Act.lift_bind]
    exact bind_congr fun result' => ih result'

/-- A middleware whose hooks only answer, in a call that works on a state. -/
def lift {π : Type} (mw : Middleware (Except Failure) π) : Middleware (Act Failure σ) π where
  beforeModel req := Act.lift (mw.beforeModel req)
  afterModel req resp := Act.lift (mw.afterModel req resp)
  beforeTool call := Act.lift (mw.beforeTool call)
  afterTool call result := Act.lift (mw.afterTool call result)

end Middleware

theorem Chain.reads_aroundModel {σ π : Type} {mws : Chain (Act Failure σ) π}
    (hmws : ∀ mw ∈ mws, (∀ req, (mw.beforeModel req).Reads) ∧
      ∀ req resp, (mw.afterModel req resp).Reads)
    {next : Option (Middleware.ModelRequest π) →
      Act Failure σ (Option (Middleware.ModelResponse π))}
    (hnext : ∀ req, (next req).Reads) (req : Option (Middleware.ModelRequest π)) :
    (Chain.aroundModel mws req next).Reads := by
  refine Act.Reads.bind ?_ fun req' => Act.Reads.bind (hnext req') fun resp => ?_
  · refine Act.reads_foldlM ?_ req
    intro hook hhook req'
    obtain ⟨mw, hmw, rfl⟩ := List.mem_map.mp hhook
    exact (hmws mw hmw).1 req'
  · refine Act.reads_foldlM ?_ resp
    intro hook hhook resp'
    obtain ⟨mw, hmw, rfl⟩ := List.mem_map.mp (List.mem_reverse.mp hhook)
    exact (hmws mw hmw).2 req' resp'

theorem Chain.aroundTool_lift {σ π : Type} (mws : Chain (Except Failure) π)
    (call : Option Middleware.ToolCall)
    (next : Option Middleware.ToolCall → Act Failure σ (Option Middleware.ToolResult)) :
    Chain.aroundTool (mws.map Middleware.lift) call next = (do
      let call ← Act.lift (Middleware.runBefore (mws.map (·.beforeTool)) call)
      let result ← next call
      Act.lift (Middleware.runAfter (mws.map (·.afterTool)) call result)) := by
  have hbefore : (mws.map Middleware.lift).map (·.beforeTool) =
      (mws.map (·.beforeTool)).map fun hook call => (Act.lift (hook call) : Act Failure σ _) := by
    rw [List.map_map, List.map_map]
    rfl
  have hafter : (mws.map Middleware.lift).map (·.afterTool) =
      (mws.map (·.afterTool)).map fun hook call result =>
        (Act.lift (hook call result) : Act Failure σ _) := by
    rw [List.map_map, List.map_map]
    rfl
  unfold Chain.aroundTool Middleware.around
  rw [hbefore, hafter, Middleware.runBefore_lift]
  simp only [Middleware.runAfter_lift]

end MiniGoAgent

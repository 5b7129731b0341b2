/-
# `Adk.Executor` — running the tool calls of a turn (`internal/adk/tool/executor.go`)

`Execute` runs the calls one after the other and stops behind the first that fails, or
all of them at once, each in a goroutine of its own that writes into its own slot
(`Go.Pool`).  A tool that is not registered, an error and a panic all become results.

Tools are functions of their arguments, so that both ways can be compared.
-/
import MiniGoAgent.Go.Pool
import MiniGoAgent.Protocol.Types

open Go

namespace MiniGoAgent

namespace Executor

structure ToolCall where
  name : Str
  arguments : Str := []
  toolID : Str := []
  deriving DecidableEq, Repr

structure ToolResult where
  name : Str := []
  result : Str := []
  err : Option Err := none
  toolID : Str := []
  failed : Bool := false
  deriving DecidableEq, Repr

/-- What `InvokableRun` comes to; the text of a panic is its value in `%v`. -/
inductive Outcome where
  | ok (result : Str)
  | error (err : Err)
  | panicked (text : Str)
  deriving DecidableEq, Repr

abbrev Tools := Str → Option (Str → Outcome)

def errToolNotFound : Err := .other (lit "tool not found")

def maxConcurrency (numCPU : Nat) : Nat := if 4 < numCPU then numCPU else 4

variable (tools : Tools)

/-- `runOne`; an exception is a panic. -/
def runOne (call : ToolCall) : Except Str ToolResult :=
  match tools call.name with
  | none =>
    .ok { name := call.name, toolID := call.toolID, failed := true, err := some errToolNotFound }
  | some t =>
    match t call.arguments with
    | .error err =>
      .ok { name := call.name, toolID := call.toolID, failed := true, err := some err }
    | .ok result => .ok { name := call.name, toolID := call.toolID, result := result }
    | .panicked text => .error text

def safeRunOne (call : ToolCall) : ToolResult :=
  match runOne tools call with
  | .ok result => result
  | .error text =>
    { name := call.name, toolID := call.toolID, failed := true
      err := some (.other (lit "tool panic: " ++ text)) }

/-- The loop of `executeSequential` from the turn `i` on; `ctx i` is the error of the
context when it is looked at in that turn, if it is done by then. -/
def executeFrom (ctx : Nat → Option Err) : Nat → List ToolCall → List ToolResult
  | _, [] => []
  | i, call :: rest =>
    match ctx i with
    | some err => [{ name := call.name, toolID := call.toolID, failed := true, err := some err }]
    | none =>
      let result := safeRunOne tools call
      if result.failed then [result] else result :: executeFrom ctx (i + 1) rest

def executeSequential (ctx : Nat → Option Err) (calls : List ToolCall) : List ToolResult :=
  executeFrom tools ctx 0 calls

def executeConcurrent (numCPU : Nat) (calls : List ToolCall) :
    Machine (Pool ToolResult) PoolEvent :=
  pool calls (safeRunOne tools) {} (maxConcurrency numCPU)

/-- `Execute` can return these results; `concurrent` is what the options come to. -/
def Returns (numCPU : Nat) (ctx : Nat → Option Err) (concurrent : Bool) (calls : List ToolCall)
    (results : List ToolResult) : Prop :=
  if concurrent && 1 < calls.length then
    ∃ schedule p, (executeConcurrent tools numCPU calls).run
        (executeConcurrent tools numCPU calls).init schedule = some p ∧
      p.returned = true ∧ results = p.results
  else results = executeSequential tools ctx calls

/-! ## What the results are -/

/-- The outcome of a call; there may be no tool of that name. -/
def outcome (call : ToolCall) : Outcome :=
  match tools call.name with
  | none => .error errToolNotFound
  | some t => t call.arguments

/-- The outcome with the name and the id of the call. -/
def ToolResult.of (call : ToolCall) : Outcome → ToolResult
  | .ok result => { name := call.name, toolID := call.toolID, result := result }
  | .error err => { name := call.name, toolID := call.toolID, failed := true, err := some err }
  | .panicked text =>
    { name := call.name, toolID := call.toolID, failed := true
      err := some (.other (lit "tool panic: " ++ text)) }

theorem safeRunOne_eq (call : ToolCall) :
    safeRunOne tools call = .of call (outcome tools call) := by
  unfold safeRunOne runOne outcome
  cases tools call.name with
  | none => rfl
  | some t =>
    dsimp only
    cases t call.arguments with
    | ok | error | panicked => rfl

def outcomes (calls : List ToolCall) : List ToolResult :=
  calls.map (fun call => .of call (outcome tools call))

/-- The results up to the first failure, if there is one. -/
def upToFailure (results : List ToolResult) : List ToolResult :=
  results.take (results.findIdx (fun r => r.failed) + 1)

theorem upToFailure_cons (r : ToolResult) (rest : List ToolResult) :
    upToFailure (r :: rest) = if r.failed then [r] else r :: upToFailure rest := by
  unfold upToFailure
  rw [List.findIdx_cons]
  cases r.failed with
  | true | false => rfl

theorem executeSequential_eq (calls : List ToolCall) :
    executeSequential tools (fun _ => none) calls = upToFailure (outcomes tools calls) := by
  have hfrom : ∀ i, executeFrom tools (fun _ => none) i calls =
      upToFailure (outcomes tools calls) := by
    induction calls with
    | nil => exact fun _ => rfl
    | cons call rest ih =>
      intro i
      rw [outcomes, List.map_cons, upToFailure_cons, executeFrom, safeRunOne_eq]
      dsimp only
      rw [ih (i + 1)]
      rfl
  exact hfrom 0

theorem upToFailure_of_length_le_one {results : List ToolResult} (h : results.length ≤ 1) :
    upToFailure results = results := by
  rw [upToFailure]
  exact List.take_of_length_le (by omega)

theorem maxConcurrency_pos (numCPU : Nat) : 0 < maxConcurrency numCPU := by
  unfold maxConcurrency
  split <;> omega

variable {numCPU : Nat} {calls : List ToolCall}

theorem executeConcurrent_results {schedule : List PoolEvent}
    {p : Pool ToolResult} (hrun : (executeConcurrent tools numCPU calls).run
      (executeConcurrent tools numCPU calls).init schedule = some p) (hret : p.returned = true) :
    p.results = outcomes tools calls := by
  rw [(pool_run hrun).1.results_eq hret]
  exact List.map_congr_left fun call _ => safeRunOne_eq tools call

theorem returns_concurrent {results : List ToolResult}
    (h : Returns tools numCPU (fun _ => none) true calls results) :
    results = outcomes tools calls := by
  unfold Returns at h
  split at h
  next =>
    obtain ⟨schedule, p, hrun, hret, rfl⟩ := h
    exact executeConcurrent_results tools hrun hret
  next hone =>
    rw [h, executeSequential_eq, upToFailure_of_length_le_one]
    rw [outcomes, List.length_map]
    simpa using hone

/-- **Executing tool calls.**  Whatever the schedule of the concurrent executor, it takes
a bounded number of steps, can go on until it returns, and returns the outcomes of the
calls in their order, each with the name and the id of its call.  If the context is not
done, the sequential executor returns these results up to the first failure, and
`Execute` the one or the other. -/
theorem execute_returns_outcomes (numCPU : Nat) (calls : List ToolCall) :
    (∀ schedule p, (executeConcurrent tools numCPU calls).run
        (executeConcurrent tools numCPU calls).init schedule = some p →
      schedule.length ≤ 5 * calls.length + 1 ∧
      (p.returned = false →
        ∃ e, ((executeConcurrent tools numCPU calls).step p e).isSome = true) ∧
      (∃ more p', (executeConcurrent tools numCPU calls).run p more = some p' ∧
        p'.returned = true) ∧
      (p.returned = true → p.results = outcomes tools calls)) ∧
    (∀ (i : Nat) (call : ToolCall), calls[i]? = some call →
      (outcomes tools calls)[i]? = some (ToolResult.of call (outcome tools call))) ∧
    executeSequential tools (fun _ => none) calls = upToFailure (outcomes tools calls) ∧
    (∀ results, Returns tools numCPU (fun _ => none) true calls results →
      results = outcomes tools calls) ∧
    ∀ results, Returns tools numCPU (fun _ => none) false calls results →
      results = upToFailure (outcomes tools calls) := by
  refine ⟨?_, ?_, executeSequential_eq tools calls, fun _ => returns_concurrent tools, ?_⟩
  · intro schedule p hrun
    obtain ⟨hinv, hlen⟩ := pool_run hrun
    refine ⟨by omega, ?_, hinv.exists_return (maxConcurrency_pos numCPU),
      executeConcurrent_results tools hrun⟩
    intro hret
    exact hinv.exists_step (maxConcurrency_pos numCPU) hret
  · intro i call hcall
    rw [outcomes, List.getElem?_map, hcall]
    rfl
  · intro results hreturns
    rw [← executeSequential_eq]
    exact hreturns

/-- **Few tools at a time.**  At no moment of a schedule are more tools under way than the
semaphore has places. -/
theorem running_le_maxConcurrency
    {schedule : List PoolEvent} {p : Pool ToolResult}
    (hrun : (executeConcurrent tools numCPU calls).run
      (executeConcurrent tools numCPU calls).init schedule = some p) :
    p.tasks.count .running ≤ maxConcurrency numCPU := by
  have hsem : p.sem ≤ maxConcurrency numCPU := by
    refine Machine.run_rule _ (P := fun _ p => p.sem ≤ maxConcurrency numCPU)
      (Nat.zero_le _) ?_ hrun
    intro _ p e p' _ h hstep
    cases pool_step_cases hstep with
    | spawn _ hroom => exact hroom
    | release => exact Nat.le_trans (Nat.sub_le _ _) h
    | _ => exact h
  have hholds : ∀ phase ∈ p.tasks, (phase == .running) = true → phase.holds = true := by
    intro phase _ hphase
    rw [eq_of_beq hphase]
    rfl
  calc p.tasks.count .running
      ≤ p.tasks.countP Phase.holds := List.countP_mono_left hholds
    _ = p.sem := (pool_run hrun).1.sem.symm
    _ ≤ maxConcurrency numCPU := hsem

def fiveCalls : List ToolCall := List.replicate 5 ⟨lit "ls", [], []⟩

/-- Four of five calls run, and the fifth has to wait. -/
theorem running_le_maxConcurrency_five :
    ∃ p, (executeConcurrent (fun _ => none) 1 fiveCalls).run
        (executeConcurrent (fun _ => none) 1 fiveCalls).init
        [.spawn, .spawn, .advance 0, .spawn, .advance 1, .advance 2, .spawn, .advance 3] = some p ∧
      p.tasks.count .running = 4 ∧
      (executeConcurrent (fun _ => none) 1 fiveCalls).step p .spawn = none ∧
      p.tasks.count .running ≤ maxConcurrency 1 :=
  ⟨_, rfl, rfl, rfl, @running_le_maxConcurrency _ 1 fiveCalls
    [.spawn, .spawn, .advance 0, .spawn, .advance 1, .advance 2, .spawn, .advance 3] _ rfl⟩

end Executor

end MiniGoAgent

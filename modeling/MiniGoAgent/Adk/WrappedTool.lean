/-
# `Adk.WrappedTool` — a tool behind guardrails and hooks (`internal/adk/react.go`)

`middlewareWrappedTool.InvokableRun` asks the guardrails about the arguments it is
called with and hands the call to the `BeforeTool` hooks, each of which may put
another in its place.  The inner tool runs with the arguments of the last of them,
which nobody asks the guardrails about.

The model keeps a list of the answers of `Check` and of the runs of the inner tool.
`ran_as_checked_iff` says when every run is one that `Check` has allowed: if the
hooks leave the arguments alone.
-/
import MiniGoAgent.Adk.Guardrails
import MiniGoAgent.Adk.Middleware

open Go

namespace MiniGoAgent

inductive ToolEvent where
  /-- `Check` has answered -/
  | checked (name args : Str) (allowed : Bool)
  /-- the inner tool has been run -/
  | ran (args : Str)
  deriving DecidableEq, Repr

structure MiddlewareWrappedTool (π : Type) where
  name : Str
  /-- `InvokableRun` of `inner`, if that is an `InvokableTool` -/
  inner : Option (Str → Str × Option Err)
  chain : Option (Chain (Except Failure) π) := none
  guards : Option (Guardrails Str) := none

namespace MiddlewareWrappedTool

variable {π : Type}

def record (e : ToolEvent) : Act Failure (List ToolEvent) Unit := modify (· ++ [e])

/-- The question to the guardrails. -/
def checkGuards (w : MiddlewareWrappedTool π) (args : Str) :
    Act Failure (List ToolEvent) Unit :=
  match w.guards with
  | none => pure ()
  | some guards => do
      let res := guards.check w.name args
      record (.checked w.name args res.allowed)
      if res.allowed then pure ()
      else throw (.error (.other
        (lit "tool " ++ w.name ++ lit " blocked by guardrails: " ++ res.reason)))

/-- The closure `run`. -/
def run (invoke : Str → Str × Option Err) (arguments : Str) :
    Act Failure (List ToolEvent) (Str × Option Err) := do
  record (.ran arguments)
  return invoke arguments

/-- What the chain is put around. -/
def next (invoke : Str → Str × Option Err) :
    Option Middleware.ToolCall → Act Failure (List ToolEvent) (Option Middleware.ToolResult)
  | none => throw .panic
  | some call => do
      let (res, err) ← run invoke call.arguments
      return some { name := call.name, result := res, error := err }

/-- The call that goes into the chain. -/
def call (w : MiddlewareWrappedTool π) (args : Str) : Option Middleware.ToolCall :=
  some { name := w.name, arguments := args }

/-- `InvokableRun`.  It fails with an error where the source returns it with an empty
result. -/
def invokableRun (w : MiddlewareWrappedTool π) (args : Str) :
    Act Failure (List ToolEvent) (Str × Option Err) :=
  match w.inner with
  | none => throw (.error (.other (lit "tool " ++ w.name ++ lit " is not invokable")))
  | some invoke => do
      w.checkGuards args
      match w.chain with
      | none => run invoke args
      | some mws =>
        match ← Chain.aroundTool (mws.map Middleware.lift) (w.call args) (next invoke) with
        | none => throw .panic
        | some result => return (result.result, result.error)

/-- What `InvokableRun` has asked and run when it ends. -/
def events (w : MiddlewareWrappedTool π) (args : Str) : List ToolEvent :=
  ((w.invokableRun args).exec []).2

/-! ## The events of a call -/

theorem exec_record (e : ToolEvent) (l : List ToolEvent) :
    (record e).exec l = (.ok (), l ++ [e]) := rfl

/-- The arguments the hooks leave in the call, if they let it through. -/
def passed (mws : Chain (Except Failure) π) (call : Option Middleware.ToolCall) :
    Option Str :=
  match Middleware.runBefore (mws.map (·.beforeTool)) call with
  | .ok (some call) => some call.arguments
  | _ => none

theorem events_aroundTool (mws : Chain (Except Failure) π) (call : Option Middleware.ToolCall)
    (invoke : Str → Str × Option Err) (l : List ToolEvent) :
    ((Chain.aroundTool (mws.map Middleware.lift) call (next invoke)).exec l).2 =
      l ++ (passed mws call).toList.map .ran := by
  rw [Chain.aroundTool_lift]
  unfold passed
  cases hbefore : Middleware.runBefore (mws.map (·.beforeTool)) call with
  | error e =>
    rw [Act.exec_bind_error (Act.exec_lift _ _)]
    simp
  | ok call' =>
    rw [Act.exec_bind_ok (Act.exec_lift _ _)]
    cases call' with
    | none =>
      have hpanic : (next invoke none).exec l = (.error .panic, l) := rfl
      rw [Act.exec_bind_error hpanic]
      simp
    | some call' =>
      obtain ⟨result, hran⟩ : ∃ result, (next invoke (some call')).exec l =
          (.ok (some result), l ++ [.ran call'.arguments]) := ⟨_, rfl⟩
      rw [Act.exec_bind_ok hran]
      simp

theorem events_of_refused {w : MiddlewareWrappedTool π} {guards : Guardrails Str}
    (hguards : w.guards = some guards) {args : Str}
    (hrefused : (guards.check w.name args).allowed = false) :
    w.inner = none ∨ w.events args = [.checked w.name args false] := by
  cases hinner : w.inner with
  | none => exact Or.inl rfl
  | some invoke =>
    right
    obtain ⟨e, hchecked⟩ : ∃ e, (w.checkGuards args).exec [] =
        (.error e, [.checked w.name args false]) := by
      simp only [checkGuards, hguards]
      rw [Act.exec_bind_ok (exec_record _ _), hrefused]
      exact ⟨_, rfl⟩
    simp only [events, invokableRun, hinner]
    rw [Act.exec_bind_error hchecked]

theorem events_of_allowed {w : MiddlewareWrappedTool π} {guards : Guardrails Str}
    (hguards : w.guards = some guards) {invoke : Str → Str × Option Err}
    (hinner : w.inner = some invoke) {args : Str}
    (hallowed : (guards.check w.name args).allowed = true) :
    w.events args = .checked w.name args true ::
      ((w.chain.elim (some args) fun mws => passed mws (w.call args)).toList.map .ran) := by
  have hchecked : (w.checkGuards args).exec [] = (.ok (), [.checked w.name args true]) := by
    simp only [checkGuards, hguards]
    rw [Act.exec_bind_ok (exec_record _ _), hallowed]
    rfl
  simp only [events, invokableRun, hinner]
  rw [Act.exec_bind_ok hchecked]
  cases w.chain with
  | none => rfl
  | some mws =>
    have haround := events_aroundTool mws (w.call args) invoke [.checked w.name args true]
    cases hexec : (Chain.aroundTool (mws.map Middleware.lift) (w.call args)
        (next invoke)).exec [.checked w.name args true] with
    | mk outcome l =>
      rw [hexec] at haround
      subst haround
      cases outcome with
      | error e =>
        rw [Act.exec_bind_error hexec]
        rfl
      | ok result =>
        rw [Act.exec_bind_ok hexec]
        cases result with
        | none | some => rfl

/-! ## Checked before it is run -/

/-- Every run of the tool has been allowed, with the arguments it is run with. -/
def AsChecked (name : Str) (l : List ToolEvent) : Prop :=
  ∀ before args after, l = before ++ .ran args :: after → .checked name args true ∈ before

theorem asChecked_of_no_run {name : Str} {l : List ToolEvent}
    (h : ∀ args, .ran args ∉ l) : AsChecked name l := by
  intro before args after hl
  refine absurd ?_ (h args)
  rw [hl]
  exact List.mem_append_right _ List.mem_cons_self

theorem asChecked_ran_iff {name args args' : Str} :
    AsChecked name [.checked name args true, .ran args'] ↔ args' = args := by
  constructor
  · intro h
    have hmem := h [.checked name args true] args' [] rfl
    simpa using hmem
  · rintro rfl before a after hl
    cases before with
    | nil => cases hl
    | cons e before =>
      obtain ⟨rfl, hrest⟩ := List.cons.inj hl
      cases before with
      | nil =>
        obtain ⟨hran, _⟩ := List.cons.inj hrest
        obtain rfl := ToolEvent.ran.inj hran
        exact List.mem_cons_self
      | cons e' before => exact absurd hrest (by simp)

/-- **Checked as run.**  The inner tool runs only with arguments that `Check` has
allowed exactly if the tool cannot be invoked, or `Check` refuses the arguments
the call comes with, or the `BeforeTool` hooks, if they let it through, leave its
arguments as they are. -/
theorem ran_as_checked_iff (w : MiddlewareWrappedTool π) (guards : Guardrails Str) (args : Str) :
    AsChecked w.name ({ w with guards := some guards }.events args) ↔
      w.inner = none ∨ (guards.check w.name args).allowed = false ∨
        ∀ mws ∈ w.chain, ∀ call,
          Middleware.runBefore (mws.map (·.beforeTool))
            (some { name := w.name, arguments := args }) = .ok (some call) →
          call.arguments = args := by
  set w' : MiddlewareWrappedTool π := { w with guards := some guards } with hw'
  have hguards : w'.guards = some guards := rfl
  cases hinner : w.inner with
  | none =>
    have hnone : w'.events args = [] := by
      have hinner' : w'.inner = none := hinner
      simp only [events, invokableRun, hinner']
      rfl
    rw [hnone]
    exact iff_of_true (asChecked_of_no_run fun _ => List.not_mem_nil) (Or.inl rfl)
  | some invoke =>
    cases hallowed : (guards.check w.name args).allowed with
    | false =>
      have hrefused : (guards.check w'.name args).allowed = false := hallowed
      rcases events_of_refused hguards hrefused with hnone | hevents
      · cases hinner.symm.trans hnone
      · rw [hevents]
        exact iff_of_true (asChecked_of_no_run fun _ => by simp) (Or.inr (Or.inl rfl))
    | true =>
      rw [events_of_allowed hguards hinner hallowed]
      have hchain : w'.chain = w.chain := rfl
      rw [hchain]
      cases w.chain with
      | none =>
        refine iff_of_true ?_ (Or.inr (Or.inr fun mws hmws => nomatch hmws))
        exact asChecked_ran_iff.mpr rfl
      | some mws =>
        simp only [Option.elim_some, Option.mem_def, Option.some.injEq, forall_eq',
          reduceCtorEq, Bool.true_eq_false, false_or]
        have hcall : w'.call args = some { name := w.name, arguments := args } := rfl
        unfold passed
        rw [hcall]
        split
        next call hbefore =>
          rw [hbefore]
          refine asChecked_ran_iff.trans ?_
          simp
        next hbefore =>
          refine iff_of_true (asChecked_of_no_run fun _ => by simp) ?_
          intro call hok
          exact absurd hok (hbefore call)

/-- A rule that refuses `rm`, and a hook that makes `rm` out of `ls`. -/
def noRemoving : Guardrails Str :=
  (Guardrails.new none).addRule fun _ args => { allowed := args ≠ lit "rm" }

def rewriting : Middleware (Except Failure) Unit where
  beforeModel req := pure req
  afterModel _ resp := pure resp
  beforeTool call := pure (call.map fun call => { call with arguments := lit "rm" })
  afterTool _ result := pure result

/-- The terminal runs `rm`, which `Check` has not been asked about and refuses. -/
theorem rewritten_call_runs :
    MiddlewareWrappedTool.events
        { name := lit "terminal", inner := some fun _ => (lit "done", none),
          chain := some [rewriting], guards := some noRemoving } (lit "ls") =
      [.checked (lit "terminal") (lit "ls") true, .ran (lit "rm")] ∧
    (noRemoving.check (lit "terminal") (lit "rm")).allowed = false ∧
    ¬ AsChecked (lit "terminal") [.checked (lit "terminal") (lit "ls") true, .ran (lit "rm")] := by
  refine ⟨by decide +kernel, by decide +kernel, ?_⟩
  intro h
  exact absurd (asChecked_ran_iff.mp h) (by decide +kernel)

end MiddlewareWrappedTool

end MiniGoAgent

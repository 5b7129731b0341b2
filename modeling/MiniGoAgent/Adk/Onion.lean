/-
# `Adk.Onion` — chains within chains (`internal/adk/middleware/chain.go`)

`AroundModel` hands the request behind all Before hooks to every After hook.  In a chain
that is wrapped around another one, the After hooks of the outer one get the request the
outer Before hooks have made.  So a chain in two parts is the one part around the other
as long as the inner Before hooks return the pointer they are given (`chain_onion_iff`),
and no longer (`inner_rewrites_request`).

Requests and results are pointers, and what they point to is part of the state the hooks
work on.  That the same hooks are called in the same order with the same arguments is
said of a log in which every call of a hook is entered.
-/
import MiniGoAgent.Adk.Middleware

open Go

namespace MiniGoAgent

namespace Middleware

/-- The two hooks around the model, or around a tool. -/
structure Layer (m : Type → Type) (κ ρ : Type) where
  before : κ → m κ
  after : κ → ρ → m ρ

/-- `Chain.AroundModel` and `Chain.AroundTool`. -/
def aroundLayers {m : Type → Type} [Monad m] {κ ρ : Type} (layers : List (Layer m κ ρ)) (call : κ)
    (next : κ → m ρ) : m ρ :=
  around (layers.map Layer.before) (layers.map Layer.after) call next

inductive HookCall (ι κ ρ : Type) where
  | before (mw : ι) (call : κ)
  | after (mw : ι) (call : κ) (result : ρ)

section Onion

variable {ι σ κ ρ : Type}

/-- The hooks of a middleware that enter their calls in a log. -/
def logged (mw : ι × Layer (Act Failure σ) κ ρ) :
    Layer (Act Failure (σ × List (HookCall ι κ ρ))) κ ρ where
  before call := Act.note [.before mw.1 call] (mw.2.before call)
  after call result := Act.note [.after mw.1 call result] (mw.2.after call result)

/-- From the state `s`, the chain `A ++ B` does what `A` around `B` does: the calls of the
hooks, the outcome and the state behind it are the same. -/
def IsOnion (A B : List (ι × Layer (Act Failure σ) κ ρ)) (call : κ) (next : κ → Act Failure σ ρ)
    (s : σ) : Prop :=
  (aroundLayers ((A ++ B).map logged) call fun call => Act.note [] (next call)).exec (s, []) =
    (aroundLayers (A.map logged) call fun call =>
      aroundLayers (B.map logged) call fun call => Act.note [] (next call)).exec (s, [])

/-- A passage up to the After hooks of `A`: what the Before hooks of `A` have returned, what
those of `B` have, and the result. -/
def upToOuter {m : Type → Type} [Monad m] (A B : List (Layer m κ ρ)) (call : κ)
    (next : κ → m ρ) : m (κ × κ × ρ) := do
  let outer ← runBefore (A.map Layer.before) call
  let inner ← runBefore (B.map Layer.before) outer
  let result ← next inner
  let result ← runAfter (B.map Layer.after) inner result
  pure (outer, inner, result)

/-- If the passage gets to After hooks of `A`, the Before hooks of `B` have returned what
they were given. -/
def KeepsCall (A B : List (ι × Layer (Act Failure σ) κ ρ)) (call : κ) (next : κ → Act Failure σ ρ)
    (s : σ) : Prop :=
  A = [] ∨ ∀ outer inner result s',
    (upToOuter (A.map Prod.snd) (B.map Prod.snd) call next).exec s =
      (.ok (outer, inner, result), s') → inner = outer

variable {m : Type → Type}

theorem runBefore_append [Monad m] [LawfulMonad m] (hooks hooks' : List (κ → m κ))
    (call : κ) : runBefore (hooks ++ hooks') call = runBefore hooks call >>= runBefore hooks' :=
  List.foldlM_append

theorem runAfter_append [Monad m] [LawfulMonad m]
    (hooks hooks' : List (κ → ρ → m ρ)) (call : κ) (result : ρ) :
    runAfter (hooks ++ hooks') call result =
      runAfter hooks' call result >>= runAfter hooks call := by
  unfold runAfter
  rw [List.reverse_append]
  exact List.foldlM_append

theorem aroundLayers_append [Monad m] [LawfulMonad m] (A B : List (Layer m κ ρ))
    (call : κ) (next : κ → m ρ) :
    aroundLayers (A ++ B) call next = upToOuter A B call next >>= fun p =>
      runAfter (A.map Layer.after) p.2.1 p.2.2 := by
  unfold aroundLayers around upToOuter
  simp only [List.map_append, runBefore_append, runAfter_append, bind_assoc, pure_bind]

theorem aroundLayers_nested [Monad m] [LawfulMonad m] (A B : List (Layer m κ ρ))
    (call : κ) (next : κ → m ρ) :
    aroundLayers A call (fun call => aroundLayers B call next) =
      upToOuter A B call next >>= fun p => runAfter (A.map Layer.after) p.1 p.2.2 := by
  unfold aroundLayers around upToOuter
  simp only [bind_assoc, pure_bind]

theorem runBefore_logs (mws : List (ι × Layer (Act Failure σ) κ ρ)) (call : κ) :
    (runBefore ((mws.map logged).map Layer.before) call).Logs
      (runBefore ((mws.map Prod.snd).map Layer.before) call) := by
  unfold runBefore
  simp only [List.foldlM_map]
  exact Act.logs_foldlM (fun _ _ => Act.logs_note _ _) mws call

theorem runAfter_logs (mws : List (ι × Layer (Act Failure σ) κ ρ)) (call : κ) (result : ρ) :
    (runAfter ((mws.map logged).map Layer.after) call result).Logs
      (runAfter ((mws.map Prod.snd).map Layer.after) call result) := by
  unfold runAfter
  simp only [← List.map_reverse, List.foldlM_map]
  exact Act.logs_foldlM (fun _ _ => Act.logs_note _ _) mws.reverse result

theorem upToOuter_logs (A B : List (ι × Layer (Act Failure σ) κ ρ)) (call : κ)
    (next : κ → Act Failure σ ρ) :
    (upToOuter (A.map logged) (B.map logged) call fun call => Act.note [] (next call)).Logs
      (upToOuter (A.map Prod.snd) (B.map Prod.snd) call next) := by
  refine (runBefore_logs A call).bind fun outer => (runBefore_logs B outer).bind fun inner => ?_
  refine (Act.logs_note _ _).bind fun result => (runAfter_logs B inner result).bind fun result => ?_
  exact Act.logs_pure _

theorem runAfter_logged_inj {A : List (ι × Layer (Act Failure σ) κ ρ)} (hA : A ≠ [])
    {call call' : κ} {result : ρ} {s : σ} {l : List (HookCall ι κ ρ)}
    (h : (runAfter ((A.map logged).map Layer.after) call result).exec (s, l) =
      (runAfter ((A.map logged).map Layer.after) call' result).exec (s, l)) : call = call' := by
  cases A using List.reverseRecOn with
  | nil => exact absurd rfl hA
  | append_singleton A mw =>
    have hlog : ∀ call, ∃ l', ((runAfter (((A ++ [mw]).map logged).map Layer.after) call
        result).exec (s, l)).2.2 = l ++ [.after mw.1 call result] ++ l' := by
      intro call
      rw [List.map_append, List.map_append, runAfter_append]
      have hlast : runAfter (([mw].map logged).map Layer.after) call result =
          Act.note [.after mw.1 call result] (mw.2.after call result) := bind_pure _
      rw [hlast]
      exact Act.log_note_bind (runAfter_logs A call) _ _ s l
    obtain ⟨l₁, h₁⟩ := hlog call
    obtain ⟨l₂, h₂⟩ := hlog call'
    rw [h, h₂, List.append_assoc, List.append_assoc, List.append_cancel_left_eq] at h₁
    exact (HookCall.after.inj (List.cons.inj h₁).1).2.1.symm

theorem isOnion_iff (A B : List (ι × Layer (Act Failure σ) κ ρ)) (call : κ)
    (next : κ → Act Failure σ ρ) (s : σ) : IsOnion A B call next s ↔ KeepsCall A B call next s := by
  unfold IsOnion KeepsCall
  rw [List.map_append, aroundLayers_append, aroundLayers_nested]
  obtain ⟨l, hlogged⟩ := upToOuter_logs A B call next s []
  cases hplain : (upToOuter (A.map Prod.snd) (B.map Prod.snd) call next).exec s with
  | mk outcome s' =>
    rw [hplain] at hlogged
    cases outcome with
    | error e =>
      rw [Act.exec_bind_error hlogged, Act.exec_bind_error hlogged]
      exact iff_of_true rfl (.inr (by simp))
    | ok p =>
      obtain ⟨outer, inner, result⟩ := p
      rw [Act.exec_bind_ok hlogged, Act.exec_bind_ok hlogged]
      constructor
      · intro hsame
        by_cases hA : A = []
        · exact .inl hA
        · refine .inr ?_
          rintro _ _ _ _ ⟨⟩
          exact runAfter_logged_inj hA hsame
      · rintro (rfl | hkeeps)
        · rfl
        · rw [hkeeps outer inner result s' rfl]

end Onion

/-- The hooks of a middleware; requests and results are pointers. -/
structure Hooks (m : Type → Type) (Req Resp Call Res : Type) where
  beforeModel : Req → m Req
  afterModel : Req → Resp → m Resp
  beforeTool : Call → m Call
  afterTool : Call → Res → m Res

section Hooks

variable {m : Type → Type} {ι σ Req Resp Call Res : Type}

def Hooks.model (mw : Hooks m Req Resp Call Res) : Layer m Req Resp where
  before := mw.beforeModel
  after := mw.afterModel

def Hooks.tool (mw : Hooks m Req Resp Call Res) : Layer m Call Res where
  before := mw.beforeTool
  after := mw.afterTool

/-- The hooks around the model, for `AroundModel`. -/
def models (mws : List (ι × Hooks m Req Resp Call Res)) : List (ι × Layer m Req Resp) :=
  mws.map fun mw => (mw.1, mw.2.model)

/-- The hooks around a tool, for `AroundTool`. -/
def tools (mws : List (ι × Hooks m Req Resp Call Res)) : List (ι × Layer m Call Res) :=
  mws.map fun mw => (mw.1, mw.2.tool)

/-- Both for the model and for the tools, the chain `A ++ B` is `A` around `B` exactly where
the Before hooks of `B` return the pointer they are given. -/
theorem chain_onion_iff (A B : List (ι × Hooks (Act Failure σ) Req Resp Call Res)) (s : σ) :
    (∀ req next, IsOnion (models A) (models B) req next s ↔
      KeepsCall (models A) (models B) req next s) ∧
    ∀ call next, IsOnion (tools A) (tools B) call next s ↔
      KeepsCall (tools A) (tools B) call next s :=
  ⟨fun req next => isOnion_iff _ _ req next s, fun call next => isOnion_iff _ _ call next s⟩

/-- A middleware that passes everything on, but for the requests it makes anew. -/
def renewing (renew : Nat → Nat) : Hooks (Act Failure Unit) Nat Nat Nat Nat where
  beforeModel req := pure (renew req)
  afterModel _ resp := pure resp
  beforeTool call := pure call
  afterTool _ result := pure result

/-- The second middleware makes a request of its own, of address 2.  The After hook of the
first one gets this request in the chain, and the one of address 1 around the second. -/
theorem inner_rewrites_request :
    ¬ IsOnion (models [(0, renewing id)]) (models [(1, renewing fun _ => 2)]) 1 pure () := by
  intro h
  have hlog := congrArg (fun out => out.2.2.getLast?) h
  have hcalls : some (HookCall.after 0 2 2) = some (HookCall.after 0 1 2) := hlog
  simp at hcalls

end Hooks

/-- The hooks of the interface, at the types the rest of the development has them. -/
def hooks {m : Type → Type} {π : Type} (mw : Middleware m π) :
    Hooks m (Option (ModelRequest π)) (Option (ModelResponse π)) (Option ToolCall)
      (Option ToolResult) where
  beforeModel := mw.beforeModel
  afterModel := mw.afterModel
  beforeTool := mw.beforeTool
  afterTool := mw.afterTool

end Middleware

section Chains

variable {m : Type → Type} [Monad m] {π : Type} (mws : Chain m π)

theorem Chain.aroundModel_eq (req : Option (Middleware.ModelRequest π))
    (next : Option (Middleware.ModelRequest π) → m (Option (Middleware.ModelResponse π))) :
    Chain.aroundModel mws req next =
      Middleware.aroundLayers (mws.map fun mw => mw.hooks.model) req next := by
  unfold Chain.aroundModel Middleware.aroundLayers
  rw [List.map_map, List.map_map]
  rfl

theorem Chain.aroundTool_eq (call : Option Middleware.ToolCall)
    (next : Option Middleware.ToolCall → m (Option Middleware.ToolResult)) :
    Chain.aroundTool mws call next =
      Middleware.aroundLayers (mws.map fun mw => mw.hooks.tool) call next := by
  unfold Chain.aroundTool Middleware.aroundLayers
  rw [List.map_map, List.map_map]
  rfl

end Chains

end MiniGoAgent

/-
# `Adk.Subscriptions` — the event bus of the agent (`internal/adk/event/bus.go`)

A handler is a function value: its code and the variables it has captured.  `Unsubscribe`
compares the pointers `reflect` gives, and these are the pointers of the code.  Of two
closures of one function literal the older one goes, whichever is named
(`unsubscribe_older_closure`); in every state a run can reach, this is the only way in
which a wrong subscription is removed (`unsubscribe_right_iff`).
-/
import Mathlib.Data.List.Count
import Mathlib.Logic.Function.Basic

namespace MiniGoAgent

namespace Event

/-- `Type`: the kinds of events. -/
inductive Kind where
  | agentStart
  | agentEnd
  | stepStart
  | stepEnd
  | modelStart
  | modelEnd
  | toolStart
  | toolEnd
  | error
  deriving DecidableEq, Repr

structure Handler (Code Env : Type) where
  code : Code
  captured : Env
  deriving DecidableEq, Repr

variable {Code Env : Type} [DecidableEq Code]

/-- The handlers of each kind, in the order they are called. -/
structure Bus (Code Env : Type) where
  handlers : Kind → List (Handler Code Env)

namespace Bus

def newBus : Bus Code Env := { handlers := fun _ => [] }

def subscribe (b : Bus Code Env) (t : Kind) (handler : Handler Code Env) : Bus Code Env :=
  { handlers := Function.update b.handlers t (b.handlers t ++ [handler]) }

/-- The first handler with this code is cut out of the slice. -/
def unsubscribe (b : Bus Code Env) (t : Kind) (handler : Handler Code Env) : Bus Code Env :=
  { handlers := Function.update b.handlers t
      ((b.handlers t).eraseP (fun h => h.code = handler.code)) }

/-- `Publish`: the handlers that are called.  One that panics does not keep the others
from being called. -/
def publish (b : Bus Code Env) (t : Kind) : List (Handler Code Env) := b.handlers t

end Bus

inductive Op (Code Env : Type) where
  | subscribe (t : Kind) (handler : Handler Code Env)
  | unsubscribe (t : Kind) (handler : Handler Code Env)

def Op.step (b : Bus Code Env) : Op Code Env → Bus Code Env
  | .subscribe t handler => b.subscribe t handler
  | .unsubscribe t handler => b.unsubscribe t handler

def busAfter (ops : List (Op Code Env)) : Bus Code Env := ops.foldl Op.step Bus.newBus

/-- One subscription of the handler is gone if there was one, and nothing else has changed. -/
structure UnsubscribeRight (b b' : Bus Code Env) (t : Kind) (handler : Handler Code Env) :
    Prop where
  removed : handler ∈ b.handlers t →
    ∃ front back, b.handlers t = front ++ handler :: back ∧ b'.handlers t = front ++ back
  absent : handler ∉ b.handlers t → b'.handlers t = b.handlers t
  others : ∀ t', t' ≠ t → b'.handlers t' = b.handlers t'

/-- The first handler of the kind with this code. -/
def Bus.firstWith (b : Bus Code Env) (t : Kind) (code : Code) : Option (Handler Code Env) :=
  (b.handlers t).find? (fun h => h.code = code)

theorem unsubscribe_cases (b : Bus Code Env) (t : Kind) (handler : Handler Code Env) :
    (b.firstWith t handler.code = none ∧
        (b.unsubscribe t handler).handlers t = b.handlers t) ∨
      ∃ first front back, b.firstWith t handler.code = some first ∧
        b.handlers t = front ++ first :: back ∧
        (b.unsubscribe t handler).handlers t = front ++ back := by
  have herase : (b.unsubscribe t handler).handlers t =
      (b.handlers t).eraseP (fun h => h.code = handler.code) := Function.update_self ..
  rw [herase]
  unfold Bus.firstWith
  cases hfind : (b.handlers t).find? (fun h => h.code = handler.code) with
  | none =>
    refine .inl ⟨rfl, List.eraseP_of_forall_not ?_⟩
    exact List.find?_eq_none.mp hfind
  | some first =>
    obtain ⟨hfirst, front, back, hsplit, hnone⟩ := List.find?_eq_some_iff_append.mp hfind
    refine .inr ⟨first, front, back, rfl, hsplit, ?_⟩
    rw [hsplit, List.eraseP_append_right _ (by simpa using hnone), List.eraseP_cons, hfirst]
    rfl

variable [DecidableEq Env]

theorem removed_inj {x y : Handler Code Env} {front back front' back' : List (Handler Code Env)}
    (hsplit : front ++ x :: back = front' ++ y :: back') (hleft : front ++ back = front' ++ back') :
    x = y := by
  have hcount := congrArg (List.count x) hsplit
  have hrest := congrArg (List.count x) hleft
  simp only [List.count_append, List.count_cons, beq_self_eq_true, if_true] at hcount hrest
  by_contra hne
  rw [if_neg (by simpa using Ne.symm hne)] at hcount
  omega

/-- In every state of the bus, the right subscription is removed exactly if the first
handler of the kind with this code, if there is one, is the one that is named. -/
theorem unsubscribe_right_iff (ops : List (Op Code Env)) (t : Kind) (handler : Handler Code Env) :
    UnsubscribeRight (busAfter ops) ((busAfter ops).unsubscribe t handler) t handler ↔
      ∀ first, (busAfter ops).firstWith t handler.code = some first → first = handler := by
  generalize busAfter ops = b
  have hothers : ∀ t', t' ≠ t → (b.unsubscribe t handler).handlers t' = b.handlers t' :=
    fun t' ht' => Function.update_of_ne ht' ..
  rcases unsubscribe_cases b t handler with
    ⟨hfind, hsame⟩ | ⟨first, front, back, hfind, hsplit, hcut⟩
  · have habsent : handler ∉ b.handlers t := fun hmem =>
      List.find?_eq_none.mp hfind handler hmem (by simp)
    rw [hfind]
    exact iff_of_true ⟨fun hmem => absurd hmem habsent, fun _ => hsame, hothers⟩ (by simp)
  · rw [hfind]
    constructor
    · rintro hright _ ⟨⟩
      by_cases hmem : handler ∈ b.handlers t
      · obtain ⟨front', back', hsplit', hcut'⟩ := hright.removed hmem
        exact removed_inj (hsplit.symm.trans hsplit') (hcut.symm.trans hcut')
      · have hlen := congrArg List.length (hright.absent hmem)
        rw [hcut, hsplit] at hlen
        simp at hlen
    · intro hfirst
      obtain rfl := hfirst first rfl
      refine ⟨fun _ => ⟨front, back, hsplit, hcut⟩, fun habsent => ?_, hothers⟩
      exact absurd (hsplit ▸ List.mem_append_right _ List.mem_cons_self) habsent

/-- Two closures of one literal are subscribed, and the second one is removed: from then
on the second one is called, and the first one is not. -/
theorem unsubscribe_older_closure : let first : Handler Nat Nat := ⟨0, 1⟩
    let second : Handler Nat Nat := ⟨0, 2⟩
    let b := busAfter [.subscribe .agentStart first, .subscribe .agentStart second]
    (b.unsubscribe .agentStart second).publish .agentStart = [second] ∧
      ¬ UnsubscribeRight b (b.unsubscribe .agentStart second) .agentStart second := by
  intro first second b
  have hcalled : (b.unsubscribe .agentStart second).handlers .agentStart = [second] := by decide
  refine ⟨hcalled, fun h => ?_⟩
  obtain ⟨front, back, hsplit, hcut⟩ := h.removed (by decide)
  have hthere : [] ++ first :: [second] = front ++ second :: back := hsplit
  exact absurd (removed_inj hthere (hcalled.symm.trans hcut)) (by decide)

end Event

end MiniGoAgent

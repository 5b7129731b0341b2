/-
# `Go.Pool` — one goroutine for each item, some at a time

    for i, item := range items {
        wg.Add(1)
        sem <- struct{}{}
        go func() {
            defer wg.Done()
            defer func() { <-sem }()
            results[i] = f(item)
        }()
    }
    wg.Wait()
    return results

The goroutines are started in the order of the items, and take their steps in any order
from then on.  `pool` is the machine of all interleavings, over arbitrary items and
results: a run that goes on as long as it can returns the results of all items, in their
order (`pool_run`).
-/
import MiniGoAgent.Go.Machine
import Mathlib.Algebra.GroupWithZero.Nat

namespace Go

/-- How far a goroutine is: it has been started, `f` is at work, the result is in its
slot, the semaphore has been given back, and the wait group has been told. -/
inductive Phase where
  | spawned
  | running
  | written
  | released
  | done
  deriving DecidableEq, Repr

namespace Phase

def holds : Phase → Bool
  | spawned | running | written => true
  | released | done => false

def pending : Phase → Bool
  | done => false
  | _ => true

def hasWritten : Phase → Bool
  | spawned | running => false
  | _ => true

def left : Phase → Nat
  | spawned => 4
  | running => 3
  | written => 2
  | released => 1
  | done => 0

end Phase

variable {i : Nat} {phase : Phase} {γ : Type}

structure Pool (β : Type) where
  tasks : List Phase := []
  /-- the length of the channel `sem` -/
  sem : Nat := 0
  /-- the counter of the wait group -/
  wg : Nat := 0
  results : List β
  returned : Bool := false

inductive PoolEvent where
  /-- the next item: `wg.Add`, the send on `sem`, and `go` -/
  | spawn
  /-- the next step of a goroutine -/
  | advance (i : Nat)
  /-- `wg.Wait` lets the loop return -/
  | wait
  deriving DecidableEq, Repr

section Pool

variable {α β : Type} (items : List α) (f : α → β) (zero : β) (cap : Nat)

def Pool.advance (p : Pool β) (i : Nat) : Option (Pool β) :=
  match p.tasks[i]?, items[i]? with
  | some .spawned, some _ => some { p with tasks := p.tasks.set i .running }
  | some .running, some item =>
    some { p with tasks := p.tasks.set i .written, results := p.results.set i (f item) }
  | some .written, some _ => some { p with tasks := p.tasks.set i .released, sem := p.sem - 1 }
  | some .released, some _ => some { p with tasks := p.tasks.set i .done, wg := p.wg - 1 }
  | _, _ => none

def pool : Machine (Pool β) PoolEvent where
  init := { results := List.replicate items.length zero }
  step p
    | .spawn =>
      if p.tasks.length < items.length ∧ p.sem < cap then
        some { p with tasks := p.tasks ++ [.spawned], sem := p.sem + 1, wg := p.wg + 1 }
      else none
    | .advance i => p.advance items f i
    | .wait =>
      if p.tasks.length = items.length ∧ p.wg = 0 ∧ p.returned = false then
        some { p with returned := true }
      else none

inductive PoolStep : Pool β → PoolEvent → Pool β → Prop where
  | spawn {p : Pool β} : p.tasks.length < items.length → p.sem < cap →
      PoolStep p .spawn { p with tasks := p.tasks ++ [.spawned], sem := p.sem + 1, wg := p.wg + 1 }
  | run {p : Pool β} {i : Nat} : p.tasks[i]? = some .spawned →
      PoolStep p (.advance i) { p with tasks := p.tasks.set i .running }
  | write {p : Pool β} {i : Nat} {item : α} : p.tasks[i]? = some .running →
      items[i]? = some item →
      PoolStep p (.advance i)
        { p with tasks := p.tasks.set i .written, results := p.results.set i (f item) }
  | release {p : Pool β} {i : Nat} : p.tasks[i]? = some .written →
      PoolStep p (.advance i) { p with tasks := p.tasks.set i .released, sem := p.sem - 1 }
  | tell {p : Pool β} {i : Nat} : p.tasks[i]? = some .released →
      PoolStep p (.advance i) { p with tasks := p.tasks.set i .done, wg := p.wg - 1 }
  | wait {p : Pool β} : p.tasks.length = items.length → p.wg = 0 → p.returned = false →
      PoolStep p .wait { p with returned := true }

variable {items f zero cap} {p p' : Pool β}

theorem Pool.advance_cases (h : p.advance items f i = some p') :
    PoolStep items f cap p (.advance i) p' := by
  unfold Pool.advance at h
  cases htask : p.tasks[i]? with
  | none =>
    rw [htask] at h
    cases h
  | some phase =>
    cases hitem : items[i]? with
    | none =>
      rw [htask, hitem] at h
      cases phase <;> cases h
    | some item =>
      rw [htask, hitem] at h
      cases phase with
      | spawned =>
        cases h
        exact .run htask
      | running =>
        cases h
        exact .write htask hitem
      | written =>
        cases h
        exact .release htask
      | released =>
        cases h
        exact .tell htask
      | done => cases h

theorem pool_step_cases {e : PoolEvent}
    (h : (pool items f zero cap).step p e = some p') : PoolStep items f cap p e p' := by
  cases e with
  | spawn =>
    obtain ⟨hcond, heq⟩ := Option.ite_none_right_eq_some.mp h
    cases heq
    exact .spawn hcond.1 hcond.2
  | advance i => exact Pool.advance_cases h
  | wait =>
    obtain ⟨hcond, heq⟩ := Option.ite_none_right_eq_some.mp h
    cases heq
    exact .wait hcond.1 hcond.2.1 hcond.2.2

/-! ## Changing one entry of a list -/

variable {l : List γ}

theorem exists_set_eq {x : γ} (h : l[i]? = some x) :
    ∃ a b, l = a ++ x :: b ∧ ∀ y, l.set i y = a ++ y :: b := by
  obtain ⟨hi, hx⟩ := List.getElem?_eq_some_iff.mp h
  have hset : ∀ y, l.set i y = l.take i ++ y :: l.drop (i + 1) := by
    intro y
    rw [List.set_eq_take_append_cons_drop, if_pos hi]
  refine ⟨l.take i, l.drop (i + 1), ?_, hset⟩
  rw [← hset x, ← hx, List.set_getElem_self]

theorem countP_set_add {x : γ} (h : l[i]? = some x) (p : γ → Bool)
    (y : γ) : (l.set i y).countP p + (p x).toNat = l.countP p + (p y).toNat := by
  obtain ⟨a, b, hl, hset⟩ := exists_set_eq h
  rw [hset, hl, List.countP_append, List.countP_append, List.countP_cons, List.countP_cons]
  cases p x <;> cases p y <;> simp <;> omega

theorem sum_map_set_add {x : γ} (h : l[i]? = some x) (g : γ → Nat)
    (y : γ) : ((l.set i y).map g).sum + g x = (l.map g).sum + g y := by
  obtain ⟨a, b, hl, hset⟩ := exists_set_eq h
  rw [hset, hl]
  simp only [List.map_append, List.map_cons, List.sum_append, List.sum_cons]
  omega

/-! ## The invariant -/

/-- The counters count the goroutines, and what has been written is right. -/
structure PoolInv (items : List α) (f : α → β) (p : Pool β) : Prop where
  size : p.tasks.length ≤ items.length
  slots : p.results.length = items.length
  sem : p.sem = p.tasks.countP Phase.holds
  wg : p.wg = p.tasks.countP Phase.pending
  written : ∀ (i : Nat) (phase : Phase) (item : α), p.tasks[i]? = some phase →
    phase.hasWritten = true →
    items[i]? = some item → p.results[i]? = some (f item)
  ended : p.returned = true → p.tasks.length = items.length ∧ p.wg = 0

namespace PoolInv

variable {p p' : Pool β} {e : PoolEvent}

theorem init : PoolInv items f (pool items f zero cap).init := by
  refine ⟨Nat.zero_le _, List.length_replicate, rfl, rfl, ?_, ?_⟩
  · intro i phase item htask
    cases htask
  · intro hret
    cases hret

theorem not_returned (h : PoolInv items f p)
    (htask : p.tasks[i]? = some phase) (hpending : phase.pending = true) : p.returned ≠ true := by
  intro hret
  have hzero := (h.ended hret).2
  rw [h.wg, List.countP_eq_zero] at hzero
  exact hzero phase (List.mem_of_getElem? htask) hpending

theorem advance (h : PoolInv items f p) {phase' : Phase} {sem wg : Nat}
    (htask : p.tasks[i]? = some phase) (hpending : phase.pending = true)
    (hwritten : phase'.hasWritten = phase.hasWritten)
    (hsem : sem + phase.holds.toNat = p.sem + phase'.holds.toNat)
    (hwg : wg + phase.pending.toNat = p.wg + phase'.pending.toNat) :
    PoolInv items f { p with tasks := p.tasks.set i phase', sem := sem, wg := wg } := by
  have hholds := countP_set_add htask Phase.holds phase'
  have hcount := countP_set_add htask Phase.pending phase'
  refine ⟨?_, h.slots, ?_, ?_, ?_, ?_⟩
  · rw [List.length_set]
    exact h.size
  · show sem = (p.tasks.set i phase').countP Phase.holds
    rw [h.sem] at hsem
    omega
  · show wg = (p.tasks.set i phase').countP Phase.pending
    rw [h.wg] at hwg
    omega
  · intro j phase'' item hj hdone hitem
    rw [List.getElem?_set] at hj
    by_cases hij : i = j
    · subst hij
      obtain ⟨hlt, -⟩ := List.getElem?_eq_some_iff.mp htask
      rw [if_pos rfl, if_pos hlt, Option.some.injEq] at hj
      subst hj
      exact h.written i phase item htask (hwritten ▸ hdone) hitem
    · rw [if_neg hij] at hj
      exact h.written j phase'' item hj hdone hitem
  · intro hret
    exact absurd hret (h.not_returned htask hpending)

theorem write (h : PoolInv items f p) {item : α} (htask : p.tasks[i]? = some .running)
    (hitem : items[i]? = some item) :
    PoolInv items f
      { p with tasks := p.tasks.set i .written, results := p.results.set i (f item) } := by
  have hholds := countP_set_add htask Phase.holds .written
  have hcount := countP_set_add htask Phase.pending .written
  obtain ⟨hlt, -⟩ := List.getElem?_eq_some_iff.mp hitem
  refine ⟨?_, ?_, ?_, ?_, ?_, ?_⟩
  · rw [List.length_set]
    exact h.size
  · rw [List.length_set]
    exact h.slots
  · show p.sem = _
    rw [h.sem]
    exact Nat.add_right_cancel hholds.symm
  · show p.wg = _
    rw [h.wg]
    exact Nat.add_right_cancel hcount.symm
  · intro j phase item' hj hdone hitem'
    rw [List.getElem?_set] at hj ⊢
    by_cases hij : i = j
    · subst hij
      rw [hitem, Option.some.injEq] at hitem'
      rw [if_pos rfl, h.slots, if_pos hlt, hitem']
    · rw [if_neg hij] at hj ⊢
      exact h.written j phase item' hj hdone hitem'
  · intro hret
    exact absurd hret (h.not_returned htask rfl)

theorem step (h : PoolInv items f p)
    (hstep : PoolStep items f cap p e p') : PoolInv items f p' := by
  cases hstep with
  | spawn hlt hfree =>
    refine ⟨?_, h.slots, ?_, ?_, ?_, ?_⟩
    · rw [List.length_append]
      exact hlt
    · show p.sem + 1 = _
      rw [List.countP_append, h.sem]
      rfl
    · show p.wg + 1 = _
      rw [List.countP_append, h.wg]
      rfl
    · intro i phase item htask hdone hitem
      rw [List.getElem?_append] at htask
      by_cases hi : i < p.tasks.length
      · rw [if_pos hi] at htask
        exact h.written i phase item htask hdone hitem
      · rw [if_neg hi] at htask
        rw [List.mem_singleton.mp (List.mem_of_getElem? htask)] at hdone
        cases hdone
    · intro hret
      exact absurd (h.ended hret).1 (Nat.ne_of_lt hlt)
  | run htask => exact h.advance htask rfl rfl rfl rfl
  | write htask hitem => exact h.write htask hitem
  | release htask =>
    have hpos : 0 < p.sem := by
      rw [h.sem, List.countP_pos_iff]
      exact ⟨_, List.mem_of_getElem? htask, rfl⟩
    exact h.advance htask rfl rfl (Nat.sub_add_cancel hpos) rfl
  | tell htask =>
    have hpos : 0 < p.wg := by
      rw [h.wg, List.countP_pos_iff]
      exact ⟨_, List.mem_of_getElem? htask, rfl⟩
    exact h.advance htask rfl rfl rfl (Nat.sub_add_cancel hpos)
  | wait hlen hzero _ => exact ⟨h.size, h.slots, h.sem, h.wg, h.written, fun _ => ⟨hlen, hzero⟩⟩

theorem results_eq (h : PoolInv items f p)
    (hret : p.returned = true) : p.results = items.map f := by
  obtain ⟨hlen, hzero⟩ := h.ended hret
  rw [h.wg, List.countP_eq_zero] at hzero
  refine List.ext_getElem? ?_
  intro i
  rw [List.getElem?_map]
  cases hitem : items[i]? with
  | none =>
    rw [List.getElem?_eq_none_iff] at hitem
    rw [Option.map_none, List.getElem?_eq_none_iff, h.slots]
    exact hitem
  | some item =>
    obtain ⟨hlt, -⟩ := List.getElem?_eq_some_iff.mp hitem
    have htask : p.tasks[i]? = some (p.tasks.get ⟨i, hlen ▸ hlt⟩) := by simp
    have hdone : (p.tasks.get ⟨i, hlen ▸ hlt⟩).hasWritten = true := by
      have hnot := hzero _ (List.mem_of_getElem? htask)
      revert hnot
      cases p.tasks.get ⟨i, hlen ▸ hlt⟩ <;> simp [Phase.pending, Phase.hasWritten]
    exact h.written i _ item htask hdone hitem

theorem exists_advance (h : PoolInv items f p) (hmem : phase ∈ p.tasks)
    (hpending : phase.pending = true) :
    ∃ i, ((pool items f zero cap).step p (.advance i)).isSome = true := by
  obtain ⟨i, htask⟩ := List.mem_iff_getElem?.mp hmem
  obtain ⟨hlt, -⟩ := List.getElem?_eq_some_iff.mp htask
  obtain ⟨item, hitem⟩ : ∃ item, items[i]? = some item :=
    ⟨_, List.getElem?_eq_getElem (Nat.lt_of_lt_of_le hlt h.size)⟩
  refine ⟨i, ?_⟩
  show (p.advance items f i).isSome = true
  rw [Pool.advance, htask, hitem]
  cases phase with
  | done => cases hpending
  | _ => rfl

theorem exists_step (h : PoolInv items f p) (hcap : 0 < cap) (hret : p.returned = false) :
    ∃ e, ((pool items f zero cap).step p e).isSome = true := by
  by_cases hzero : p.tasks.countP Phase.pending = 0
  · -- all goroutines are done, so the semaphore is free
    have hdone := List.countP_eq_zero.mp hzero
    have hsem : p.sem = 0 := by
      rw [h.sem, List.countP_eq_zero]
      intro phase hphase hholds
      refine hdone phase hphase ?_
      revert hholds
      cases phase <;> simp [Phase.holds, Phase.pending]
    by_cases hlen : p.tasks.length < items.length
    · refine ⟨.spawn, ?_⟩
      simp [pool, hlen, hsem, hcap]
    · refine ⟨.wait, ?_⟩
      have heq : p.tasks.length = items.length := Nat.le_antisymm h.size (Nat.le_of_not_lt hlen)
      simp [pool, heq, h.wg, hzero, hret]
  · obtain ⟨phase, hmem, hpending⟩ := List.countP_pos_iff.mp (Nat.pos_of_ne_zero hzero)
    obtain ⟨i, hi⟩ := h.exists_advance hmem hpending
    exact ⟨.advance i, hi⟩

end PoolInv

/-! ## Runs -/

def Pool.left (items : List α) (p : Pool β) : Nat :=
  5 * (items.length - p.tasks.length) + (p.tasks.map Phase.left).sum + (!p.returned).toNat

theorem PoolStep.left_succ {e : PoolEvent} (hstep : PoolStep items f cap p e p') :
    p'.left items + 1 = p.left items := by
  unfold Pool.left
  cases hstep with
  | spawn hlt _ =>
    simp only [List.length_append, List.map_append, List.sum_append, List.length_singleton,
      List.map_singleton, List.sum_singleton, Phase.left]
    omega
  | run htask =>
    have hsum := sum_map_set_add htask Phase.left .running
    simp only [List.length_set, Phase.left] at hsum ⊢
    omega
  | write htask _ =>
    have hsum := sum_map_set_add htask Phase.left .written
    simp only [List.length_set, Phase.left] at hsum ⊢
    omega
  | release htask =>
    have hsum := sum_map_set_add htask Phase.left .released
    simp only [List.length_set, Phase.left] at hsum ⊢
    omega
  | tell htask =>
    have hsum := sum_map_set_add htask Phase.left .done
    simp only [List.length_set, Phase.left] at hsum ⊢
    omega
  | wait _ _ hret =>
    rw [hret]
    rfl

theorem PoolInv.exists_return {p : Pool β} (h : PoolInv items f p) (hcap : 0 < cap) :
    ∃ l p', (pool items f zero cap).run p l = some p' ∧ p'.returned = true := by
  induction hn : p.left items using Nat.strong_induction_on generalizing p with
  | _ n ih =>
    cases hret : p.returned with
    | true => exact ⟨[], p, rfl, hret⟩
    | false =>
      obtain ⟨e, he⟩ : ∃ e, ((pool items f zero cap).step p e).isSome = true :=
        h.exists_step hcap hret
      obtain ⟨t, ht⟩ := Option.isSome_iff_exists.mp he
      have hcases := pool_step_cases ht
      have hless : t.left items < n := by
        rw [← hn, ← hcases.left_succ]
        exact Nat.lt_succ_self _
      obtain ⟨l, p', hrun, hdone⟩ := ih _ hless (h.step hcases) rfl
      exact ⟨e :: l, p', by rw [Machine.run_cons _ ht, hrun], hdone⟩

theorem pool_run {l : List PoolEvent} {p : Pool β}
    (hrun : (pool items f zero cap).run (pool items f zero cap).init l = some p) :
    PoolInv items f p ∧ l.length + p.left items = 5 * items.length + 1 := by
  refine Machine.run_rule _ (P := fun l p => PoolInv items f p ∧
    l.length + p.left items = 5 * items.length + 1) ?_ ?_ hrun
  · refine ⟨PoolInv.init, ?_⟩
    simp [pool, Pool.left]
  · intro l t e t' _ ht hstep
    have hcases := pool_step_cases hstep
    refine ⟨ht.1.step hcases, ?_⟩
    have hleft := hcases.left_succ
    have hlen := ht.2
    rw [List.length_append, List.length_singleton]
    omega

end Pool

end Go

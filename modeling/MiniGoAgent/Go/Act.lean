/-
# `Go.Act` — calls that may fail and that work on a state

A failure does not undo what has been done to the state.  `exec_bind_ok` and
`exec_bind_error` run a sequence of two calls; `Reads` is said of calls that leave
the state as it is, and `Logs` of calls that write a log besides, each with rules for
sequences and loops.
-/
import Mathlib.Init

namespace Go

abbrev Act (ε σ : Type) : Type → Type := ExceptT ε (StateM σ)

namespace Act

variable {ε σ α β : Type}

def exec (x : Act ε σ α) (s : σ) : Except ε α × σ := x.run s

def lift (x : Except ε α) : Act ε σ α := ExceptT.mk (pure x)

@[simp] theorem exec_lift (x : Except ε α) (s : σ) : (lift x : Act ε σ α).exec s = (x, s) := rfl

theorem exec_bind (x : Act ε σ α) (f : α → Act ε σ β) (s : σ) :
    (x >>= f).exec s = ExceptT.bindCont f (x.exec s).1 (x.exec s).2 := rfl

variable {x : Act ε σ α}

theorem exec_bind_ok {s s' : σ} {a : α} (h : x.exec s = (.ok a, s'))
    (f : α → Act ε σ β) : (x >>= f).exec s = (f a).exec s' := by
  rw [exec_bind, h]
  rfl

theorem exec_bind_error {s s' : σ} {e : ε} (h : x.exec s = (.error e, s'))
    (f : α → Act ε σ β) : (x >>= f).exec s = (.error e, s') := by
  rw [exec_bind, h]
  rfl

theorem lift_bind (x : Except ε α) (f : α → Except ε β) :
    (lift (x >>= f) : Act ε σ β) = lift x >>= fun a => lift (f a) := by
  cases x with
  | ok a => rfl
  | error e => rfl

def Reads (x : Act ε σ α) : Prop := ∀ s, (x.exec s).2 = s

theorem reads_pure (a : α) : (pure a : Act ε σ α).Reads := fun _ => rfl

theorem reads_throw (e : ε) : (throw e : Act ε σ α).Reads := fun _ => rfl

theorem Reads.bind {f : α → Act ε σ β} (hx : x.Reads) (hf : ∀ a, (f a).Reads) :
    (x >>= f).Reads := by
  intro s
  have hs := hx s
  cases hexec : x.exec s with
  | mk outcome s' =>
    rw [hexec] at hs
    obtain rfl : s' = s := hs
    cases outcome with
    | ok a =>
      rw [exec_bind_ok hexec]
      exact hf a s'
    | error e => rw [exec_bind_error hexec]

theorem reads_foldlM {f : β → α → Act ε σ β} {l : List α} (h : ∀ a ∈ l, ∀ b, (f b a).Reads)
    (b : β) : (l.foldlM f b).Reads := by
  induction l generalizing b with
  | nil => exact reads_pure b
  | cons a l ih =>
    rw [List.foldlM_cons]
    refine (h a List.mem_cons_self b).bind ?_
    exact ih fun a' ha' => h a' (List.mem_cons_of_mem a ha')

/-! ## Calls that write a log -/

section Log

variable {ω : Type} {x : Act ε (σ × List ω) α} {y : Act ε σ α}

/-- The call, with what it adds to a log. -/
def note (entries : List ω) (y : Act ε σ α) : Act ε (σ × List ω) α :=
  ExceptT.mk fun p => ((y.exec p.1).1, (y.exec p.1).2, p.2 ++ entries)

/-- The log apart, the first call does what the second one does. -/
def Logs (x : Act ε (σ × List ω) α) (y : Act ε σ α) : Prop :=
  ∀ s l, ∃ l', x.exec (s, l) = ((y.exec s).1, (y.exec s).2, l ++ l')

theorem logs_note (entries : List ω) (y : Act ε σ α) : (note entries y).Logs y :=
  fun _ _ => ⟨entries, rfl⟩

theorem logs_pure (a : α) : (pure a : Act ε (σ × List ω) α).Logs (pure a) :=
  fun _ l => ⟨[], by rw [List.append_nil]; rfl⟩

theorem Logs.bind {f : α → Act ε (σ × List ω) β} {g : α → Act ε σ β} (h : x.Logs y)
    (hf : ∀ a, (f a).Logs (g a)) : (x >>= f).Logs (y >>= g) := by
  intro s l
  obtain ⟨l', hx⟩ := h s l
  cases hy : y.exec s with
  | mk outcome s' =>
    rw [hy] at hx
    cases outcome with
    | ok a =>
      obtain ⟨l'', hrest⟩ := hf a s' (l ++ l')
      exact ⟨l' ++ l'', by rw [exec_bind_ok hx, exec_bind_ok hy, hrest, List.append_assoc]⟩
    | error e => exact ⟨l', by rw [exec_bind_error hx, exec_bind_error hy]⟩

theorem logs_foldlM {δ : Type} {f : β → δ → Act ε (σ × List ω) β} {g : β → δ → Act ε σ β}
    (h : ∀ b d, (f b d).Logs (g b d)) (l : List δ) (b : β) :
    (l.foldlM f b).Logs (l.foldlM g b) := by
  induction l generalizing b with
  | nil => exact logs_pure b
  | cons d l ih =>
    rw [List.foldlM_cons, List.foldlM_cons]
    exact (h b d).bind ih

theorem log_note_bind {f : α → Act ε (σ × List ω) β} {g : α → Act ε σ β}
    (hf : ∀ a, (f a).Logs (g a)) (entries : List ω) (y : Act ε σ α) (s : σ) (l : List ω) :
    ∃ l', ((note entries y >>= f).exec (s, l)).2.2 = l ++ entries ++ l' := by
  have hnote : (note entries y).exec (s, l) = ((y.exec s).1, (y.exec s).2, l ++ entries) := rfl
  cases hy : (y.exec s).1 with
  | ok a =>
    obtain ⟨l', hrest⟩ := hf a (y.exec s).2 (l ++ entries)
    rw [hy] at hnote
    exact ⟨l', by rw [exec_bind_ok hnote, hrest]⟩
  | error e =>
    rw [hy] at hnote
    exact ⟨[], by rw [exec_bind_error hnote, List.append_nil]⟩

end Log

end Act

end Go

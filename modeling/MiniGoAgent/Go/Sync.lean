/-
# `Go.Sync` — read-write locks and channels

`RWMutex` is a lock that knows who holds it: one writer, or any number of
readers.  Whoever uses it says which parties believe that they hold it, to write
or to read; `Guards` is the agreement of these beliefs with the lock, and there
is one rule for each of the four operations.  From it follow `write_excl` and
`read_excl`: what a writer does no reader and no other writer sees half done.

`Chan` is a buffered channel.  Sending on a closed channel and closing it twice
panic; that is for the user to say.
-/
import Mathlib.Data.List.Basic

namespace Go

/-! ## Locks -/

structure RWMutex (ω : Type) where
  writer : Option ω := none
  readers : List ω := []
  deriving DecidableEq, Repr

namespace RWMutex

variable {ω : Type}

/-- `Lock`, if it can be had now. -/
def lock (m : RWMutex ω) (o : ω) : Option (RWMutex ω) :=
  if m.writer.isNone && m.readers.isEmpty then some { m with writer := some o } else none

def unlock (m : RWMutex ω) : RWMutex ω := { m with writer := none }

/-- `RLock`, if it can be had now. -/
def rlock (m : RWMutex ω) (o : ω) : Option (RWMutex ω) :=
  if m.writer.isNone then some { m with readers := o :: m.readers } else none

def runlock [DecidableEq ω] (m : RWMutex ω) (o : ω) : RWMutex ω :=
  { m with readers := m.readers.erase o }

theorem lock_eq_some {m m' : RWMutex ω} {o : ω} :
    m.lock o = some m' ↔ m.writer = none ∧ m.readers = [] ∧ m' = ⟨some o, []⟩ := by
  cases m with
  | mk writer readers =>
    cases writer with
    | some w => simp [lock]
    | none =>
      cases readers with
      | nil => simp [lock, eq_comm]
      | cons r readers => simp [lock]

theorem rlock_eq_some {m m' : RWMutex ω} {o : ω} :
    m.rlock o = some m' ↔ m.writer = none ∧ m' = ⟨none, o :: m.readers⟩ := by
  cases m with
  | mk writer readers =>
    cases writer with
    | some w => simp [rlock]
    | none => simp [rlock, eq_comm]

/-- Who believes that they hold the lock does hold it. -/
structure Guards (m : RWMutex ω) (writes reads : ω → Prop) : Prop where
  writer : ∀ o, writes o → m.writer = some o
  reader : ∀ o, reads o → o ∈ m.readers
  exclusive : m.writer.isSome = true → m.readers = []

namespace Guards

variable {m m' : RWMutex ω} {writes reads writes' reads' : ω → Prop} {o : ω}

theorem write_excl (h : m.Guards writes reads) {o' : ω} (ho : writes o) (ho' : writes o') :
    o' = o := by
  have hw := h.writer o ho
  rw [h.writer o' ho', Option.some.injEq] at hw
  exact hw

theorem read_excl (h : m.Guards writes reads) {o' : ω} (ho : writes o) : ¬ reads o' := by
  intro hread
  have hmem := h.reader o' hread
  rw [h.exclusive (by rw [h.writer o ho]; rfl)] at hmem
  cases hmem

theorem mono (h : m.Guards writes reads) (hw : ∀ x, writes' x → writes x)
    (hr : ∀ x, reads' x → reads x) : m.Guards writes' reads' :=
  ⟨fun x hx => h.writer x (hw x hx), fun x hx => h.reader x (hr x hx), h.exclusive⟩

theorem lock (h : m.Guards writes reads) (hlock : m.lock o = some m')
    (hw : ∀ x, writes' x → writes x ∨ x = o) (hr : ∀ x, reads' x → reads x) :
    m'.Guards writes' reads' := by
  obtain ⟨hfree, hreaders, rfl⟩ := lock_eq_some.mp hlock
  refine ⟨?_, ?_, fun _ => rfl⟩
  · intro x hx
    rcases hw x hx with hold | rfl
    · have := h.writer x hold
      rw [hfree] at this
      cases this
    · rfl
  · intro x hx
    have := h.reader x (hr x hx)
    rwa [hreaders] at this

theorem unlock (h : m.Guards writes reads) (ho : writes o) (hw : ∀ x, writes' x → writes x ∧ x ≠ o)
    (hr : ∀ x, reads' x → reads x) : m.unlock.Guards writes' reads' := by
  refine ⟨?_, fun x hx => h.reader x (hr x hx), ?_⟩
  · intro x hx
    obtain ⟨hold, hne⟩ := hw x hx
    exact absurd (h.write_excl ho hold) hne
  · intro hsome
    cases hsome

theorem rlock (h : m.Guards writes reads) (hlock : m.rlock o = some m')
    (hw : ∀ x, writes' x → writes x) (hr : ∀ x, reads' x → reads x ∨ x = o) :
    m'.Guards writes' reads' := by
  obtain ⟨hfree, rfl⟩ := rlock_eq_some.mp hlock
  refine ⟨?_, ?_, fun hsome => nomatch hsome⟩
  · intro x hx
    have := h.writer x (hw x hx)
    rw [hfree] at this
    cases this
  · intro x hx
    rcases hr x hx with hold | rfl
    · exact List.mem_cons_of_mem _ (h.reader x hold)
    · exact List.mem_cons_self

theorem runlock [DecidableEq ω] (h : m.Guards writes reads) (hw : ∀ x, writes' x → writes x)
    (hr : ∀ x, reads' x → reads x ∧ x ≠ o) : (m.runlock o).Guards writes' reads' := by
  refine ⟨fun x hx => h.writer x (hw x hx), ?_, ?_⟩
  · intro x hx
    obtain ⟨hold, hne⟩ := hr x hx
    exact (List.mem_erase_of_ne hne).mpr (h.reader x hold)
  · intro hsome
    change m.readers.erase o = []
    rw [h.exclusive hsome]
    rfl

end Guards

end RWMutex

/-! ## Channels -/

structure Chan (α : Type) where
  buf : List α := []
  closed : Bool := false
  deriving DecidableEq, Repr

namespace Chan

variable {α : Type}

def push (c : Chan α) (x : α) : Chan α := { c with buf := c.buf ++ [x] }

def pop (c : Chan α) : Chan α := { c with buf := c.buf.tail }

def close (c : Chan α) : Chan α := { c with closed := true }

end Chan

end Go

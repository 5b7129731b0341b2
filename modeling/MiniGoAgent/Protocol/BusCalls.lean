/-
# `Protocol.BusCalls` — what the calls on the bus can rely on

The bus is protected by its lock, `stopOnce`, `stopped` and `runDone`, each for a
part of the time.  Three things are kept by every step:

* `LockOk` — the lock is held by whoever acts as if it were;
* `CallsOk` — a call at the `select` has seen `stopped` unset, under a read lock
  that keeps it so; only the call inside `stopOnce` closes `publisher`, and it
  has set `stopped` by then; a call gets to the subscribers only behind `runDone`;
* `FlagsOk` — a closed `publisher` is a stopped bus, and `runDone` is set by `run`
  on its way out.
-/
import MiniGoAgent.Protocol.EventBus

open Go

namespace MiniGoAgent

/-! ## Who holds the lock -/

inductive Hold where
  | nothing
  | reading
  | writing
  deriving DecidableEq, Repr

def BusPc.hold : BusPc → Hold
  | .checking _ _ | .sending _ _ | .leaving => .reading
  | .subscribing _ | .subscribed | .onceStore | .onceClose | .onceUnlock | .closing => .writing
  | _ => .nothing

def holdOf : Option BusPc → Hold
  | none => .nothing
  | some pc => pc.hold

def RunPc.hold : RunPc → Hold
  | .broadcasting _ _ => .reading
  | _ => .nothing

/-- The party acts as if it held the lock in this way. -/
def Holds (pcs : Nat → Option BusPc) (run : RunPc) (kind : Hold) : Party → Prop
  | .call t => holdOf (pcs t) = kind
  | .run => run.hold = kind

/-- They all do. -/
def LockOk (mu : RWMutex Party) (pcs : Nat → Option BusPc) (run : RunPc) : Prop :=
  mu.Guards (Holds pcs run .writing) (Holds pcs run .reading)

section LockOk

variable {mu mu' : RWMutex Party} {pcs : Nat → Option BusPc} {run run' : RunPc} {t : Nat}
  {pc : Option BusPc} {kind : Hold}

theorem run_hold_ne_writing (run : RunPc) : run.hold ≠ .writing := by
  cases run <;> simp [RunPc.hold]

variable {x : Party}

theorem holds_update (h : Holds (Function.update pcs t pc) run kind x) :
    (x = .call t ∧ holdOf pc = kind) ∨ (x ≠ .call t ∧ Holds pcs run kind x) := by
  cases x with
  | run => exact Or.inr ⟨by simp, h⟩
  | call u =>
    change holdOf (Function.update pcs t pc u) = kind at h
    by_cases hu : u = t
    · subst hu
      rw [Function.update_self] at h
      exact Or.inl ⟨rfl, h⟩
    · rw [Function.update_of_ne hu] at h
      refine Or.inr ⟨?_, h⟩
      intro heq
      exact hu (Party.call.inj heq)

theorem holds_update_of_ne (hne : holdOf pc ≠ kind)
    (h : Holds (Function.update pcs t pc) run kind x) : Holds pcs run kind x ∧ x ≠ .call t := by
  rcases holds_update h with ⟨_, hpc⟩ | ⟨hx, hold⟩
  · exact absurd hpc hne
  · exact ⟨hold, hx⟩

theorem LockOk.keep (h : LockOk mu pcs run) (hold : holdOf pc = holdOf (pcs t)) :
    LockOk mu (Function.update pcs t pc) run := by
  have hsame : ∀ kind x, Holds (Function.update pcs t pc) run kind x → Holds pcs run kind x := by
    intro kind x hx
    rcases holds_update hx with ⟨rfl, hpc⟩ | ⟨_, hx⟩
    · exact hold.symm.trans hpc
    · exact hx
  exact h.mono (hsame .writing) (hsame .reading)

theorem LockOk.lock (h : LockOk mu pcs run) (hlock : mu.lock (.call t) = some mu')
    (hold : holdOf pc = .writing) : LockOk mu' (Function.update pcs t pc) run := by
  refine RWMutex.Guards.lock h hlock ?_ ?_
  · intro x hx
    rcases holds_update hx with ⟨rfl, _⟩ | ⟨_, hw⟩
    · exact Or.inr rfl
    · exact Or.inl hw
  · intro x hx
    exact (holds_update_of_ne (by rw [hold]; simp) hx).1

theorem LockOk.unlock (h : LockOk mu pcs run) (hheld : holdOf (pcs t) = .writing)
    (hold : holdOf pc = .nothing) : LockOk mu.unlock (Function.update pcs t pc) run := by
  refine RWMutex.Guards.unlock (o := Party.call t) h hheld ?_ ?_
  · intro x hx
    exact holds_update_of_ne (by rw [hold]; simp) hx
  · intro x hx
    exact (holds_update_of_ne (by rw [hold]; simp) hx).1

theorem LockOk.rlock (h : LockOk mu pcs run) (hlock : mu.rlock (.call t) = some mu')
    (hold : holdOf pc = .reading) : LockOk mu' (Function.update pcs t pc) run := by
  refine RWMutex.Guards.rlock h hlock ?_ ?_
  · intro x hx
    exact (holds_update_of_ne (by rw [hold]; simp) hx).1
  · intro x hx
    rcases holds_update hx with ⟨rfl, _⟩ | ⟨_, hr⟩
    · exact Or.inr rfl
    · exact Or.inl hr

theorem LockOk.runlock (h : LockOk mu pcs run) (hold : holdOf pc = .nothing) :
    LockOk (mu.runlock (.call t)) (Function.update pcs t pc) run := by
  refine RWMutex.Guards.runlock h ?_ ?_
  · intro x hx
    exact (holds_update_of_ne (by rw [hold]; simp) hx).1
  · intro x hx
    exact holds_update_of_ne (by rw [hold]; simp) hx

theorem holds_writing_run (h : Holds pcs run' .writing x) : Holds pcs run .writing x := by
  cases x with
  | run => exact absurd h (run_hold_ne_writing run')
  | call u => exact h

theorem LockOk.run_keep (h : LockOk mu pcs run) (hold : run'.hold = run.hold) :
    LockOk mu pcs run' := by
  refine h.mono (fun x hx => holds_writing_run hx) ?_
  intro x hx
  cases x with
  | run => exact hold.symm.trans hx
  | call u => exact hx

theorem LockOk.run_rlock (h : LockOk mu pcs run) (hlock : mu.rlock .run = some mu') :
    LockOk mu' pcs run' := by
  refine RWMutex.Guards.rlock h hlock (fun x hx => holds_writing_run hx) ?_
  intro x hx
  cases x with
  | run => exact Or.inr rfl
  | call u => exact Or.inl hx

theorem LockOk.run_runlock (h : LockOk mu pcs run) (hold : run'.hold = .nothing) :
    LockOk (mu.runlock .run) pcs run' := by
  refine RWMutex.Guards.runlock h (fun x hx => holds_writing_run hx) ?_
  intro x hx
  cases x with
  | run =>
    change run'.hold = .reading at hx
    rw [hold] at hx
    cases hx
  | call u => exact ⟨hx, by simp⟩

end LockOk

theorem hold_locked {pc pc' : BusPc} (h : BusState.locked pc = some pc') : pc'.hold = .writing := by
  cases pc with
  | subscribe | onceLock | closeLock => cases h; rfl
  | _ => cases h

theorem hold_unlocked {subs : List (Str × Nat)} {pc : BusPc} {pc' : Option BusPc}
    (h : BusState.unlocked subs pc = some pc') : pc.hold = .writing ∧ holdOf pc' = .nothing := by
  cases pc with
  | subscribed | onceUnlock => cases h; exact ⟨rfl, rfl⟩
  | closing =>
    simp only [BusState.unlocked, Option.ite_none_right_eq_some, Option.some.injEq] at h
    obtain ⟨_, rfl⟩ := h
    exact ⟨rfl, rfl⟩
  | _ => cases h

theorem subscribe_flags (s : BusState) (name : Str) :
    (s.subscribe name).pcs = s.pcs ∧ (s.subscribe name).stopOnce = s.stopOnce ∧
      (s.subscribe name).publisher = s.publisher ∧ (s.subscribe name).stopped = s.stopped ∧
      (s.subscribe name).runDone = s.runDone ∧ (s.subscribe name).run = s.run ∧
      (s.subscribe name).mu = s.mu ∧ (s.subscribe name).panicked = s.panicked := by
  simp only [BusState.subscribe]
  split <;> exact ⟨rfl, rfl, rfl, rfl, rfl, rfl, rfl, rfl⟩

theorem lockOk_step {s s' : BusState} {e : BusEvent} (h : LockOk s.mu s.pcs s.run)
    (hstep : BusStep s e s') : LockOk s'.mu s'.pcs s'.run := by
  cases hstep with
  | call hpc =>
    rename_i t c
    refine h.keep ?_
    rw [hpc]
    cases c <;> rfl
  | rlock hpc hmu => exact h.rlock hmu rfl
  | check hpc =>
    refine h.keep ?_
    rw [hpc]
    cases s.stopped <;> rfl
  | sendPanic | closePublisherPanic | closeSubPanic | runSendPanic | runClosePanic => exact h
  | send hpc _ => exact h.keep (by rw [hpc]; rfl)
  | drop hpc => exact h.keep (by rw [hpc]; rfl)
  | runlock hpc => exact h.runlock rfl
  | lock hpc hnext hmu => exact h.lock hmu (hold_locked hnext)
  | insert hpc =>
    rename_i t name
    obtain ⟨hpcs, -, -, -, -, hrun, hmu, -⟩ := subscribe_flags s name
    simp only [BusState.goto, hmu, hpcs, hrun]
    exact h.keep (by rw [hpc]; rfl)
  | unlock hpc hnext =>
    obtain ⟨hheld, hold⟩ := hold_unlocked hnext
    exact h.unlock (by rw [hpc]; exact hheld) hold
  | enterFirst hpc _ => exact h.keep (by rw [hpc]; rfl)
  | enterDone hpc _ => exact h.keep (by rw [hpc]; rfl)
  | store hpc => exact h.keep (by rw [hpc]; rfl)
  | closePublisher hpc _ => exact h.keep (by rw [hpc]; rfl)
  | exitOnce hpc => exact h.keep (by rw [hpc]; rfl)
  | passRun hpc _ => exact h.keep (by rw [hpc]; rfl)
  | closeSub => exact h
  | passWait hpc _ => exact h.keep (by rw [hpc]; rfl)
  | receive hrun _ => exact h.run_keep (by rw [hrun]; rfl)
  | receiveClosed hrun _ _ => exact h.run_keep (by rw [hrun]; rfl)
  | runRLock hrun hmu => exact h.run_rlock hmu
  | runSend hrun _ _ _ => exact h.run_keep (by rw [hrun]; rfl)
  | runRUnlock hrun => exact h.run_runlock rfl
  | runClose hrun _ => exact h.run_keep (by rw [hrun]; rfl)
  | runExit hrun => exact h.run_keep (by rw [hrun]; rfl)
  | handle => exact h
  | exitLoop => exact h

/-! ## What a call knows -/

namespace BusPc

/-- In the function of `stopOnce`. -/
def inOnce : BusPc → Bool
  | .onceLock | .onceStore | .onceClose | .onceUnlock | .onceExit => true
  | _ => false

def beforeClose : BusPc → Bool
  | .onceLock | .onceStore | .onceClose => true
  | _ => false

/-- `<-runDone` has returned. -/
def afterRun : BusPc → Bool
  | .closeLock | .closing | .waiting => true
  | _ => false

/-- In none of the places about which `CallOk` says something. -/
def plain : BusPc → Bool
  | .sending _ _ => false
  | pc => !pc.inOnce && !pc.afterRun

end BusPc

/-- What `stopOnce`, `publisher.closed`, `stopped` and `runDone` are for a call `t`
at `pc`. -/
structure CallOk (once : Once) (closed stopped runDone : Bool) (t : Nat) (pc : BusPc) : Prop where
  inOnce : pc.inOnce = true → once = .running t
  unclosed : pc.beforeClose = true → closed = false
  stored : pc = .onceClose → stopped = true
  unstopped : ∀ chunk ctxDone, pc = .sending chunk ctxDone → stopped = false
  ended : pc.afterRun = true → runDone = true

def CallsOk (s : BusState) : Prop :=
  ∀ t pc, s.pcs t = some pc → CallOk s.stopOnce s.publisher.closed s.stopped s.runDone t pc

section Calls

variable {once once' : Once} {closed closed' stopped stopped' runDone runDone' : Bool} {t : Nat}
  {pcs : Nat → Option BusPc} {pc : BusPc} {next : Option BusPc}

theorem callOk_of_plain (h : pc.plain = true) : CallOk once closed stopped runDone t pc := by
  cases pc <;> simp [BusPc.plain, BusPc.inOnce, BusPc.afterRun] at h <;>
    constructor <;> simp [BusPc.inOnce, BusPc.afterRun, BusPc.beforeClose]

theorem callOk_of_afterRun (h : pc.afterRun = true) : CallOk once closed stopped true t pc := by
  cases pc <;> simp [BusPc.afterRun] at h <;>
    constructor <;> simp [BusPc.inOnce, BusPc.beforeClose]

theorem callsOk_update (h : ∀ u pc, pcs u = some pc → CallOk once closed stopped runDone u pc)
    (hself : ∀ pc, next = some pc → CallOk once' closed' stopped' runDone' t pc)
    (hothers : ∀ u pc, u ≠ t → pcs u = some pc → CallOk once closed stopped runDone u pc →
      CallOk once' closed' stopped' runDone' u pc) :
    ∀ u pc, Function.update pcs t next u = some pc →
      CallOk once' closed' stopped' runDone' u pc := by
  intro u pc hu
  rcases update_eq_some hu with ⟨rfl, hpc⟩ | ⟨hne, hpc⟩
  · exact hself pc hpc
  · exact hothers u pc hne hpc (h u pc hpc)

theorem callsOk_goto (h : ∀ u pc, pcs u = some pc → CallOk once closed stopped runDone u pc)
    (hself : ∀ pc, next = some pc → CallOk once closed stopped runDone t pc) :
    ∀ u pc, Function.update pcs t next u = some pc → CallOk once closed stopped runDone u pc :=
  callsOk_update h hself (fun _ _ _ _ hok => hok)

theorem callsOk_plain (h : ∀ u pc, pcs u = some pc → CallOk once closed stopped runDone u pc)
    (hplain : ∀ pc, next = some pc → pc.plain = true) :
    ∀ u pc, Function.update pcs t next u = some pc → CallOk once closed stopped runDone u pc :=
  callsOk_goto h (fun pc hpc => callOk_of_plain (hplain pc hpc))

end Calls

theorem plain_start (c : BusCall) : c.start.plain = true := by
  cases c <;> rfl

section Steps

variable {s s' : BusState} {e : BusEvent} {t : Nat}

theorem once_excl (h : CallsOk s) {u : Nat} {pc pc' : BusPc} (hpc : s.pcs t = some pc)
    (hin : pc.inOnce = true) (hpc' : s.pcs u = some pc') (hin' : pc'.inOnce = true) : u = t := by
  have ht := (h t pc hpc).inOnce hin
  rw [(h u pc' hpc').inOnce hin'] at ht
  exact Once.running.inj ht

theorem callsOk_lock (h : CallsOk s) {pc pc' : BusPc} (hpc : s.pcs t = some pc)
    (hnext : BusState.locked pc = some pc') :
    CallOk s.stopOnce s.publisher.closed s.stopped s.runDone t pc' := by
  have hok := h t pc hpc
  cases pc with
  | subscribe name => cases hnext; exact callOk_of_plain rfl
  | onceLock =>
    cases hnext
    exact ⟨fun _ => hok.inOnce rfl, fun _ => hok.unclosed rfl, by simp, by simp,
      by simp [BusPc.afterRun]⟩
  | closeLock =>
    cases hnext
    rw [hok.ended rfl]
    exact callOk_of_afterRun rfl
  | _ => cases hnext

theorem callsOk_unlock (h : CallsOk s) {pc pc'' : BusPc} {pc' : Option BusPc}
    (hpc : s.pcs t = some pc) (hnext : BusState.unlocked s.subs pc = some pc')
    (hpc' : pc' = some pc'') :
    CallOk s.stopOnce s.publisher.closed s.stopped s.runDone t pc'' := by
  have hok := h t pc hpc
  subst hpc'
  cases pc with
  | subscribed => cases hnext
  | onceUnlock =>
    cases hnext
    exact ⟨fun _ => hok.inOnce rfl, by simp [BusPc.beforeClose], by simp, by simp,
      by simp [BusPc.afterRun]⟩
  | closing =>
    simp only [BusState.unlocked, Option.ite_none_right_eq_some, Option.some.injEq] at hnext
    obtain ⟨_, rfl⟩ := hnext
    rw [hok.ended rfl]
    exact callOk_of_afterRun rfl
  | _ => cases hnext

theorem callsOk_enter (h : CallsOk s) (honce : s.stopOnce = .idle)
    (hidle : s.publisher.closed = false) :
    CallsOk ({ s with stopOnce := .running t }.goto t (some .onceLock)) := by
  refine callsOk_update h ?_ ?_
  · intro pc hnext
    cases hnext
    exact ⟨fun _ => rfl, fun _ => hidle, by simp, by simp, by simp [BusPc.afterRun]⟩
  · intro u pc _ _ hok
    refine ⟨?_, hok.unclosed, hok.stored, hok.unstopped, hok.ended⟩
    intro hin
    have := hok.inOnce hin
    rw [honce] at this
    cases this

theorem callsOk_store (hlockOk : LockOk s.mu s.pcs s.run) (h : CallsOk s)
    (hpc : s.pcs t = some .onceStore) :
    CallsOk ({ s with stopped := true }.goto t (some .onceClose)) := by
  have hok := h t _ hpc
  refine callsOk_update h ?_ ?_
  · intro pc hnext
    cases hnext
    exact ⟨fun _ => hok.inOnce rfl, fun _ => hok.unclosed rfl, fun _ => rfl, by simp,
      by simp [BusPc.afterRun]⟩
  · intro u pc _ hu hok
    refine ⟨hok.inOnce, hok.unclosed, fun _ => rfl, ?_, hok.ended⟩
    intro chunk ctxDone hsending
    have hwrites : Holds s.pcs s.run .writing (.call t) := by
      change holdOf (s.pcs t) = _
      rw [hpc]
      rfl
    have hreads : Holds s.pcs s.run .reading (.call u) := by
      change holdOf (s.pcs u) = _
      rw [hu, hsending]
      rfl
    exact absurd hreads (RWMutex.Guards.read_excl hlockOk hwrites)

theorem callsOk_close (h : CallsOk s) (hpc : s.pcs t = some .onceClose) :
    CallsOk ({ s with publisher := s.publisher.close }.goto t (some .onceUnlock)) := by
  have hok := h t _ hpc
  refine callsOk_update h ?_ ?_
  · intro pc hnext
    cases hnext
    exact ⟨fun _ => hok.inOnce rfl, by simp [BusPc.beforeClose], by simp, by simp,
      by simp [BusPc.afterRun]⟩
  · intro u pc hne hu hok
    refine ⟨hok.inOnce, ?_, hok.stored, hok.unstopped, hok.ended⟩
    intro hbefore
    have hin : pc.inOnce = true := by
      cases pc <;> first | rfl | simp [BusPc.beforeClose] at hbefore
    exact absurd (once_excl h hpc rfl hu hin) hne

theorem callsOk_exit (h : CallsOk s) (hpc : s.pcs t = some .onceExit) :
    CallsOk ({ s with stopOnce := .done }.goto t (some .waitRun)) := by
  refine callsOk_update h ?_ ?_
  · intro pc hnext
    cases hnext
    exact callOk_of_plain rfl
  · intro u pc hne hu hok
    refine ⟨?_, hok.unclosed, hok.stored, hok.unstopped, hok.ended⟩
    intro hin
    exact absurd (once_excl h hpc rfl hu hin) hne

theorem callsOk_step (hlockOk : LockOk s.mu s.pcs s.run) (h : CallsOk s)
    (hidle : s.stopOnce = .idle → s.publisher.closed = false) (hstep : BusStep s e s') :
    CallsOk s' := by
  cases hstep with
  | call hpc =>
    refine callsOk_plain h ?_
    rintro pc ⟨⟩
    exact plain_start _
  | rlock hpc hmu => exact callsOk_plain h (by rintro pc ⟨⟩; rfl)
  | check hpc =>
    refine callsOk_goto h ?_
    rintro pc ⟨⟩
    cases hstopped : s.stopped with
    | true => exact callOk_of_plain rfl
    | false =>
      exact ⟨by simp [BusPc.inOnce], by simp [BusPc.beforeClose], by simp, fun _ _ _ => hstopped,
        by simp [BusPc.afterRun]⟩
  | sendPanic | closePublisherPanic | closeSubPanic | runSendPanic | runClosePanic => exact h
  | send hpc _ => exact callsOk_plain h (by rintro pc ⟨⟩; rfl)
  | drop hpc => exact callsOk_plain h (by rintro pc ⟨⟩; rfl)
  | runlock hpc => exact callsOk_plain h (by rintro pc ⟨⟩)
  | lock hpc hnext hmu =>
    refine callsOk_goto h ?_
    rintro pc ⟨⟩
    exact callsOk_lock h hpc hnext
  | insert hpc =>
    rename_i t name
    obtain ⟨hpcs, honce, hpublisher, hstopped, hdone, -⟩ := subscribe_flags s name
    simp only [CallsOk, BusState.goto, hpcs, honce, hpublisher, hstopped, hdone]
    exact callsOk_plain h (by rintro pc ⟨⟩; rfl)
  | unlock hpc hnext => exact callsOk_goto h (fun pc hpc' => callsOk_unlock h hpc hnext hpc')
  | enterFirst hpc honce => exact callsOk_enter h honce (hidle honce)
  | enterDone hpc _ => exact callsOk_plain h (by rintro pc ⟨⟩; rfl)
  | store hpc => exact callsOk_store hlockOk h hpc
  | closePublisher hpc _ => exact callsOk_close h hpc
  | exitOnce hpc => exact callsOk_exit h hpc
  | passRun hpc hdone =>
    refine callsOk_goto h ?_
    rintro pc ⟨⟩
    change CallOk _ _ _ s.runDone _ _
    rw [hdone]
    exact callOk_of_afterRun rfl
  | closeSub => exact h
  | passWait hpc _ => exact callsOk_plain h (by rintro pc ⟨⟩)
  | receive => exact h
  | receiveClosed => exact h
  | runRLock => exact h
  | runSend => exact h
  | runRUnlock => exact h
  | runClose =>
    intro u pc hu
    have hok := h u pc hu
    exact ⟨hok.inOnce, hok.unclosed, hok.stored, hok.unstopped, fun _ => rfl⟩
  | runExit => exact h
  | handle => exact h
  | exitLoop => exact h

/-! ## The flags -/

/-- `run` is on its way out. -/
def RunPc.ended : RunPc → Bool
  | .finishing | .exited => true
  | _ => false

structure FlagsOk (s : BusState) : Prop where
  stopped : s.publisher.closed = true → s.stopped = true
  idle : s.stopOnce = .idle → s.publisher.closed = false
  ended : s.runDone = true → s.run.ended = true

theorem flagsOk_step (hcalls : CallsOk s) (h : FlagsOk s) (hstep : BusStep s e s') :
    FlagsOk s' := by
  have hrun : ∀ run' : RunPc, s.run.ended = false → s.runDone = true → run'.ended = true := by
    intro run' hnot hdone
    rw [h.ended hdone] at hnot
    cases hnot
  cases hstep with
  | insert hpc =>
    rename_i t name
    obtain ⟨-, honce, hpublisher, hstopped, hdone, hrun, -⟩ := subscribe_flags s name
    refine ⟨?_, ?_, ?_⟩ <;> simp only [BusState.goto, honce, hpublisher, hstopped, hdone, hrun]
    · exact h.stopped
    · exact h.idle
    · exact h.ended
  | enterFirst | exitOnce => exact ⟨h.stopped, by simp [BusState.goto], h.ended⟩
  | store => exact ⟨fun _ => rfl, h.idle, h.ended⟩
  | closePublisher hpc _ =>
    have hok := hcalls _ _ hpc
    refine ⟨fun _ => hok.stored rfl, ?_, h.ended⟩
    intro hidle
    change s.stopOnce = .idle at hidle
    rw [hok.inOnce rfl] at hidle
    cases hidle
  | receive hr | receiveClosed hr | runRLock hr | runSend hr | runRUnlock hr =>
    exact ⟨h.stopped, h.idle, hrun _ (by rw [hr]; rfl)⟩
  | runClose | runExit => exact ⟨h.stopped, h.idle, fun _ => rfl⟩
  | _ => exact ⟨h.stopped, h.idle, h.ended⟩

end Steps

end MiniGoAgent

/-
# `Protocol.BusStop` — what `Stop` waits for

`Stop` closes the channels on the map and then waits for all loops of the bus.
`Subscribe` does not look at `stopped`: once a `Stop` has let go of the lock for
the second time, a new subscriber's loop joins those it waits for, and its channel
is closed by nobody but a later `Stop`.

`stop_waits_cleanly_iff`: in the runs in which no such subscriber comes, and only
in these, every loop that a waiting `Stop` waits for has a closed channel.  One that
returns has lost nothing (`stop_returns_drained`).
-/
import MiniGoAgent.Protocol.BusSafety

open Go

namespace MiniGoAgent

/-- The loops that a call at `wg.Wait()` waits for end by themselves. -/
def StopsCleanly (s : BusState) : Prop :=
  ∀ t, s.pcs t = some .waiting → ∀ id sub, s.channels id = some sub → sub.exited = false →
    sub.ch.closed = true

/-- No new subscriber while a call is at `wg.Wait()`. -/
def SubscribesInTime (s : BusState) (e : BusEvent) : Prop :=
  ∀ t name, e = .insert t → s.pcs t = some (.subscribing name) → s.subs.lookup name = none →
    ∀ u, s.pcs u ≠ some .waiting

section Steps

variable {s s' : BusState} {e : BusEvent}

theorem StopsCleanly.of (h : StopsCleanly s)
    (hpcs : ∀ t, s'.pcs t = some .waiting → s.pcs t = some .waiting)
    (hchannels : ∀ id sub', s'.channels id = some sub' → sub'.exited = false →
      ∃ sub, s.channels id = some sub ∧ sub.exited = false ∧
        (sub.ch.closed = true → sub'.ch.closed = true)) : StopsCleanly s' := by
  intro t ht id sub' hsub' hlive
  obtain ⟨sub, hsub, hlive', hclosed⟩ := hchannels id sub' hsub' hlive
  exact hclosed (h t (hpcs t ht) id sub hsub hlive')

variable {t : Nat}

theorem StopsCleanly.goto (h : StopsCleanly s) (hchannels : s'.channels = s.channels)
    {pc : Option BusPc} (hpcs : s'.pcs = Function.update s.pcs t pc) (hpc : pc ≠ some .waiting) :
    StopsCleanly s' := by
  refine h.of ?_ ?_
  · intro u hu
    rw [hpcs] at hu
    rcases update_eq_some hu with ⟨_, hnew⟩ | ⟨_, hold⟩
    · exact absurd hnew hpc
    · exact hold
  · intro id sub hsub hlive
    rw [hchannels] at hsub
    exact ⟨sub, hsub, hlive, fun hclosed => hclosed⟩

theorem StopsCleanly.update (h : StopsCleanly s) (hpcs : s'.pcs = s.pcs) {id : Nat}
    {sub sub' : Subscription} (hsub : s.channels id = some sub)
    (hchannels : s'.channels = Function.update s.channels id (some sub'))
    (hlive : sub'.exited = false → sub.exited = false)
    (hclosed : sub.ch.closed = true → sub'.ch.closed = true) : StopsCleanly s' := by
  refine h.of ?_ ?_
  · intro t ht
    rwa [hpcs] at ht
  · intro id' sub₀ hsub₀ hlive₀
    rw [hchannels] at hsub₀
    rcases update_eq_some hsub₀ with ⟨rfl, hnew⟩ | ⟨_, hold⟩
    · rw [Option.some.injEq] at hnew
      subst hnew
      exact ⟨sub, hsub, hlive hlive₀, hclosed⟩
    · exact ⟨sub₀, hold, hlive₀, fun hc => hc⟩

theorem stopsCleanly_of_empty (hwired : Wired s.subs s.channels s.fresh s.run)
    (hempty : s.subs = [])
    {pc : Option BusPc} :
    StopsCleanly ({ s with mu := s.mu.unlock }.goto t pc) := by
  intro u _ id sub hsub _
  cases hclosed : sub.ch.closed with
  | true => rfl
  | false =>
    have hin := hwired.listed id sub hsub hclosed
    rw [hempty] at hin
    cases hin

theorem stopsCleanly_unlock (hwired : Wired s.subs s.channels s.fresh s.run) (h : StopsCleanly s)
    {pc : BusPc} {pc' : Option BusPc} (hnext : BusState.unlocked s.subs pc = some pc') :
    StopsCleanly ({ s with mu := s.mu.unlock }.goto t pc') := by
  cases pc with
  | subscribed | onceUnlock => cases hnext; exact h.goto rfl rfl (by simp)
  | closing =>
    simp only [BusState.unlocked, Option.ite_none_right_eq_some, List.isEmpty_iff] at hnext
    exact stopsCleanly_of_empty hwired hnext.1
  | _ => cases hnext

theorem subscribesInTime_insert (h : StopsCleanly s) {name : Str}
    (hpc : s.pcs t = some (.subscribing name)) :
    SubscribesInTime s (.insert t) ↔
      StopsCleanly ((s.subscribe name).goto t (some .subscribed)) := by
  cases hlookup : s.subs.lookup name with
  | some id =>
    have hsame : s.subscribe name = s := by simp [BusState.subscribe, hlookup]
    rw [hsame]
    refine iff_of_true ?_ (h.goto rfl rfl (by simp))
    intro t' name' ht hpc' hnone
    cases ht
    rw [hpc, Option.some.injEq, BusPc.subscribing.injEq] at hpc'
    rw [← hpc', hlookup] at hnone
    cases hnone
  | none =>
    have hnew : s.subscribe name = { s with
        subs := s.subs ++ [(name, s.fresh)]
        wg := s.wg + 1
        channels := Function.update s.channels s.fresh (some {})
        fresh := s.fresh + 1 } := by simp [BusState.subscribe, hlookup]
    rw [hnew]
    constructor
    · intro hintime u hu
      rcases update_eq_some hu with ⟨_, hself⟩ | ⟨_, hother⟩
      · cases hself
      · exact absurd hother (hintime t name rfl hpc hlookup u)
    · intro hclean t' name' ht _ _ u hu
      cases ht
      have hne : u ≠ t := by
        intro heq
        rw [heq, hpc] at hu
        cases hu
      have hwaits : Function.update s.pcs t (some .subscribed) u = some .waiting := by
        rw [Function.update_of_ne hne, hu]
      have hclosed := hclean u hwaits s.fresh {} (Function.update_self _ _ _) rfl
      cases hclosed

theorem subscribesInTime_iff (hwired : Wired s.subs s.channels s.fresh s.run) (h : StopsCleanly s)
    (hstep : BusStep s e s') : SubscribesInTime s e ↔ StopsCleanly s' := by
  have hother : (∀ t, e ≠ .insert t) → SubscribesInTime s e := by
    intro hne t name heq
    exact absurd heq (hne t)
  cases hstep with
  | insert hpc => exact subscribesInTime_insert h hpc
  | unlock hpc hnext => exact iff_of_true (hother (by simp)) (stopsCleanly_unlock hwired h hnext)
  | call hpc =>
    rename_i t c
    exact iff_of_true (hother (by simp)) (h.goto rfl rfl (by cases c <;> simp [BusCall.start]))
  | check =>
    refine iff_of_true (hother (by simp)) (h.goto rfl rfl ?_)
    split <;> simp
  | lock hpc hnext hmu =>
    refine iff_of_true (hother (by simp)) (h.goto rfl rfl ?_)
    intro heq
    rw [Option.some.injEq] at heq
    have := hold_locked hnext
    rw [heq] at this
    cases this
  | rlock | send | drop | runlock | enterFirst | enterDone | store | closePublisher | exitOnce
  | passRun | passWait => exact iff_of_true (hother (by simp)) (h.goto rfl rfl (by simp))
  | closeSub _ _ hsub _ =>
    exact iff_of_true (hother (by simp)) (h.update rfl hsub rfl (fun hl => hl) (fun _ => rfl))
  | runSend _ _ hsub _ =>
    refine iff_of_true (hother (by simp)) (h.update rfl hsub rfl ?_ ?_) <;>
      · simp only [BusState.offer]
        split <;> exact fun hx => hx
  | handle hsub _ =>
    exact iff_of_true (hother (by simp)) (h.update rfl hsub rfl (fun hl => hl) (fun hc => hc))
  | exitLoop hsub hclosed =>
    exact iff_of_true (hother (by simp)) (h.update rfl hsub rfl (by simp) (fun hc => hc))
  | _ => exact iff_of_true (hother (by simp)) h

end Steps

/-- A waiting `Stop` always waits for loops with closed channels exactly if no
subscriber is added while one waits. -/
theorem stop_waits_cleanly_iff {bufferSize : Nat} {events : List BusEvent}
    (hrun : ((busMachine bufferSize).run (busMachine bufferSize).init events).isSome = true) :
    (busMachine bufferSize).Along SubscribesInTime (busMachine bufferSize).init events ↔
      ∀ front s, front <+: events →
        (busMachine bufferSize).run (busMachine bufferSize).init front = some s →
          StopsCleanly s := by
  refine Machine.along_iff _ (J := BusSound) ?_ ?_ (busSound_init bufferSize) ?_ hrun
  · intro s e s' hsound hstep
    exact hsound.step (busStep_of_step hstep)
  · intro s e s' hsound hclean hstep
    exact subscribesInTime_iff hsound.wired hclean (busStep_of_step hstep)
  · intro t ht
    cases ht

/-- A `Stop` on a bus with no subscriber, up to `wg.Wait()`. -/
def stopToWait (t : Nat) : List BusEvent :=
  [.call t .stop, .enterOnce t, .lock t, .store t, .closePublisher t, .unlock t, .exitOnce t,
    .runReceive, .runClose, .runExit, .passRun t, .lock t, .unlock t]

/-- A `Stop` behind a chunk for one subscriber, up to its return. -/
def chunkThenStop : List BusEvent :=
  oneChunk ++ (stopToWait 2).dropLast ++ [.closeSub 2 (lit "log", 0), .unlock 2, .exitLoop 0]

theorem stop_waits_cleanly_iff_one_chunk :
    (busMachine 16).Along SubscribesInTime (busMachine 16).init chunkThenStop ↔
      ∀ front s, front <+: chunkThenStop →
        (busMachine 16).run (busMachine 16).init front = some s → StopsCleanly s :=
  stop_waits_cleanly_iff rfl

/-- A subscriber comes when `Stop` has just let go of the lock. -/
theorem late_subscriber_never_closed :
    ∃ s, (busMachine 16).run (busMachine 16).init
        (stopToWait 0 ++ [.call 1 (.subscribe (lit "log")), .lock 1, .insert 1, .unlock 1]) =
          some s ∧
      s.pcs 0 = some .waiting ∧ s.wg = 1 ∧ s.channels 0 = some {} ∧ ¬ StopsCleanly s :=
  ⟨_, rfl, rfl, rfl, rfl, fun h => absurd (h 0 rfl 0 {} rfl rfl) (by simp)⟩

/-! ## What a `Stop` leaves behind -/

/-- The loop has ended, and has left nothing in its channel. -/
def Subscription.Over (sub : Subscription) : Prop :=
  sub.exited = true ∧ sub.ch.buf = [] ∧ sub.ch.closed = true

/-- `wg` covers the loops that are not over, and `left` more. -/
def Covered (wg left : Nat) (channels : Nat → Option Subscription) : Prop :=
  ∃ live : List Nat, live.length + left ≤ wg ∧
    ∀ id sub, channels id = some sub → sub.Over ∨ id ∈ live

section Covered

variable {wg left id : Nat} {channels : Nat → Option Subscription} {sub : Subscription}

theorem Covered.update (h : Covered wg left channels) (hsub : channels id = some sub)
    (hnot : ¬ sub.Over) (sub' : Subscription) :
    Covered wg left (Function.update channels id (some sub')) := by
  obtain ⟨live, hlive, hmem⟩ := h
  refine ⟨live, hlive, ?_⟩
  intro id' sub₀ hsub₀
  rcases update_eq_some hsub₀ with ⟨rfl, _⟩ | ⟨_, hold⟩
  · exact Or.inr ((hmem id' sub hsub).resolve_left hnot)
  · exact hmem id' sub₀ hold

theorem Covered.insert (h : Covered wg left channels) (id : Nat) :
    Covered (wg + 1) left (Function.update channels id (some {})) := by
  obtain ⟨live, hlive, hmem⟩ := h
  refine ⟨id :: live, by rw [List.length_cons]; omega, ?_⟩
  intro id' sub₀ hsub₀
  rcases update_eq_some hsub₀ with ⟨rfl, _⟩ | ⟨_, hold⟩
  · exact Or.inr List.mem_cons_self
  · exact (hmem id' sub₀ hold).imp_right (List.mem_cons_of_mem _)

theorem Covered.exit (h : Covered wg left channels) (hsub : channels id = some sub)
    (hnot : ¬ sub.Over) {sub' : Subscription} (hover : sub'.Over) :
    Covered (wg - 1) left (Function.update channels id (some sub')) := by
  obtain ⟨live, hlive, hmem⟩ := h
  have hid : id ∈ live := (hmem id sub hsub).resolve_left hnot
  have hpos := List.length_pos_of_mem hid
  refine ⟨live.erase id, by rw [List.length_erase_of_mem hid]; omega, ?_⟩
  intro id' sub₀ hsub₀
  rcases update_eq_some hsub₀ with ⟨rfl, hnew⟩ | ⟨hne, hold⟩
  · exact Or.inl (Option.some.inj hnew ▸ hover)
  · exact (hmem id' sub₀ hold).imp_right (List.mem_erase_of_ne hne).mpr

end Covered

/-- What `run` adds to `wg`. -/
def RunPc.left : RunPc → Nat
  | .exited => 0
  | _ => 1

/-- The loops are counted, and `run` leaves its own behind the last chunk. -/
structure Joined (s : BusState) : Prop where
  loops : Covered s.wg s.run.left s.channels
  last : s.run = .closeDone ∨ s.run.ended = true →
    s.publisher.buf = [] ∧ s.publisher.closed = true

theorem Joined.step {s s' : BusState} {e : BusEvent} (h : Joined s) (hstep : s.step e = some s') :
    Joined s' := by
  obtain ⟨hloops, hlast⟩ := h
  cases busStep_of_step hstep with
  | send _ hclosed =>
    refine ⟨hloops, fun hrun => ?_⟩
    rw [(hlast hrun).2] at hclosed
    cases hclosed
  | insert hpc =>
    rename_i t name
    rcases subscribe_eq s name with heq | heq
    · rw [heq]
      exact ⟨hloops, hlast⟩
    · rw [heq]
      exact ⟨hloops.insert s.fresh, hlast⟩
  | closePublisher => exact ⟨hloops, fun hrun => ⟨(hlast hrun).1, rfl⟩⟩
  | closeSub _ _ hsub hclosed =>
    exact ⟨hloops.update hsub (fun hover => by simp [hover.2.2] at hclosed) _, hlast⟩
  | receive hrun | runRLock hrun | runRUnlock hrun =>
    rw [hrun] at hloops
    exact ⟨hloops, fun h => by simp [RunPc.ended] at h⟩
  | receiveClosed hrun hbuf hclosed =>
    rw [hrun] at hloops
    exact ⟨hloops, fun _ => ⟨hbuf, hclosed⟩⟩
  | runSend hrun _ hsub hclosed =>
    rw [hrun] at hloops
    exact ⟨hloops.update hsub (fun hover => by simp [hover.2.2] at hclosed) _,
      fun h => by simp [RunPc.ended] at h⟩
  | runClose hrun =>
    rw [hrun] at hloops
    exact ⟨hloops, fun _ => hlast (Or.inl hrun)⟩
  | runExit hrun =>
    obtain ⟨live, hlive, hmem⟩ := hloops
    rw [hrun] at hlive
    exact ⟨⟨live, Nat.le_sub_one_of_lt hlive, hmem⟩, fun _ => hlast (by simp [hrun, RunPc.ended])⟩
  | handle hsub hbuf =>
    exact ⟨hloops.update hsub (fun hover => by simp [hover.2.1] at hbuf) _, hlast⟩
  | exitLoop hsub hclosed =>
    rename_i sub
    simp only [BusState.step, hsub] at hstep
    have hready : (sub.ch.buf.isEmpty && sub.ch.closed && !sub.exited) = true := by
      by_contra hnot
      simp [hnot] at hstep
    simp only [Bool.and_eq_true, List.isEmpty_iff, Bool.not_eq_true'] at hready
    exact ⟨hloops.exit hsub (fun hover => by simp [hover.1] at hready)
      ⟨rfl, hready.1.1, hclosed⟩, hlast⟩
  | _ => exact ⟨hloops, hlast⟩

/-- **A `Stop` that returns leaves nothing behind.**  When the wait of a `Stop` is over,
`run` has sent every accepted chunk to the subscribers, and every subscriber's loop has
ended and has handled all that came to its channel. -/
theorem stop_returns_drained {bufferSize t : Nat} {events : List BusEvent} {s s' : BusState}
    (hrun : (busMachine bufferSize).run (busMachine bufferSize).init events = some s)
    (hreturn : (busMachine bufferSize).step s (.passWait t) = some s') :
    s.settled = s.accepted ∧ s.run = .exited ∧
      ∀ id sub, s.channels id = some sub → sub.exited = true ∧ sub.handled = sub.seen := by
  have hjoined : Joined s := by
    refine Machine.run_rule _ (P := fun _ => Joined) ?_ (fun _ _ _ _ _ h => h.step) hrun
    refine ⟨⟨[], Nat.le_refl 1, fun _ _ h => by cases h⟩, ?_⟩
    rintro (h | h) <;> cases h
  have hwg : s.wg = 0 := by
    have hmove : BusStep s (.passWait t) s' := busStep_of_step hreturn
    cases hmove with
    | passWait _ hwg => exact hwg
  obtain ⟨⟨live, hlive, hmem⟩, hlast⟩ := hjoined
  have hexited : s.run = .exited := by
    cases hpc : s.run <;> simp [hwg, hpc, RunPc.left] at hlive ⊢
  have hnone : live = [] := List.length_eq_zero_iff.mp (by omega)
  refine ⟨?_, hexited, ?_⟩
  · rw [(busSound_run hrun).1.flow.whole, hexited, (hlast (by simp [hexited, RunPc.ended])).1]
    simp [RunPc.current]
  · intro id sub hsub
    obtain ⟨hover, hbuf, _⟩ := (hmem id sub hsub).resolve_right (by simp [hnone])
    exact ⟨hover, by rw [Subscription.seen, hbuf, List.append_nil]⟩

theorem stop_returns_drained_one_chunk :
    ∃ s s', (busMachine 16).run (busMachine 16).init chunkThenStop = some s ∧
      (busMachine 16).step s (.passWait 2) = some s' ∧ s.accepted = [{ type := .done }] ∧
      s.settled = s.accepted := by
  refine ⟨_, _, rfl, rfl, rfl, ?_⟩
  exact (@stop_returns_drained 16 2 chunkThenStop _ _ rfl rfl).1

end MiniGoAgent

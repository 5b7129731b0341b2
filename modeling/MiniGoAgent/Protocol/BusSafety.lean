/-
# `Protocol.BusSafety` — no panic, and no chunk twice or out of order

On top of what the calls rely on (`Protocol.BusCalls`):

* `Wired` — the map lists exactly the open channels, and `run` sends to nothing
  else;
* `Flow` — what a processor has been given and what is still in its channel, in
  that order, is a part of what `run` has broadcast, which is the first part of
  what `publisher` has accepted.

Every step keeps them together (`BusSound.step`); no step that starts so panics.
`bus_safe` is the result for all runs.
-/
import Mathlib.Data.List.Nodup
import MiniGoAgent.Protocol.BusCalls

open Go
open scoped List

namespace MiniGoAgent

variable {chunk : Chunk} {id : Nat} {sub sub' : Subscription}

/-! ## The map of subscribers -/

/-- The map lists the open channels, and `run` goes over what it lists. -/
structure Wired (subs : List (Str × Nat)) (channels : Nat → Option Subscription) (fresh : Nat)
    (run : RunPc) : Prop where
  entries : ∀ entry ∈ subs, ∃ sub, channels entry.2 = some sub ∧ sub.ch.closed = false
  listed : ∀ id sub, channels id = some sub → sub.ch.closed = false → id ∈ subs.map Prod.snd
  nodup : (subs.map Prod.snd).Nodup
  below : ∀ id sub, channels id = some sub → id < fresh
  pending : ∀ chunk ids, run = .broadcasting chunk ids → ids.Nodup ∧ ids ⊆ subs.map Prod.snd

namespace Wired

variable {subs : List (Str × Nat)} {channels : Nat → Option Subscription} {fresh : Nat}
  {run run' : RunPc}

theorem goto (h : Wired subs channels fresh run)
    (hpending : ∀ chunk ids, run' = .broadcasting chunk ids →
      ids.Nodup ∧ ids ⊆ subs.map Prod.snd) : Wired subs channels fresh run' :=
  ⟨h.entries, h.listed, h.nodup, h.below, hpending⟩

theorem update (h : Wired subs channels fresh run)
    (hsub : channels id = some sub) (hclosed : sub'.ch.closed = sub.ch.closed) :
    Wired subs (Function.update channels id (some sub')) fresh run where
  entries := by
    intro entry hentry
    obtain ⟨sub₀, hsub₀, hopen⟩ := h.entries entry hentry
    by_cases hid : entry.2 = id
    · rw [hid, hsub, Option.some.injEq] at hsub₀
      subst hsub₀
      exact ⟨sub', by rw [hid, Function.update_self], by rw [hclosed, hopen]⟩
    · exact ⟨sub₀, by rw [Function.update_of_ne hid, hsub₀], hopen⟩
  listed := by
    intro id' sub₀ hsub₀ hopen
    rcases update_eq_some hsub₀ with ⟨rfl, hnew⟩ | ⟨_, hold⟩
    · rw [Option.some.injEq] at hnew
      subst hnew
      exact h.listed id' sub hsub (by rw [← hclosed, hopen])
    · exact h.listed id' sub₀ hold hopen
  nodup := h.nodup
  below := by
    intro id' sub₀ hsub₀
    rcases update_eq_some hsub₀ with ⟨rfl, _⟩ | ⟨_, hold⟩
    · exact h.below id' sub hsub
    · exact h.below id' sub₀ hold
  pending := h.pending

theorem insert (h : Wired subs channels fresh run) (name : Str) :
    Wired (subs ++ [(name, fresh)]) (Function.update channels fresh (some {})) (fresh + 1) run where
  entries := by
    intro entry hentry
    rcases List.mem_append.mp hentry with hold | hnew
    · obtain ⟨sub, hsub, hopen⟩ := h.entries entry hold
      have hne : entry.2 ≠ fresh := Nat.ne_of_lt (h.below _ _ hsub)
      exact ⟨sub, by rw [Function.update_of_ne hne, hsub], hopen⟩
    · rw [List.mem_singleton] at hnew
      subst hnew
      exact ⟨{}, Function.update_self _ _ _, rfl⟩
  listed := by
    intro id sub hsub hopen
    rw [List.map_append, List.mem_append]
    rcases update_eq_some hsub with ⟨rfl, _⟩ | ⟨_, hold⟩
    · exact Or.inr List.mem_cons_self
    · exact Or.inl (h.listed id sub hold hopen)
  nodup := by
    rw [List.map_append]
    refine List.nodup_append.mpr ⟨h.nodup, List.nodup_singleton _, ?_⟩
    intro id hid id' hid'
    obtain ⟨entry, hentry, rfl⟩ := List.mem_map.mp hid
    obtain ⟨sub, hsub, _⟩ := h.entries entry hentry
    have hlt := h.below _ _ hsub
    rw [List.map_singleton, List.mem_singleton] at hid'
    subst hid'
    exact Nat.ne_of_lt hlt
  below := by
    intro id sub hsub
    rcases update_eq_some hsub with ⟨rfl, _⟩ | ⟨_, hold⟩
    · exact Nat.lt_succ_self _
    · exact Nat.lt_succ_of_lt (h.below id sub hold)
  pending := by
    intro chunk ids hrun
    obtain ⟨hnodup, hsubset⟩ := h.pending chunk ids hrun
    rw [List.map_append]
    exact ⟨hnodup, fun id hid => List.mem_append_left _ (hsubset hid)⟩

theorem close (h : Wired subs channels fresh run) {entry : Str × Nat} (hentry : entry ∈ subs)
    (hsub : channels entry.2 = some sub) (hclosed : sub'.ch.closed = true)
    (hrun : ∀ chunk ids, run ≠ .broadcasting chunk ids) :
    Wired (subs.erase entry) (Function.update channels entry.2 (some sub')) fresh run where
  entries := by
    intro other hother
    have hin := List.mem_of_mem_erase hother
    obtain ⟨sub₀, hsub₀, hopen⟩ := h.entries other hin
    have hne : other.2 ≠ entry.2 := by
      intro heq
      have hsame := List.inj_on_of_nodup_map h.nodup hin hentry heq
      subst hsame
      have hnodup : subs.Nodup := h.nodup.of_map
      exact absurd hother (List.Nodup.not_mem_erase hnodup)
    exact ⟨sub₀, by rw [Function.update_of_ne hne, hsub₀], hopen⟩
  listed := by
    intro id sub₀ hsub₀ hopen
    rcases update_eq_some hsub₀ with ⟨rfl, hnew⟩ | ⟨hne, hold⟩
    · rw [Option.some.injEq] at hnew
      subst hnew
      rw [hclosed] at hopen
      cases hopen
    · obtain ⟨other, hother, rfl⟩ := List.mem_map.mp (h.listed id sub₀ hold hopen)
      refine List.mem_map.mpr ⟨other, ?_, rfl⟩
      refine (List.mem_erase_of_ne ?_).mpr hother
      intro heq
      exact hne (by rw [heq])
  nodup := h.nodup.sublist (List.Sublist.map _ List.erase_sublist)
  below := by
    intro id sub₀ hsub₀
    rcases update_eq_some hsub₀ with ⟨rfl, _⟩ | ⟨_, hold⟩
    · exact h.below _ sub hsub
    · exact h.below id sub₀ hold
  pending := by
    intro chunk ids heq
    exact absurd heq (hrun chunk ids)

end Wired

/-! ## The way of a chunk -/

namespace RunPc

def current : RunPc → List Chunk
  | .holding chunk => [chunk]
  | .broadcasting chunk _ => [chunk]
  | _ => []

/-- The channel is still to be sent the chunk in hand. -/
def awaits (id : Nat) : RunPc → Bool
  | .holding _ => true
  | .broadcasting _ ids => ids.contains id
  | _ => false

end RunPc

/-- What has come to a subscriber, in order. -/
def Subscription.seen (sub : Subscription) : List Chunk := sub.handled ++ sub.ch.buf

structure Flow (accepted settled : List Chunk) (run : RunPc) (buf : List Chunk)
    (channels : Nat → Option Subscription) : Prop where
  whole : accepted = settled ++ run.current ++ buf
  seen : ∀ id sub, channels id = some sub → sub.seen <+ settled ++ run.current
  due : ∀ id sub, channels id = some sub → run.awaits id = true → sub.seen <+ settled

namespace Flow

variable {accepted settled buf : List Chunk} {run : RunPc} {channels : Nat → Option Subscription}

theorem update (h : Flow accepted settled run buf channels)
    (hsub : channels id = some sub) (hseen : sub'.seen = sub.seen) :
    Flow accepted settled run buf (Function.update channels id (some sub')) := by
  have hold : ∀ id' sub₀, Function.update channels id (some sub') id' = some sub₀ →
      ∃ sub₁, channels id' = some sub₁ ∧ sub₀.seen = sub₁.seen := by
    intro id' sub₀ hsub₀
    rcases update_eq_some hsub₀ with ⟨rfl, hnew⟩ | ⟨_, hold⟩
    · rw [Option.some.injEq] at hnew
      subst hnew
      exact ⟨sub, hsub, hseen⟩
    · exact ⟨sub₀, hold, rfl⟩
  refine ⟨h.whole, ?_, ?_⟩
  · intro id' sub₀ hsub₀
    obtain ⟨sub₁, hsub₁, heq⟩ := hold id' sub₀ hsub₀
    rw [heq]
    exact h.seen id' sub₁ hsub₁
  · intro id' sub₀ hsub₀ hawaits
    obtain ⟨sub₁, hsub₁, heq⟩ := hold id' sub₀ hsub₀
    rw [heq]
    exact h.due id' sub₁ hsub₁ hawaits

theorem insert (h : Flow accepted settled run buf channels) (id : Nat) :
    Flow accepted settled run buf (Function.update channels id (some {})) := by
  refine ⟨h.whole, ?_, ?_⟩
  · intro id' sub hsub
    rcases update_eq_some hsub with ⟨rfl, hnew⟩ | ⟨_, hold⟩
    · cases hnew
      exact List.nil_sublist _
    · exact h.seen id' sub hold
  · intro id' sub hsub hawaits
    rcases update_eq_some hsub with ⟨rfl, hnew⟩ | ⟨_, hold⟩
    · cases hnew
      exact List.nil_sublist _
    · exact h.due id' sub hold hawaits

theorem accept (h : Flow accepted settled run buf channels) (chunk : Chunk) :
    Flow (accepted ++ [chunk]) settled run (buf ++ [chunk]) channels :=
  ⟨by rw [h.whole, List.append_assoc _ buf], h.seen, h.due⟩

theorem receive {rest : List Chunk} (h : Flow accepted settled .receive (chunk :: rest) channels) :
    Flow accepted settled (.holding chunk) rest channels := by
  have hseen : ∀ id sub, channels id = some sub → sub.seen <+ settled := by
    intro id sub hsub
    have hseen : sub.seen <+ settled ++ [] := h.seen id sub hsub
    rwa [List.append_nil] at hseen
  refine ⟨?_, ?_, fun id sub hsub _ => hseen id sub hsub⟩
  · rw [h.whole]
    simp [RunPc.current]
  · intro id sub hsub
    exact (hseen id sub hsub).trans (List.sublist_append_left _ _)

theorem send {ids : List Nat} (h : Flow accepted settled (.broadcasting chunk ids) buf channels)
    (hnodup : ids.Nodup) (hid : id ∈ ids) (hsub : channels id = some sub) :
    Flow accepted settled (.broadcasting chunk (ids.erase id)) buf
      (Function.update channels id (some (BusState.offer sub chunk))) := by
  have hdue := h.due id sub hsub (by simpa [RunPc.awaits] using hid)
  refine ⟨h.whole, ?_, ?_⟩
  · intro id' sub' hsub'
    rcases update_eq_some hsub' with ⟨rfl, hnew⟩ | ⟨_, hold⟩
    · rw [Option.some.injEq] at hnew
      subst hnew
      change (BusState.offer sub chunk).seen <+ settled ++ [chunk]
      simp only [BusState.offer]
      split
      · simp only [Subscription.seen, Chan.push, ← List.append_assoc]
        exact hdue.append (List.Sublist.refl [chunk])
      · exact hdue.trans (List.sublist_append_left _ _)
    · exact h.seen id' sub' hold
  · intro id' sub' hsub' hawaits
    have hin : id' ∈ ids.erase id := by simpa [RunPc.awaits] using hawaits
    rcases update_eq_some hsub' with ⟨rfl, _⟩ | ⟨_, hold⟩
    · exact absurd hin (List.Nodup.not_mem_erase hnodup)
    · exact h.due id' sub' hold (by simpa [RunPc.awaits] using List.mem_of_mem_erase hin)

theorem settle (h : Flow accepted settled (.broadcasting chunk []) buf channels) :
    Flow accepted (settled ++ [chunk]) .receive buf channels := by
  refine ⟨?_, ?_, ?_⟩
  · rw [h.whole]
    simp [RunPc.current]
  · intro id sub hsub
    change sub.seen <+ settled ++ [chunk] ++ []
    rw [List.append_nil]
    exact h.seen id sub hsub
  · intro id sub _ hawaits
    cases hawaits

end Flow

/-! ## Every step -/

structure BusSound (s : BusState) : Prop where
  lock : LockOk s.mu s.pcs s.run
  calls : CallsOk s
  flags : FlagsOk s
  wired : Wired s.subs s.channels s.fresh s.run
  flow : Flow s.accepted s.settled s.run s.publisher.buf s.channels

section Steps

variable {s s' : BusState} {e : BusEvent}

theorem BusSound.not_broadcasting (h : BusSound s) {t : Nat} (hpc : s.pcs t = some .closing)
    (chunk : Chunk) (ids : List Nat) : s.run ≠ .broadcasting chunk ids := by
  intro hrun
  have hended := h.flags.ended ((h.calls t _ hpc).ended rfl)
  rw [hrun] at hended
  cases hended

theorem subscribe_eq (s : BusState) (name : Str) :
    s.subscribe name = s ∨
      s.subscribe name = { s with
        subs := s.subs ++ [(name, s.fresh)]
        wg := s.wg + 1
        channels := Function.update s.channels s.fresh (some {})
        fresh := s.fresh + 1 } := by
  simp only [BusState.subscribe]
  split
  · exact Or.inl rfl
  · exact Or.inr rfl

theorem BusSound.wired_step (h : BusSound s) (hstep : BusStep s e s') :
    Wired s'.subs s'.channels s'.fresh s'.run := by
  have hw := h.wired
  cases hstep with
  | insert hpc =>
    rename_i t name
    rcases subscribe_eq s name with heq | heq
    · rw [heq]
      exact hw
    · rw [heq]
      exact hw.insert name
  | closeSub hpc hentry hsub _ => exact hw.close hentry hsub rfl (h.not_broadcasting hpc)
  | receive | receiveClosed | runRUnlock | runClose | runExit => exact hw.goto (by simp)
  | runRLock =>
    refine hw.goto ?_
    rintro chunk ids ⟨⟩
    exact ⟨hw.nodup, List.Subset.refl _⟩
  | runSend hrun hid hsub _ =>
    obtain ⟨hnodup, hsubset⟩ := hw.pending _ _ hrun
    refine Wired.update (hw.goto ?_) hsub ?_
    · rintro chunk ids ⟨⟩
      exact ⟨hnodup.erase _, fun id hid => hsubset (List.mem_of_mem_erase hid)⟩
    · simp only [BusState.offer]
      split <;> rfl
  | handle hsub | exitLoop hsub => exact hw.update hsub rfl
  | _ => exact hw

theorem BusSound.flow_step (h : BusSound s) (hstep : BusStep s e s') :
    Flow s'.accepted s'.settled s'.run s'.publisher.buf s'.channels := by
  have hf := h.flow
  cases hstep with
  | send => exact hf.accept _
  | insert hpc =>
    rename_i t name
    rcases subscribe_eq s name with heq | heq
    · rw [heq]
      exact hf
    · rw [heq]
      exact hf.insert s.fresh
  | closeSub _ _ hsub | exitLoop hsub => exact hf.update hsub rfl
  | receive hrun hbuf =>
    rw [hrun, hbuf] at hf
    simp only [Chan.pop, hbuf, List.tail_cons]
    exact hf.receive
  | receiveClosed hrun | runClose hrun | runExit hrun =>
    rw [hrun] at hf
    exact ⟨hf.whole, hf.seen, fun id sub hsub hawaits => absurd hawaits (by simp [RunPc.awaits])⟩
  | runRLock hrun _ =>
    rw [hrun] at hf
    exact ⟨hf.whole, hf.seen, fun id sub hsub _ => hf.due id sub hsub rfl⟩
  | runSend hrun hid hsub _ =>
    have hnodup := (h.wired.pending _ _ hrun).1
    rw [hrun] at hf
    exact hf.send hnodup hid hsub
  | runRUnlock hrun =>
    rw [hrun] at hf
    exact hf.settle
  | handle hsub hbuf =>
    refine hf.update hsub ?_
    simp [Subscription.seen, Chan.pop, hbuf]
  | _ => exact hf

theorem BusSound.step (h : BusSound s) (hstep : BusStep s e s') : BusSound s' where
  lock := lockOk_step h.lock hstep
  calls := callsOk_step h.lock h.calls h.flags.idle hstep
  flags := flagsOk_step h.calls h.flags hstep
  wired := h.wired_step hstep
  flow := h.flow_step hstep

theorem BusSound.no_panic (h : BusSound s) (hstep : BusStep s e s') : s'.panicked = s.panicked := by
  cases hstep with
  | sendPanic hpc hclosed =>
    have hunset := (h.calls _ _ hpc).unstopped _ _ rfl
    rw [h.flags.stopped hclosed] at hunset
    cases hunset
  | closePublisherPanic hpc hclosed =>
    rw [(h.calls _ _ hpc).unclosed rfl] at hclosed
    cases hclosed
  | closeSubPanic hpc hentry hsub hclosed =>
    obtain ⟨sub, hsub', hopen⟩ := h.wired.entries _ hentry
    rw [hsub, Option.some.injEq] at hsub'
    rw [← hsub', hclosed] at hopen
    cases hopen
  | runSendPanic hrun hid hsub hclosed =>
    obtain ⟨entry, hentry, rfl⟩ := List.mem_map.mp ((h.wired.pending _ _ hrun).2 hid)
    obtain ⟨sub, hsub', hopen⟩ := h.wired.entries _ hentry
    rw [hsub, Option.some.injEq] at hsub'
    rw [← hsub', hclosed] at hopen
    cases hopen
  | runClosePanic hrun hdone =>
    have hended := h.flags.ended hdone
    rw [hrun] at hended
    cases hended
  | insert hpc => exact (subscribe_flags s _).2.2.2.2.2.2.2
  | _ => rfl

end Steps

theorem not_holds_init (bufferSize : Nat) {kind : Hold} (hkind : kind ≠ .nothing) (o : Party) :
    ¬ Holds (busMachine bufferSize).init.pcs (busMachine bufferSize).init.run kind o := by
  intro h
  cases o with
  | call | run => exact hkind h.symm

theorem busSound_init (bufferSize : Nat) : BusSound (busMachine bufferSize).init where
  lock := by
    refine ⟨?_, ?_, fun _ => rfl⟩
    · intro o h
      exact absurd h (not_holds_init bufferSize (by simp) o)
    · intro o h
      exact absurd h (not_holds_init bufferSize (by simp) o)
  calls := by
    intro t pc h
    cases h
  flags := by
    refine ⟨?_, fun _ => rfl, ?_⟩
    · intro h
      cases h
    · intro h
      cases h
  wired := by
    refine ⟨?_, ?_, List.nodup_nil, ?_, ?_⟩
    · intro entry h
      cases h
    · intro id sub h
      cases h
    · intro id sub h
      cases h
    · intro chunk ids h
      cases h
  flow := by
    refine ⟨rfl, ?_, ?_⟩
    · intro id sub h
      cases h
    · intro id sub h
      cases h

theorem busSound_run {bufferSize : Nat} {events : List BusEvent} {s : BusState}
    (hrun : (busMachine bufferSize).run (busMachine bufferSize).init events = some s) :
    BusSound s ∧ s.panicked = false := by
  refine Machine.run_rule (busMachine bufferSize) (P := fun _ t => BusSound t ∧ t.panicked = false)
    ⟨busSound_init bufferSize, rfl⟩ ?_ hrun
  rintro _ t e t' _ ⟨hsound, hp⟩ hstep
  have hmove := busStep_of_step hstep
  exact ⟨hsound.step hmove, by rw [hsound.no_panic hmove, hp]⟩

/-- In every run, nothing is sent on a closed channel and nothing is closed twice, and
what a processor has handled is a subsequence of what the bus has accepted. -/
theorem bus_safe {bufferSize : Nat} {events : List BusEvent} {s : BusState}
    (hrun : (busMachine bufferSize).run (busMachine bufferSize).init events = some s) :
    s.panicked = false ∧
      ∀ id sub, s.channels id = some sub → sub.handled <+ s.accepted := by
  obtain ⟨hsound, hp⟩ := busSound_run hrun
  refine ⟨hp, ?_⟩
  intro id sub hsub
  calc sub.handled
      <+ sub.seen := List.sublist_append_left _ _
    _ <+ s.settled ++ s.run.current := hsound.flow.seen id sub hsub
    _ <+ s.settled ++ s.run.current ++ s.publisher.buf := List.sublist_append_left _ _
    _ = s.accepted := hsound.flow.whole.symm

def oneChunk : List BusEvent :=
  [.call 0 (.subscribe (lit "log")), .lock 0, .insert 0, .unlock 0,
    .call 1 (.tryPublish { type := .done }), .rlock 1, .check 1, .send 1, .runlock 1,
    .runReceive, .runRLock, .runSend 0, .runRUnlock, .handle 0]

theorem bus_safe_one_chunk :
    ∃ s, (busMachine 16).run (busMachine 16).init oneChunk = some s ∧
      (s.channels 0).map (·.handled) = some [{ type := .done }] ∧ s.panicked = false ∧
      ∀ id sub, s.channels id = some sub → sub.handled <+ s.accepted :=
  ⟨_, rfl, rfl, @bus_safe 16 oneChunk _ rfl⟩

end MiniGoAgent

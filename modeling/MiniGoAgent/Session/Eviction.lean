/-
# `Session.Eviction` — what `Cleanup` removes

`Cleanup` goes by the map `lastAccess`, and removes and counts what it finds there.
`SnapshotWith` enters a session there that may have no history, and `Load` brings
in histories without entering them.

`trackMachine` runs the operations on a new manager in the order of the clock and
keeps, beside the manager, when each session was last accessed — by `Load` too —
and which of the sessions were brought in by `Load`, and when.  `Fair` is what a
`Cleanup` is to do in terms of the former; `fair_iff` says when every `Cleanup` of
a run does it.
-/
import MiniGoAgent.Go.Machine
import MiniGoAgent.Go.Map
import MiniGoAgent.Session.Manager

open Go

namespace MiniGoAgent

/-! ## The machine -/

inductive SessionOp where
  | snapshotWith (now : Int) (sid : Str) (extra : History)
  | append (now : Int) (sid : Str) (msgs : History)
  | load (now : Int) (file : HistoryFile)
  | cleanup (now maxAge : Int)

def SessionOp.now : SessionOp → Int
  | .snapshotWith now _ _ | .append now _ _ | .load now _ | .cleanup now _ => now

structure Tracked where
  manager : Manager
  /-- the last access to a session, by whatever operation -/
  accessed : Str → Option Int := fun _ => none
  /-- the last `Load` of a session that is there -/
  loaded : Str → Option Int := fun _ => none
  now : Option Int := none

def HistoryFile.sids (file : HistoryFile) : List Str := file.map Prod.fst

def Tracked.apply (s : Tracked) : SessionOp → Tracked
  | .snapshotWith now sid extra =>
    { s with
      manager := (s.manager.snapshotWith now sid extra).1
      accessed := Function.update s.accessed sid (some now)
      now := some now }
  | .append now sid msgs =>
    { s with
      manager := s.manager.append now sid msgs
      accessed := Function.update s.accessed sid (some now)
      now := some now }
  | .load now file =>
    { manager := (s.manager.load file).1
      accessed := fun sid => if sid ∈ file.sids then some now else s.accessed sid
      loaded := fun sid => if sid ∈ file.sids then some now else s.loaded sid
      now := some now }
  | .cleanup now maxAge =>
    { s with
      manager := (s.manager.cleanup now maxAge).1
      loaded := fun sid =>
        if sid ∈ s.manager.expired now maxAge then none else s.loaded sid
      now := some now }

def trackMachine (defaultSession : Str) : Machine Tracked SessionOp where
  init := { manager := newManager defaultSession }
  step s op := if ∀ t ∈ s.now, t ≤ op.now then some (s.apply op) else none

/-! ## What a `Cleanup` is to do -/

/-- Behind a `Cleanup` every session that is left was accessed within `maxAge`,
every session accessed within `maxAge` is as it was, and the number returned is
the number of sessions that are gone. -/
structure Fair (s : Tracked) (now maxAge : Int) : Prop where
  fresh : ∀ sid, ((s.manager.cleanup now maxAge).1.sessions.lookup sid).isSome = true →
    ∃ t ∈ s.accessed sid, now - t ≤ maxAge
  kept : ∀ sid, ∀ t ∈ s.accessed sid, now - t ≤ maxAge →
    (s.manager.cleanup now maxAge).1.sessions.lookup sid = s.manager.sessions.lookup sid
  counted : (s.manager.cleanup now maxAge).1.count + (s.manager.cleanup now maxAge).2 =
    s.manager.count

/-- No session that `Load` has brought in and nobody has used since was loaded
longer than `maxAge` ago. -/
def NoneLeftOver (s : Tracked) (now maxAge : Int) : Prop :=
  ∀ sid, s.manager.lastAccess.lookup sid = none → ∀ t ∈ s.loaded sid, now - t ≤ maxAge

/-- No session whose last use is longer than `maxAge` ago was loaded again since, within
`maxAge`. -/
def NoneReloaded (s : Tracked) (now maxAge : Int) : Prop :=
  ∀ sid, ∀ u ∈ s.manager.lastAccess.lookup sid, maxAge < now - u →
    ∀ t ∈ s.loaded sid, maxAge < now - t

/-- Every session whose last use is longer than `maxAge` ago has a history. -/
def NoneEmpty (s : Tracked) (now maxAge : Int) : Prop :=
  ∀ sid, ∀ u ∈ s.manager.lastAccess.lookup sid, maxAge < now - u →
    (s.manager.sessions.lookup sid).isSome = true

def SessionOp.Fair (s : Tracked) : SessionOp → Prop
  | .cleanup now maxAge => MiniGoAgent.Fair s now maxAge
  | _ => True

def SessionOp.Undisturbed (s : Tracked) : SessionOp → Prop
  | .cleanup now maxAge =>
    NoneLeftOver s now maxAge ∧ NoneReloaded s now maxAge ∧ NoneEmpty s now maxAge
  | _ => True

/-! ## Expired sessions -/

section Manager

variable (m : Manager) (now maxAge : Int)

theorem mem_expired {sid : Str} :
    sid ∈ m.expired now maxAge ↔ ∃ u ∈ m.lastAccess.lookup sid, maxAge < now - u := by
  rw [Manager.expired, List.mem_map]
  constructor
  · rintro ⟨e, he, rfl⟩
    obtain ⟨hmem, hold⟩ := List.mem_filter.mp he
    exact ⟨e.2, AList.mem_lookup_iff.mpr hmem, of_decide_eq_true hold⟩
  · rintro ⟨u, hu, hold⟩
    exact ⟨⟨sid, u⟩, List.mem_filter.mpr ⟨AList.mem_lookup_iff.mp hu, decide_eq_true hold⟩, rfl⟩

theorem nodup_expired : (m.expired now maxAge).Nodup := by
  refine List.Nodup.sublist ?_ m.lastAccess.keys_nodup
  exact (List.filter_sublist).map _

theorem lookup_cleanup (sid : Str) :
    (m.cleanup now maxAge).1.sessions.lookup sid =
      if sid ∈ m.expired now maxAge then none else m.sessions.lookup sid :=
  lookup_eraseAll (m.expired now maxAge) m.sessions sid

theorem lastAccess_cleanup (sid : Str) :
    (m.cleanup now maxAge).1.lastAccess.lookup sid =
      if sid ∈ m.expired now maxAge then none else m.lastAccess.lookup sid :=
  lookup_eraseAll (m.expired now maxAge) m.lastAccess sid

theorem count_cleanup_iff :
    (m.cleanup now maxAge).1.count + (m.cleanup now maxAge).2 = m.count ↔
      ∀ sid ∈ m.expired now maxAge, (m.sessions.lookup sid).isSome = true := by
  have hcount : (m.cleanup now maxAge).1.count + ((m.expired now maxAge).filter
      (fun sid => (m.sessions.lookup sid).isSome)).length = m.count :=
    length_eraseAll (nodup_expired m now maxAge) m.sessions
  have hreturned : (m.cleanup now maxAge).2 = (m.expired now maxAge).length := rfl
  rw [hreturned, ← List.filter_eq_self (l := m.expired now maxAge)]
  constructor
  · intro h
    have hlength : ((m.expired now maxAge).filter
        (fun sid => (m.sessions.lookup sid).isSome)).length = (m.expired now maxAge).length := by
      omega
    exact List.filter_sublist.eq_of_length hlength
  · intro h
    rw [h] at hcount
    exact hcount

end Manager

/-! ## What is known of the accesses -/

/-- What is known of a session: it was accessed when it was used or loaded, if it was, and
one of them is its last access if it has a history (`present`). -/
structure KnownAt (used loaded accessed now : Option Int) (present : Bool) : Prop where
  of_used : ∀ u ∈ used, ∃ t ∈ accessed, u ≤ t
  of_loaded : ∀ l ∈ loaded, present = true ∧ ∃ t ∈ accessed, l ≤ t
  of_present : present = true → ∃ t ∈ accessed, t ∈ used ∨ t ∈ loaded
  past : ∀ t ∈ accessed, ∃ n ∈ now, t ≤ n

/-- The accesses are those `lastAccess` holds and those of `Load`. -/
def Known (s : Tracked) : Prop :=
  ∀ sid, KnownAt (s.manager.lastAccess.lookup sid) (s.loaded sid) (s.accessed sid) s.now
    (s.manager.sessions.lookup sid).isSome

section KnownAt

variable {used loaded accessed clock : Option Int} {now : Int} {present present' : Bool}

theorem KnownAt.le_now (h : KnownAt used loaded accessed clock present)
    (hclock : ∀ t ∈ clock, t ≤ now) : ∀ t ∈ accessed, t ≤ now := by
  intro t ht
  obtain ⟨n, hn, hle⟩ := h.past t ht
  exact Int.le_trans hle (hclock n hn)

theorem KnownAt.later (h : KnownAt used loaded accessed clock present)
    (hclock : ∀ t ∈ clock, t ≤ now) : KnownAt used loaded accessed (some now) present :=
  ⟨h.of_used, h.of_loaded, h.of_present, fun t ht => ⟨now, rfl, h.le_now hclock t ht⟩⟩

theorem KnownAt.use (h : KnownAt used loaded accessed clock present)
    (hclock : ∀ t ∈ clock, t ≤ now) (hgrows : present = true → present' = true) :
    KnownAt (some now) loaded (some now) (some now) present' := by
  refine ⟨by simp, ?_, by simp, by simp⟩
  intro l hl
  obtain ⟨hpresent, t, ht, hle⟩ := h.of_loaded l hl
  exact ⟨hgrows hpresent, now, rfl, Int.le_trans hle (h.le_now hclock t ht)⟩

theorem KnownAt.load (h : KnownAt used loaded accessed clock present)
    (hclock : ∀ t ∈ clock, t ≤ now) : KnownAt used (some now) (some now) (some now) true := by
  refine ⟨?_, by simp, by simp, by simp⟩
  intro u hu
  obtain ⟨t, ht, hle⟩ := h.of_used u hu
  exact ⟨now, rfl, Int.le_trans hle (h.le_now hclock t ht)⟩

theorem KnownAt.cleanup (h : KnownAt used loaded accessed clock present)
    (hclock : ∀ t ∈ clock, t ≤ now) : KnownAt none none accessed (some now) false :=
  ⟨nofun, nofun, nofun, (h.later hclock).past⟩

end KnownAt

theorem known_step {defaultSession : Str} {s s' : Tracked} {op : SessionOp} (h : Known s)
    (hstep : (trackMachine defaultSession).step s op = some s') : Known s' := by
  simp only [trackMachine, Option.ite_none_right_eq_some, Option.some.injEq] at hstep
  obtain ⟨hclock, rfl⟩ := hstep
  intro k
  cases op with
  | snapshotWith now sid extra =>
    show KnownAt ((s.manager.lastAccess.insert sid now).lookup k) (s.loaded k)
      (Function.update s.accessed sid (some now) k) (some now) (s.manager.sessions.lookup k).isSome
    by_cases hk : k = sid
    · rw [hk, AList.lookup_insert, Function.update_self]
      exact (h sid).use hclock id
    · rw [AList.lookup_insert_ne hk, Function.update_of_ne hk]
      exact (h k).later hclock
  | append now sid msgs =>
    show KnownAt ((s.manager.lastAccess.insert sid now).lookup k) (s.loaded k)
      (Function.update s.accessed sid (some now) k) (some now)
      ((s.manager.append now sid msgs).sessions.lookup k).isSome
    by_cases hk : k = sid
    · rw [hk, AList.lookup_insert, Function.update_self]
      refine (h sid).use hclock ?_
      intro _
      exact Option.isSome_of_eq_some (AList.lookup_insert _)
    · rw [AList.lookup_insert_ne hk, Function.update_of_ne hk, Manager.append,
        AList.lookup_insert_ne hk]
      exact (h k).later hclock
  | load now file =>
    have hsids : (unmarshalHistory file).map Prod.fst = file.sids := by
      rw [unmarshalHistory, List.map_map]
      rfl
    have hlookup : ((s.manager.load file).1.sessions.lookup k).isSome = true ↔
        k ∈ file.sids ∨ (s.manager.sessions.lookup k).isSome = true := by
      rw [← hsids]
      exact isSome_lookup_insertAll (unmarshalHistory file) s.manager.sessions k
    simp only [Tracked.apply]
    by_cases hk : k ∈ file.sids
    · rw [if_pos hk, if_pos hk, hlookup.mpr (Or.inl hk)]
      exact (h k).load hclock
    · rw [or_iff_right hk, ← Bool.eq_iff_iff] at hlookup
      rw [if_neg hk, if_neg hk, hlookup]
      exact (h k).later hclock
  | cleanup now maxAge =>
    simp only [Tracked.apply, lookup_cleanup, lastAccess_cleanup]
    split
    · exact (h k).cleanup hclock
    · exact (h k).later hclock

/-! ## Fair cleanups -/

/-- One session: `Cleanup` does right by it exactly if it is undisturbed. -/
theorem KnownAt.evicts_iff {used loaded accessed clock : Option Int} {present : Bool}
    (h : KnownAt used loaded accessed clock present) (now maxAge : Int) :
    ((present = true → (¬ ∃ u ∈ used, maxAge < now - u) → ∃ t ∈ accessed, now - t ≤ maxAge) ∧
      (∀ t ∈ accessed, now - t ≤ maxAge → (∃ u ∈ used, maxAge < now - u) → present = false) ∧
      ((∃ u ∈ used, maxAge < now - u) → present = true)) ↔
    (used = none → ∀ t ∈ loaded, now - t ≤ maxAge) ∧
      (∀ u ∈ used, maxAge < now - u → ∀ t ∈ loaded, maxAge < now - t) ∧
      ∀ u ∈ used, maxAge < now - u → present = true := by
  obtain ⟨hused, hloaded, hpresent, -⟩ := h
  cases used <;> cases loaded <;> cases accessed <;> cases present <;> simp_all
  omega

theorem fair_iff_undisturbed {s : Tracked} (h : Known s) (now maxAge : Int) :
    Fair s now maxAge ↔
      NoneLeftOver s now maxAge ∧ NoneReloaded s now maxAge ∧ NoneEmpty s now maxAge := by
  have hall := forall_congr' fun sid => (h sid).evicts_iff now maxAge
  simp only [forall_and] at hall
  rw [NoneLeftOver, NoneReloaded, NoneEmpty]
  refine Iff.trans ?_ hall
  have hlookup := lookup_cleanup s.manager now maxAge
  constructor
  · rintro ⟨hfresh, hkept, hcounted⟩
    refine ⟨?_, ?_, ?_⟩
    · intro sid hpresent hnot
      refine hfresh sid ?_
      rwa [hlookup, if_neg (by rwa [mem_expired])]
    · intro sid t ht hrecent hold
      have hgone := hkept sid t ht hrecent
      rw [hlookup, if_pos ((mem_expired _ _ _).mpr hold)] at hgone
      rw [← hgone]
      rfl
    · intro sid hold
      exact (count_cleanup_iff _ _ _).mp hcounted sid ((mem_expired _ _ _).mpr hold)
  · rintro ⟨hfresh, hkept, hcounted⟩
    refine ⟨?_, ?_, (count_cleanup_iff _ _ _).mpr ?_⟩
    · intro sid hleft
      rw [hlookup] at hleft
      split at hleft
      · cases hleft
      next hnot => exact hfresh sid hleft (fun hold => hnot ((mem_expired _ _ _).mpr hold))
    · intro sid t ht hrecent
      rw [hlookup]
      split
      next hold =>
        have hgone := hkept sid t ht hrecent ((mem_expired _ _ _).mp hold)
        rw [Option.isSome_eq_false_iff, Option.isNone_iff_eq_none] at hgone
        exact hgone.symm
      · rfl
    · intro sid hmem
      exact hcounted sid ((mem_expired _ _ _).mp hmem)

/-- **Eviction, over all runs.**  Every `Cleanup` of a run is fair exactly if each of
them meets no loaded session that was not used since and is too old, none that
was loaded again within `maxAge` but not used within it, and no entry of
`lastAccess` that is too old and has no history. -/
theorem fair_iff (defaultSession : Str) {ops : List SessionOp}
    (hrun : ((trackMachine defaultSession).run (trackMachine defaultSession).init ops).isSome
      = true) :
    (trackMachine defaultSession).Along SessionOp.Fair (trackMachine defaultSession).init ops ↔
      (trackMachine defaultSession).Along SessionOp.Undisturbed
        (trackMachine defaultSession).init ops := by
  refine (trackMachine defaultSession).along_congr (J := Known) ?_ ?_ ?_ hrun
  · intro s op s' h hstep
    exact known_step h hstep
  · intro s op s' h _
    cases op with
    | cleanup now maxAge => exact fair_iff_undisturbed h now maxAge
    | _ => exact Iff.rfl
  · exact fun _ => ⟨nofun, nofun, nofun, nofun⟩

/-- Two sessions, one of them too old. -/
theorem fair_iff_two_sessions :
    (trackMachine []).Along SessionOp.Fair (trackMachine []).init
      [.append 0 (lit "a") [none], .append 5 (lit "b") [none], .cleanup 12 10] := by
  refine (fair_iff [] rfl).mpr ?_
  refine ⟨trivial, ?_⟩
  rintro s₁ ⟨⟩
  refine ⟨trivial, ?_⟩
  rintro s₂ ⟨⟩
  refine ⟨⟨?_, ?_, ?_⟩, fun _ _ => trivial⟩
  · intro sid _ t ht
    cases ht
  · intro sid u _ _ t ht
    cases ht
  · -- the sessions that are entered have a history
    intro sid u hu _
    by_cases ha : sid = lit "a"
    · subst ha
      decide +kernel
    · by_cases hb : sid = lit "b"
      · subst hb
        decide +kernel
      · have hentered : ((AList.insert (lit "a") 0 ∅ : AList (fun _ : Str => Int)).insert
            (lit "b") 5).lookup sid = some u := hu
        rw [AList.lookup_insert_ne hb, AList.lookup_insert_ne ha] at hentered
        cases hentered

/-- A session that was loaded a hundred units ago survives a `Cleanup` of ten; and
a `Cleanup` that meets a session without a history counts it. -/
theorem cleanup_leaks_and_miscounts :
    (∃ s, (trackMachine []).run (trackMachine []).init [.load 0 [(lit "a", [])]] = some s ∧
      s.accessed (lit "a") = some 0 ∧
      ((s.manager.cleanup 100 10).1.sessions.lookup (lit "a")).isSome = true ∧
      ¬ Fair s 100 10) ∧
    ∃ s, (trackMachine []).run (trackMachine []).init [.snapshotWith 0 (lit "a") []] = some s ∧
      (s.manager.cleanup 100 10).2 = 1 ∧ s.manager.count = 0 ∧
      (s.manager.cleanup 100 10).1.count = 0 ∧ ¬ Fair s 100 10 := by
  constructor
  · refine ⟨_, rfl, rfl, by decide +kernel, ?_⟩
    intro hfair
    obtain ⟨t, ht, hfresh⟩ := hfair.fresh (lit "a") (by decide +kernel)
    obtain rfl : 0 = t := Option.some.inj ht
    exact absurd hfresh (by decide)
  · refine ⟨_, rfl, by decide +kernel, rfl, by decide +kernel, ?_⟩
    intro hfair
    exact absurd hfair.counted (by decide +kernel)

end MiniGoAgent

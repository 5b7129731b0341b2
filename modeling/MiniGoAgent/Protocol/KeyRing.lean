/-
# `Protocol.KeyRing` — which key is current (`currentKey`, `rotateKey`)

A request takes the key that is current when it is built.  When a stream learns
from `SendWithRetry` that its request was answered with 401 or 403, it calls
`rotateKey`, which moves on from whatever key is current by then; `chatDirect`
reports such an answer as any other bad status, and rotates nothing.

`keyMachine` interleaves these steps for any number of calls on one `OpenAI`
value; how often a call sends, and what it is answered, is left open.
`Protocol.KeyCalls` ties it to the calls.

`KeysRight` is what the rotation is for, in a state: a key is left only after it
has been rejected, for its successor, and a rejected key is about to be left.
`keysRight_iff` says when it holds all along a run.
-/
import MiniGoAgent.Go.Machine
import MiniGoAgent.Protocol.OneAttempt

open Go
open scoped List

namespace MiniGoAgent

/-! ## The machine -/

/-- The function a call is a call of. -/
inductive Caller where
  | chat
  | stream
  deriving DecidableEq, Repr

/-- How far a call is with a request.  A key is named by its place in `apiKeys`. -/
inductive KeyPhase where
  /-- in front of the next request -/
  | idle
  /-- the request is built and sent -/
  | sent (key : Nat)
  /-- `SendWithRetry` has returned an `AuthError`, and `rotateKey` is next -/
  | refused (key : Nat)
  deriving DecidableEq, Repr

structure KeyCall where
  caller : Caller
  phase : KeyPhase := .idle
  deriving DecidableEq, Repr

inductive KeyMove where
  | start (caller : Caller)
  /-- a request is built with `currentKey` and sent -/
  | send
  /-- the status of the answer, if there is an answer -/
  | answer (status : Option Nat)
  | rotate
  | failover (model baseURL : Str)
  | leave
  deriving DecidableEq, Repr

def refuses (status : Option Nat) : Bool := status == some 401 || status == some 403

structure KeyWorld where
  o : OpenAI
  calls : Nat → Option KeyCall := fun _ => none
  /-- the current key has been answered with 401 or 403 since it is the current one -/
  rejected : Bool := false
  /-- the keys sent, with the calls that have sent them -/
  requests : List (Nat × Str) := []

namespace KeyWorld

def put (w : KeyWorld) (i : Nat) (c : Option KeyCall) : KeyWorld :=
  { w with calls := Function.update w.calls i c }

def answered (w : KeyWorld) (key : Nat) (status : Option Nat) : KeyWorld :=
  { w with rejected := w.rejected || (refuses status && key == w.o.keyIndex) }

/-- `rotateKey`. -/
def rotated (w : KeyWorld) : KeyWorld :=
  { w with o := w.o.rotateKey.1, rejected := w.rejected && !w.o.rotateKey.2 }

end KeyWorld

/-- Where the answer leaves a call: only `SendWithRetry` knows an `AuthError`. -/
def KeyCall.answered (caller : Caller) (key : Nat) (status : Option Nat) : KeyCall :=
  match caller with
  | .chat => ⟨.chat, .idle⟩
  | .stream => ⟨.stream, if refuses status then .refused key else .idle⟩

/-- The calls on one value, which is new. -/
def keyMachine (o : OpenAI) : Machine KeyWorld (Nat × KeyMove) where
  init := { o := { o with keyIndex := 0 } }
  step w
    | (i, .start caller) =>
      match w.calls i with
      | none => some (w.put i (some ⟨caller, .idle⟩))
      | some _ => none
    | (i, .send) =>
      match w.calls i with
      | some ⟨caller, .idle⟩ =>
        some { w.put i (some ⟨caller, .sent w.o.keyIndex⟩) with
          requests := w.requests ++ [(i, w.o.currentKey)] }
      | _ => none
    | (i, .answer status) =>
      match w.calls i with
      | some ⟨caller, .sent key⟩ =>
        some ((w.answered key status).put i (some (.answered caller key status)))
      | _ => none
    | (i, .rotate) =>
      match w.calls i with
      | some ⟨caller, .refused _⟩ => some (w.rotated.put i (some ⟨caller, .idle⟩))
      | _ => none
    | (i, .failover model baseURL) =>
      match w.calls i with
      | some ⟨_, .idle⟩ => some { w with o := w.o.applyFailover model baseURL }
      | _ => none
    | (i, .leave) =>
      match w.calls i with
      | some ⟨_, .idle⟩ => some (w.put i none)
      | _ => none

/-- The moves, each with what it needs and what it leaves. -/
inductive KeyStep (w : KeyWorld) : Nat × KeyMove → KeyWorld → Prop where
  | start {i : Nat} (caller : Caller) (hi : w.calls i = none) :
      KeyStep w (i, .start caller) (w.put i (some ⟨caller, .idle⟩))
  | send {i : Nat} {caller : Caller} (hi : w.calls i = some ⟨caller, .idle⟩) :
      KeyStep w (i, .send)
        { w.put i (some ⟨caller, .sent w.o.keyIndex⟩) with
          requests := w.requests ++ [(i, w.o.currentKey)] }
  | answer {i : Nat} {caller : Caller} {key : Nat} (status : Option Nat)
      (hi : w.calls i = some ⟨caller, .sent key⟩) :
      KeyStep w (i, .answer status)
        ((w.answered key status).put i (some (.answered caller key status)))
  | rotate {i : Nat} {caller : Caller} {key : Nat} (hi : w.calls i = some ⟨caller, .refused key⟩) :
      KeyStep w (i, .rotate) (w.rotated.put i (some ⟨caller, .idle⟩))
  | failover {i : Nat} {caller : Caller} (model baseURL : Str)
      (hi : w.calls i = some ⟨caller, .idle⟩) :
      KeyStep w (i, .failover model baseURL) { w with o := w.o.applyFailover model baseURL }
  | leave {i : Nat} {caller : Caller} (hi : w.calls i = some ⟨caller, .idle⟩) :
      KeyStep w (i, .leave) (w.put i none)

theorem keyStep_of_step {o : OpenAI} {w w' : KeyWorld} {e : Nat × KeyMove}
    (h : (keyMachine o).step w e = some w') : KeyStep w e w' := by
  obtain ⟨i, move⟩ := e
  cases move <;> simp only [keyMachine] at h <;> split at h <;> cases h
  · next hi => exact .start _ hi
  · next hi => exact .send hi
  · next hi => exact .answer _ hi
  · next hi => exact .rotate hi
  · next hi => exact .failover _ _ hi
  · next hi => exact .leave hi

/-! ## What the rotation is for -/

def KeyWorld.Due (w : KeyWorld) (i : Nat) : Prop :=
  ∃ caller key, w.calls i = some ⟨caller, .refused key⟩

/-- If the move changes the current key, then the key has been rejected since it is
current, and is changed for its cyclic successor. -/
def RightTurn (o : OpenAI) (w : KeyWorld) (e : Nat × KeyMove) : Prop :=
  ∀ w', (keyMachine o).step w e = some w' → w'.o.keyIndex ≠ w.o.keyIndex →
    w.rejected = true ∧ w'.o.keyIndex = (w.o.keyIndex + 1) % w.o.apiKeys.length

/-- In whatever order the calls take their next steps, the key changes only as it
should; and a key that has been rejected is about to be changed. -/
structure KeysRight (o : OpenAI) (w : KeyWorld) : Prop where
  turns : ∀ e, RightTurn o w e
  rotations : ∀ calls : List Nat,
    (keyMachine o).Along (RightTurn o) w (calls.map (fun i => (i, .rotate)))
  heeded : 2 ≤ w.o.apiKeys.length → w.rejected = true →
    ∃ i w', (keyMachine o).step w (i, .rotate) = some w' ∧ w'.o.keyIndex ≠ w.o.keyIndex

/-- When a stream is rejected, it is for the current key, and no rotation is due; when a
`Chat` is rejected for the current key, one is. -/
def Paced (w : KeyWorld) : Nat × KeyMove → Prop
  | (i, .answer status) =>
    2 ≤ w.o.apiKeys.length → refuses status = true →
      (∀ key, w.calls i = some ⟨.stream, .sent key⟩ →
        key = w.o.keyIndex ∧ ∀ j, ¬ w.Due j) ∧
      (∀ key, w.calls i = some ⟨.chat, .sent key⟩ → key = w.o.keyIndex → ∃ j, w.Due j)
  | _ => True

/-! ## States that are settled -/

section Due

variable {w : KeyWorld} {i j : Nat} {c : Option KeyCall}

theorem calls_put_self : (w.put i c).calls i = c := Function.update_self ..

theorem due_put_of_ne (h : j ≠ i) : (w.put i c).Due j ↔ w.Due j := by
  simp only [KeyWorld.Due, KeyWorld.put, Function.update_of_ne h]

theorem due_put_iff (hi : ¬ w.Due i) (hc : ∀ caller key, c ≠ some ⟨caller, .refused key⟩) :
    (w.put i c).Due j ↔ w.Due j := by
  by_cases hji : j = i
  · subst hji
    refine iff_of_false ?_ hi
    rintro ⟨caller, key, h⟩
    rw [calls_put_self] at h
    exact hc caller key h
  · exact due_put_of_ne hji

theorem not_due_of_calls {caller : Caller} {phase : KeyPhase}
    (hi : w.calls i = some ⟨caller, phase⟩)
    (hphase : ∀ key, phase ≠ .refused key) : ¬ w.Due i := by
  rintro ⟨_, key, h⟩
  rw [hi, Option.some.injEq, KeyCall.mk.injEq] at h
  exact hphase key h.2

theorem due_rotated : w.rotated.Due j ↔ w.Due j := Iff.rfl

end Due

/-- The key's place is one of the list, if there is a choice. -/
def KeyWorld.Placed (w : KeyWorld) : Prop :=
  2 ≤ w.o.apiKeys.length → w.o.keyIndex < w.o.apiKeys.length

/-- One rotation is due if the current key is rejected, and none otherwise. -/
structure Settled (w : KeyWorld) : Prop where
  once : ∀ i j, w.Due i → w.Due j → i = j
  rejected : w.rejected = true ↔ ∃ i, w.Due i

theorem settled_of_none {w : KeyWorld} (hnone : ∀ i, ¬ w.Due i) (h : w.rejected = false) :
    Settled w := by
  refine ⟨fun i _ hi => absurd hi (hnone i), iff_of_false (by simp [h]) ?_⟩
  rintro ⟨i, hi⟩
  exact hnone i hi

theorem succ_mod_ne {k n : Nat} (hn : 2 ≤ n) (hk : k < n) : (k + 1) % n ≠ k := by
  by_cases hlast : k + 1 = n
  · rw [hlast, Nat.mod_self]
    omega
  · rw [Nat.mod_eq_of_lt (by omega)]
    omega

section Rotate

variable {o : OpenAI} {w w' : KeyWorld} {i : Nat} {e : Nat × KeyMove}

theorem rotated_of_two (h : 2 ≤ w.o.apiKeys.length) :
    w.rotated = { w with
      o := { w.o with keyIndex := (w.o.keyIndex + 1) % w.o.apiKeys.length }
      rejected := false } := by
  have hnot : ¬ w.o.apiKeys.length ≤ 1 := by omega
  simp [KeyWorld.rotated, OpenAI.rotateKey, hnot]

theorem rotated_of_one (h : ¬ 2 ≤ w.o.apiKeys.length) : w.rotated = w := by
  have hle : w.o.apiKeys.length ≤ 1 := by omega
  simp [KeyWorld.rotated, OpenAI.rotateKey, hle]

theorem apiKeys_rotated : w.rotated.o.apiKeys = w.o.apiKeys := by
  by_cases h : 2 ≤ w.o.apiKeys.length
  · rw [rotated_of_two h]
  · rw [rotated_of_one h]

theorem apiKeys_of_step (h : (keyMachine o).step w e = some w') : w'.o.apiKeys = w.o.apiKeys := by
  cases keyStep_of_step h with
  | rotate hi => exact apiKeys_rotated
  | _ => rfl

theorem due_of_change (h : (keyMachine o).step w e = some w')
    (hchange : w'.o.keyIndex ≠ w.o.keyIndex) :
    2 ≤ w.o.apiKeys.length ∧ (∃ i, w.Due i) ∧
      w'.o.keyIndex = (w.o.keyIndex + 1) % w.o.apiKeys.length := by
  cases keyStep_of_step h with
  | rotate hi =>
    by_cases htwo : 2 ≤ w.o.apiKeys.length
    · refine ⟨htwo, ⟨_, _, _, hi⟩, ?_⟩
      rw [rotated_of_two htwo]
      rfl
    · rw [rotated_of_one htwo] at hchange
      exact absurd rfl hchange
  | _ => exact absurd rfl hchange

theorem placed_of_step (hplaced : w.Placed) (h : (keyMachine o).step w e = some w') :
    w'.Placed := by
  intro htwo
  rw [apiKeys_of_step h] at htwo ⊢
  by_cases hchange : w'.o.keyIndex = w.o.keyIndex
  · rw [hchange]
    exact hplaced htwo
  · rw [(due_of_change h hchange).2.2]
    exact Nat.mod_lt _ (by omega)

theorem step_of_due (hplaced : w.Placed) (htwo : 2 ≤ w.o.apiKeys.length) (hdue : w.Due i) :
    ∃ w', (keyMachine o).step w (i, .rotate) = some w' ∧ w'.o.keyIndex ≠ w.o.keyIndex ∧
      w'.rejected = false ∧ ∀ j, j ≠ i → (w'.Due j ↔ w.Due j) := by
  obtain ⟨caller, key, hi⟩ := hdue
  refine ⟨w.rotated.put i (some ⟨caller, .idle⟩), ?_, ?_, ?_, ?_⟩
  · simp only [keyMachine, hi]
  · rw [rotated_of_two htwo]
    exact succ_mod_ne htwo (hplaced htwo)
  · rw [rotated_of_two htwo]
    rfl
  · intro j hji
    rw [due_put_of_ne hji, due_rotated]

theorem settled_rotate (htwo : 2 ≤ w.o.apiKeys.length) (hs : Settled w)
    (h : (keyMachine o).step w (i, .rotate) = some w') : Settled w' := by
  cases keyStep_of_step h with
  | rotate hi =>
    refine settled_of_none ?_ (by rw [rotated_of_two htwo]; rfl)
    intro j hj
    by_cases hji : j = i
    · subst hji
      obtain ⟨_, _, h⟩ := hj
      rw [calls_put_self] at h
      cases h
    · rw [due_put_of_ne hji, due_rotated] at hj
      exact hji (hs.once j i hj ⟨_, _, hi⟩)

end Rotate

theorem keysRight_iff_settled (o : OpenAI) {w : KeyWorld} (hplaced : w.Placed) :
    KeysRight o w ↔ (2 ≤ w.o.apiKeys.length → Settled w) := by
  constructor
  · intro hright htwo
    have hrejected : ∀ i, w.Due i → w.rejected = true := by
      intro i hi
      obtain ⟨w', hstep, hchange, _⟩ := step_of_due (o := o) hplaced htwo hi
      exact (hright.turns _ w' hstep hchange).1
    refine ⟨?_, ?_, ?_⟩
    · intro i j hi hj
      by_contra hij
      obtain ⟨w', hstep, _, hnot, hothers⟩ := step_of_due (o := o) hplaced htwo hi
      have hj' : w'.Due j := (hothers j (Ne.symm hij)).mpr hj
      have htwo' : 2 ≤ w'.o.apiKeys.length := by
        rw [apiKeys_of_step hstep]
        exact htwo
      obtain ⟨w'', hstep', hchange, _⟩ :=
        step_of_due (o := o) (placed_of_step hplaced hstep) htwo' hj'
      have hboth := (hright.rotations [i, j]).2 w' hstep
      have hyes := (hboth.1 w'' hstep' hchange).1
      rw [hnot] at hyes
      exact Bool.false_ne_true hyes
    · intro h
      obtain ⟨i, w', hstep, _⟩ := hright.heeded htwo h
      cases keyStep_of_step hstep with
      | rotate hi => exact ⟨i, _, _, hi⟩
    · rintro ⟨i, hi⟩
      exact hrejected i hi
  · intro hs
    have hturn : ∀ {w : KeyWorld}, (2 ≤ w.o.apiKeys.length → Settled w) → ∀ e, RightTurn o w e := by
      intro w hs e w' hstep hchange
      obtain ⟨htwo, hdue, hnext⟩ := due_of_change hstep hchange
      exact ⟨(hs htwo).rejected.mpr hdue, hnext⟩
    refine ⟨hturn hs, ?_, ?_⟩
    · intro calls
      induction calls generalizing w with
      | nil => exact trivial
      | cons i rest ih =>
        refine ⟨hturn hs _, ?_⟩
        intro w' hstep
        refine ih (placed_of_step hplaced hstep) ?_
        intro htwo
        rw [apiKeys_of_step hstep] at htwo
        exact settled_rotate htwo (hs htwo) hstep
    · intro htwo h
      obtain ⟨i, hi⟩ := (hs htwo).rejected.mp h
      obtain ⟨w', hstep, hchange, _⟩ := step_of_due (o := o) hplaced htwo hi
      exact ⟨i, w', hstep, hchange⟩

/-! ## Steps and runs -/

section Answer

variable {w : KeyWorld} {i key : Nat} {status : Option Nat}

theorem Settled.same {w' : KeyWorld} (h : Settled w) (hdue : ∀ j, w'.Due j ↔ w.Due j)
    (hrejected : w'.rejected = w.rejected) : Settled w' where
  once i j hi hj := h.once i j ((hdue i).mp hi) ((hdue j).mp hj)
  rejected := by
    rw [hrejected, h.rejected]
    exact exists_congr fun j => (hdue j).symm

theorem settled_answer_other (hs : Settled w) (hi : ¬ w.Due i) (caller : Caller)
    (h : refuses status = false) :
    Settled ((w.answered key status).put i (some (.answered caller key status))) := by
  refine hs.same ?_ ?_
  · intro j
    refine due_put_iff (w := w.answered key status) hi ?_
    intro caller' key' hc
    cases caller with
    | chat => cases hc
    | stream => exact absurd hc (by simp [KeyCall.answered, h])
  · simp [KeyWorld.put, KeyWorld.answered, h]

theorem settled_answer_chat (hs : Settled w) (hi : ¬ w.Due i) (h : refuses status = true) :
    Settled ((w.answered key status).put i (some (.answered .chat key status))) ↔
      (key = w.o.keyIndex → ∃ j, w.Due j) := by
  have hdue : ∀ j, ((w.answered key status).put i (some (.answered .chat key status))).Due j ↔
      w.Due j :=
    fun j => due_put_iff (w := w.answered key status) hi (by simp [KeyCall.answered])
  constructor
  · intro h' hkey
    have hyes : ((w.answered key status).put i (some (.answered .chat key status))).rejected =
        true := by
      simp [KeyWorld.put, KeyWorld.answered, h, hkey]
    obtain ⟨j, hj⟩ := h'.rejected.mp hyes
    exact ⟨j, (hdue j).mp hj⟩
  · intro hkey
    refine hs.same hdue ?_
    simp only [KeyWorld.put, KeyWorld.answered, h, Bool.true_and]
    by_cases heq : key = w.o.keyIndex
    · rw [hs.rejected.mpr (hkey heq), Bool.true_or]
    · rw [beq_eq_false_iff_ne.mpr heq, Bool.or_false]

theorem settled_answer_stream (hs : Settled w) (hi : ¬ w.Due i) (h : refuses status = true) :
    Settled ((w.answered key status).put i (some (.answered .stream key status))) ↔
      key = w.o.keyIndex ∧ ∀ j, ¬ w.Due j := by
  have hself : ((w.answered key status).put i (some (.answered .stream key status))).Due i :=
    ⟨.stream, key, by simp [KeyWorld.put, KeyCall.answered, h]⟩
  have hothers : ∀ j, j ≠ i →
      (((w.answered key status).put i (some (.answered .stream key status))).Due j ↔ w.Due j) :=
    fun j hj => due_put_of_ne hj
  constructor
  · intro h'
    have hnone : ∀ j, ¬ w.Due j := by
      intro j hj
      have hji : j ≠ i := by
        rintro rfl
        exact hi hj
      exact hji (h'.once j i ((hothers j hji).mpr hj) hself)
    have hnot : w.rejected = false := by
      rw [← Bool.not_eq_true]
      intro hyes
      obtain ⟨j, hj⟩ := hs.rejected.mp hyes
      exact hnone j hj
    have hyes := h'.rejected.mpr ⟨i, hself⟩
    simp only [KeyWorld.put, KeyWorld.answered, h, hnot, Bool.true_and, Bool.false_or,
      beq_iff_eq] at hyes
    exact ⟨hyes, hnone⟩
  · rintro ⟨rfl, hnone⟩
    have honly : ∀ j, ((w.answered w.o.keyIndex status).put i
        (some (.answered .stream w.o.keyIndex status))).Due j → j = i := by
      intro j hj
      by_contra hji
      exact hnone j ((hothers j hji).mp hj)
    refine ⟨fun j k hj hk => (honly j hj).trans (honly k hk).symm, iff_of_true ?_ ⟨i, hself⟩⟩
    simp [KeyWorld.put, KeyWorld.answered, h]

end Answer

theorem paced_iff_settled {o : OpenAI} {w w' : KeyWorld} {e : Nat × KeyMove}
    (htwo : 2 ≤ w.o.apiKeys.length) (hs : Settled w) (h : (keyMachine o).step w e = some w') :
    Paced w e ↔ Settled w' := by
  cases keyStep_of_step h with
  | start caller hi =>
    refine iff_of_true trivial (hs.same ?_ rfl)
    intro j
    refine due_put_iff ?_ (by simp)
    rintro ⟨_, _, hdue⟩
    rw [hi] at hdue
    cases hdue
  | send hi | leave hi =>
    refine iff_of_true trivial (hs.same ?_ rfl)
    exact fun j => due_put_iff (w := w) (not_due_of_calls hi (by simp)) (by simp)
  | rotate hi => exact iff_of_true trivial (settled_rotate htwo hs h)
  | failover model baseURL hi =>
    exact iff_of_true trivial (hs.same (fun _ => Iff.rfl) rfl)
  | answer status hi =>
    rename_i i caller key
    have hnot : ¬ w.Due i := not_due_of_calls hi (by simp)
    cases hrefuses : refuses status with
    | false =>
      refine iff_of_true ?_ (settled_answer_other hs hnot caller hrefuses)
      intro _ hyes
      rw [hrefuses] at hyes
      cases hyes
    | true =>
      simp only [Paced, htwo, hrefuses, hi, forall_true_left, Option.some.injEq,
        KeyCall.mk.injEq, KeyPhase.sent.injEq]
      cases caller with
      | chat => simp [settled_answer_chat hs hnot hrefuses]
      | stream => simp [settled_answer_stream hs hnot hrefuses]

/-- In all states of a run the keys are right, exactly if its steps are paced. -/
theorem keysRight_iff (o : OpenAI) (moves : List (Nat × KeyMove))
    (hrun : ((keyMachine o).run (keyMachine o).init moves).isSome = true) :
    (keyMachine o).Along Paced (keyMachine o).init moves ↔
      ∀ front w, front <+: moves → (keyMachine o).run (keyMachine o).init front = some w →
        KeysRight o w := by
  have hplaced : (keyMachine o).init.Placed := by
    intro htwo
    show 0 < _
    omega
  have hsettled : Settled (keyMachine o).init := by
    refine settled_of_none ?_ rfl
    rintro i ⟨_, _, h⟩
    cases h
  refine (keyMachine o).along_iff (J := KeyWorld.Placed) (I := KeysRight o) ?_ ?_ hplaced ?_ hrun
  · intro w e w' hw hstep
    exact placed_of_step hw hstep
  · intro w e w' hw hright hstep
    rw [keysRight_iff_settled o hw] at hright
    rw [keysRight_iff_settled o (placed_of_step hw hstep), apiKeys_of_step hstep]
    by_cases htwo : 2 ≤ w.o.apiKeys.length
    · simp only [htwo, forall_true_left]
      exact paced_iff_settled htwo (hright htwo) hstep
    · refine iff_of_true ?_ (fun h => absurd h htwo)
      obtain ⟨i, move⟩ := e
      cases move with
      | answer status => exact fun h => absurd h htwo
      | _ => exact trivial
  · rw [keysRight_iff_settled o hplaced]
    exact fun _ => hsettled

def twoKeys : OpenAI := { apiKeys := [lit "a", lit "b"] }

/-- One stream, rejected for the first of two keys. -/
theorem keysRight_iff_one :
    ∃ w, (keyMachine twoKeys).run (keyMachine twoKeys).init
        [(0, .start .stream), (0, .send), (0, .answer (some 401)), (0, .rotate)] = some w ∧
      w.o.currentKey = lit "b" ∧ KeysRight twoKeys w := by
  refine ⟨_, rfl, by decide, ?_⟩
  refine (keysRight_iff twoKeys
    [(0, .start .stream), (0, .send), (0, .answer (some 401)), (0, .rotate)] rfl).mp ?_ _ _
    List.prefix_rfl rfl
  refine ⟨trivial, ?_⟩
  rintro _ ⟨⟩
  refine ⟨trivial, ?_⟩
  rintro _ ⟨⟩
  refine ⟨?_, ?_⟩
  · intro _ _
    refine ⟨?_, ?_⟩
    · rintro _ ⟨⟩
      refine ⟨rfl, ?_⟩
      rintro j ⟨_, _, hj⟩
      rcases update_eq_some hj with ⟨_, hj⟩ | ⟨hne, hj⟩
      · cases hj
      · rcases update_eq_some hj with ⟨hji, _⟩ | ⟨_, hj⟩
        · exact hne hji
        · cases hj
    · rintro _ ⟨⟩
  · rintro _ ⟨⟩
    exact ⟨trivial, fun _ _ => trivial⟩

/-- Two streams are rejected for the first of three keys, and both rotate: the second
key, which nobody has sent, is left for the third.  And a `Chat` that is rejected
leaves the key where it is. -/
theorem key_skipped_unrejected :
    (∃ w, (keyMachine { apiKeys := [lit "a", lit "b", lit "c"] }).run
        (keyMachine { apiKeys := [lit "a", lit "b", lit "c"] }).init
        [(0, .start .stream), (1, .start .stream), (0, .send), (1, .send),
          (0, .answer (some 401)), (1, .answer (some 401)), (0, .rotate)] = some w ∧
      w.requests = [(0, lit "a"), (1, lit "a")] ∧ w.o.currentKey = lit "b" ∧
      ¬ RightTurn { apiKeys := [lit "a", lit "b", lit "c"] } w (1, .rotate)) ∧
    ∃ w, (keyMachine twoKeys).run (keyMachine twoKeys).init
        [(0, .start .chat), (0, .send), (0, .answer (some 401)), (0, .leave)] = some w ∧
      w.o.currentKey = lit "a" ∧ ¬ KeysRight twoKeys w := by
  refine ⟨⟨_, rfl, by decide, by decide, ?_⟩, _, rfl, by decide, ?_⟩
  · intro h
    exact Bool.false_ne_true (h _ rfl (by decide)).1
  · intro h
    obtain ⟨i, w', hstep, _⟩ := h.heeded (by decide) (by decide)
    cases keyStep_of_step hstep with
    | rotate hi =>
      rcases update_eq_some hi with ⟨_, hi⟩ | ⟨hne, hi⟩
      · cases hi
      · rcases update_eq_some hi with ⟨hij, _⟩ | ⟨_, hi⟩
        · exact hne hij
        · rcases update_eq_some hi with ⟨hij, _⟩ | ⟨_, hi⟩
          · exact hne hij
          · rcases update_eq_some hi with ⟨hij, _⟩ | ⟨_, hi⟩
            · exact hne hij
            · cases hi

end MiniGoAgent

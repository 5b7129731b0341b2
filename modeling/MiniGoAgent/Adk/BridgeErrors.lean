/-
# `Adk.BridgeErrors` — what the reader of a failed stream sees

A `ChunkError` that comes before any `ChunkDone` has to reach the reader: as an
error, or, for an interrupted stream, as the answer of the `Chat` that recovers
it.  The goroutine has two exits that close the pipe without either, and a
closed pipe is a complete answer to every layer above.
-/
import MiniGoAgent.Adk.Bridge
import MiniGoAgent.Protocol.Said

open Go

namespace MiniGoAgent

/-- The `ChunkError` is an interrupted stream. -/
def Chunk.interrupted (c : Chunk) : Bool := c.error.any Err.asStreamInterrupted

/-- The reader's last `Recv` before the end is an error, or the recovered response
of an interrupted stream. -/
def AccountsFor (chat : Except Err Response) (failure : Chunk) (seen : List Sent) : Prop :=
  (∃ err, seen.getLast? = some (.error err)) ∨
    (failure.interrupted = true ∧
      ∃ resp, chat = .ok resp ∧ seen.getLast? = some (.message (fromProtoResp resp)))

theorem not_accountsFor_nil (chat : Except Err Response) (failure : Chunk) :
    ¬ AccountsFor chat failure [] := by
  rintro (⟨err, hlast⟩ | ⟨_, resp, _, hlast⟩) <;> cases hlast

theorem accountsFor_answerError_iff (chat : Except Err Response) (failure : Chunk) :
    AccountsFor chat failure (answerError chat failure.error) ↔
      (failure.interrupted = true → ∃ resp, chat = .ok resp) := by
  cases herr : failure.error with
  | none =>
    refine iff_of_true (Or.inl ⟨_, rfl⟩) ?_
    intro hint
    simp [Chunk.interrupted, herr] at hint
  | some err =>
    cases hint : err.asStreamInterrupted with
    | false =>
      have hplain : failure.interrupted = false := by simp [Chunk.interrupted, herr, hint]
      simp only [answerError, hint, hplain, Bool.false_eq_true, if_false, false_implies, iff_true]
      exact Or.inl ⟨err, rfl⟩
    | true =>
      have hfailure : failure.interrupted = true := by simp [Chunk.interrupted, herr, hint]
      simp only [answerError, hint, hfailure, if_true, true_implies]
      cases chat with
      | error e =>
        refine iff_of_false ?_ (by simp)
        rintro (⟨err, hlast⟩ | ⟨_, resp, hok, _⟩)
        · cases hlast
        · cases hok
      | ok resp => exact iff_of_true (Or.inr ⟨hfailure, resp, rfl, rfl⟩) ⟨resp, rfl⟩

section Loop

variable {done : Nat → Bool} (chat : Except Err Response) {before : List Chunk}
  (hopen : Open before) {failure : Chunk}

include hopen

theorem bridgeStream_reaches (hfailure : failure.type = .error) (rest : List Chunk) {n : Nat}
    (hquiet : ∀ k ≤ before.length, done (n + k) = false) (s : StreamAcc) :
    bridgeStream done chat (before ++ failure :: rest) n s = answerError chat failure.error := by
  induction before generalizing n s with
  | nil => exact bridgeStream_error chat s (hquiet 0 (Nat.le_refl 0)) hfailure rest
  | cons c before ih =>
    have hc := hopen c List.mem_cons_self
    have hbefore : Open before := fun x hx => hopen x (List.mem_cons_of_mem _ hx)
    have hn : done n = false := hquiet 0 (Nat.zero_le _)
    rw [List.cons_append, bridgeStream_absorb chat s hn hc]
    refine ih hbefore ?_ (s.absorb c)
    intro k hk
    have := hquiet (k + 1) (Nat.succ_le_succ hk)
    rwa [Nat.add_comm k 1, ← Nat.add_assoc] at this

theorem bridgeStream_cancelled (rest : List Chunk) {n k : Nat} (hk : k ≤ before.length)
    (hdone : done (n + k) = true) (s : StreamAcc) :
    bridgeStream done chat (before ++ failure :: rest) n s = [] := by
  induction before generalizing n k s with
  | nil =>
    rw [Nat.le_zero.mp hk] at hdone
    exact bridgeStream_of_done chat s hdone _
  | cons c before ih =>
    cases hn : done n with
    | true => exact bridgeStream_of_done chat s hn _
    | false =>
      have hc := hopen c List.mem_cons_self
      have hbefore : Open before := fun x hx => hopen x (List.mem_cons_of_mem _ hx)
      rw [List.cons_append, bridgeStream_absorb chat s hn hc]
      cases k with
      | zero =>
        rw [Nat.add_zero, hn] at hdone
        cases hdone
      | succ k =>
        refine ih hbefore (Nat.le_of_succ_le_succ hk) ?_ (s.absorb c)
        rwa [Nat.add_assoc, Nat.add_comm 1 k]

end Loop

/-- The reader learns of a failure exactly if the context is not done before the
goroutine comes to it, and the recovery of an interrupted stream succeeds. -/
theorem bridgeStream_accounts_iff (done : Nat → Bool) (chat : Except Err Response)
    {before : List Chunk} (hopen : Open before) {failure : Chunk} (hfailure : failure.type = .error)
    (rest : List Chunk) :
    AccountsFor chat failure (bridgeStream done chat (before ++ failure :: rest) 0 {}) ↔
      (∀ k ≤ before.length, done k = false) ∧
        (failure.interrupted = true → ∃ resp, chat = .ok resp) := by
  by_cases hquiet : ∀ k ≤ before.length, done (0 + k) = false
  · rw [bridgeStream_reaches chat hopen hfailure rest hquiet, accountsFor_answerError_iff]
    simp only [Nat.zero_add] at hquiet
    exact (and_iff_right hquiet).symm
  · simp only [not_forall, Bool.not_eq_false] at hquiet
    obtain ⟨k, hk, hdone⟩ := hquiet
    rw [bridgeStream_cancelled chat hopen rest hk hdone]
    refine iff_of_false (not_accountsFor_nil chat failure) ?_
    rintro ⟨hall, _⟩
    rw [Nat.zero_add, hall k hk] at hdone
    cases hdone

/-- The body breaks off. -/
def interruption : Chunk := errorChunk (some (.streamInterrupted true .unexpectedEOF))

/-- A stream that is interrupted after some text, and recovered. -/
theorem bridgeStream_accounts_iff_recovered :
    AccountsFor (.ok { content := lit "all of it" }) interruption
      (bridgeStream (fun _ => false) (.ok { content := lit "all of it" })
        ([textChunk (lit "all")] ++ [interruption]) 0 {}) := by
  have hopen : Open [textChunk (lit "all")] := by
    exact List.forall_mem_singleton.mpr rfl
  exact (bridgeStream_accounts_iff (fun _ => false) _ hopen rfl []).mpr
    ⟨fun _ _ => rfl, fun _ => ⟨_, rfl⟩⟩

/-- The same stream, and the recovery fails: the reader gets the placeholder and the
end of the stream. -/
theorem failed_recovery_ends_normally :
    bridgeStream (fun _ => false) (.error .connReset) [textChunk (lit "all"), interruption] 0 {} =
        [.message { role := roleAssistant, content := lit "[流中断，正在恢复...]" }] ∧
      ¬ AccountsFor (.error .connReset) interruption
        (bridgeStream (fun _ => false) (.error .connReset)
          [textChunk (lit "all"), interruption] 0 {}) := by
  have hseen : bridgeStream (fun _ => false) (.error .connReset)
      [textChunk (lit "all"), interruption] 0 {} =
        [.message { role := roleAssistant, content := lit "[流中断，正在恢复...]" }] := by decide
  refine ⟨hseen, ?_⟩
  rw [hseen]
  rintro (⟨err, hlast⟩ | ⟨_, resp, hok, _⟩)
  · cases hlast
  · cases hok

end MiniGoAgent

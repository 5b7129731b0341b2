/-
# `Protocol.RateLimit` — requests and tokens per minute (`ratelimit.go`)

`Wait` charges a call to the minute in force, and to a new one if that minute is
over; a call over one of the limits sleeps until the end of the minute with the
mutex in its hands, so calls are taken one after the other.  There are two ways
out of the sleep.  The timer opens a new minute with both counters at zero; a
context that is done first leaves the counters as the call has charged them.

The sleeper is let through in the minute it opens, and is not counted there.
`admitted_within_iff` says which runs keep to the limit nevertheless: those in
which no such minute fills up.  What the other way out does to later calls is in
`Protocol.RateCancel`.
-/
import MiniGoAgent.Go.Machine
import MiniGoAgent.Protocol.Types

open Go

namespace MiniGoAgent

/-! ## The limiter -/

def minute : Int := 60000000000

structure RateLimiter where
  rpm : Int
  tpm : Int
  /-- `none` is the zero time, which lies more than a minute before every other -/
  window : Option Int := none
  rCount : Nat := 0
  tCount : Int := 0
  deriving DecidableEq, Repr

def newRateLimiter (rpm tpm : Int) : RateLimiter := { rpm := rpm, tpm := tpm }

/-- How the `select` of a call that sleeps is left. -/
inductive WaitExit where
  /-- at this moment, by `ctx.Done()`, with this `ctx.Err()` -/
  | done (at_ : Int) (err : Err)
  /-- by the timer; `time.Now()` is `wake` -/
  | after (wake : Int)
  deriving DecidableEq, Repr

/-- A call of `Wait` that has the mutex at the moment `now`. -/
structure WaitCall where
  now : Int
  tokens : Int
  exit : WaitExit
  deriving DecidableEq, Repr

namespace RateLimiter

def off (rl : RateLimiter) : Bool := rl.rpm ≤ 0 && rl.tpm ≤ 0

/-- `now.Sub(rl.window) >= time.Minute`. -/
def expired (rl : RateLimiter) (now : Int) : Bool :=
  match rl.window with
  | none => true
  | some window => minute ≤ now - window

/-- A window that starts at `now`, with nothing charged to it. -/
def reset (rl : RateLimiter) (now : Int) : RateLimiter :=
  { rl with window := some now, rCount := 0, tCount := 0 }

def renew (rl : RateLimiter) (now : Int) : RateLimiter :=
  if rl.expired now then rl.reset now else rl

/-- Everything `Wait` does before it looks at the limits. -/
def charge (rl : RateLimiter) (now tokens : Int) : RateLimiter :=
  let rl := rl.renew now
  { rl with rCount := rl.rCount + 1, tCount := rl.tCount + tokens }

def overRequests (rl : RateLimiter) : Bool := 0 < rl.rpm && rl.rpm < rl.rCount

def overTokens (rl : RateLimiter) : Bool := 0 < rl.tpm && rl.tpm < rl.tCount

/-- `time.Minute - now.Sub(rl.window)`. -/
def remaining (rl : RateLimiter) (now : Int) : Int := minute - (now - rl.window.getD now)

/-- The variable `wait`. -/
def delay (rl : RateLimiter) (now : Int) : Int :=
  let wait := if rl.overRequests then rl.remaining now else 0
  if rl.overTokens then
    let d := rl.remaining now
    if wait < d then d else wait
  else wait

/-- `Wait`: the limiter it leaves, and the error it returns. -/
def wait (rl : RateLimiter) (c : WaitCall) : RateLimiter × Option Err :=
  if rl.off then (rl, none)
  else
    let rl := rl.charge c.now c.tokens
    if rl.delay c.now ≤ 0 then (rl, none)
    else
      match c.exit with
      | .done _ err => (rl, some err)
      | .after wake => (rl.reset wake, none)

def sleep (rl : RateLimiter) (c : WaitCall) : Int :=
  if rl.off then 0 else max 0 ((rl.charge c.now c.tokens).delay c.now)

end RateLimiter

namespace WaitCall

def returned (c : WaitCall) (rl : RateLimiter) : Int :=
  if rl.sleep c ≤ 0 then c.now
  else
    match c.exit with
    | .done at_ _ => at_
    | .after wake => wake

/-- The call comes at or after `clock`; the context may be done at any time, the
timer fires when the time has passed. -/
def feasible (c : WaitCall) (rl : RateLimiter) (clock : Int) : Bool :=
  clock ≤ c.now &&
    match c.exit with
    | .done at_ _ => c.now ≤ at_
    | .after wake => c.now + rl.sleep c ≤ wake

end WaitCall

/-! ## Sequences of calls -/

/-- The limiter between two calls.  `slept` says that the window was opened by a
call that had slept, `cancelled` counts the calls of the window that returned the
context's error, and `admitted` lists for every call that returned `nil` the
window in force at that moment. -/
structure LimiterState where
  rl : RateLimiter
  clock : Int
  slept : Bool := false
  cancelled : Nat := 0
  admitted : List (Option Int) := []
  deriving DecidableEq, Repr

namespace LimiterState

/-- The cancelled calls of the window that a call at `now` is charged to. -/
def cancelledIn (s : LimiterState) (now : Int) : Nat :=
  if s.rl.expired now then 0 else s.cancelled

def after (s : LimiterState) (c : WaitCall) : LimiterState :=
  let answer := s.rl.wait c
  { rl := answer.1
    clock := c.returned s.rl
    slept := (0 < s.rl.sleep c && answer.2.isNone) || (s.slept && !s.rl.expired c.now)
    cancelled :=
      if answer.2.isSome then s.cancelledIn c.now + 1
      else if 0 < s.rl.sleep c then 0 else s.cancelledIn c.now
    admitted := if answer.2.isNone then s.admitted ++ [answer.1.window] else s.admitted }

def step (s : LimiterState) (c : WaitCall) : Option LimiterState :=
  if c.feasible s.rl s.clock then some (s.after c) else none

end LimiterState

/-- A new limiter, and calls at nondecreasing times from `start` on. -/
def limiterMachine (rpm tpm start : Int) : Machine LimiterState WaitCall where
  init := { rl := newRateLimiter rpm tpm, clock := start }
  step := LimiterState.step

/-! ## What a call does -/

namespace RateLimiter

variable (rl : RateLimiter) (now tokens : Int)

/-- The call is over a limit once it is charged. -/
def overLimit (c : WaitCall) : Bool :=
  (rl.charge c.now c.tokens).overRequests || (rl.charge c.now c.tokens).overTokens

@[simp] theorem charge_rpm : (rl.charge now tokens).rpm = rl.rpm := by
  simp only [charge, renew]
  split <;> rfl

@[simp] theorem charge_tpm : (rl.charge now tokens).tpm = rl.tpm := by
  simp only [charge, renew]
  split <;> rfl

variable {wake : Int} {c : WaitCall}

theorem expired_iff {window : Int} (h : rl.window = some window) :
    rl.expired now = true ↔ minute ≤ now - window := by
  simp [expired, h]

theorem charge_of_expired (h : rl.expired now = true) :
    rl.charge now tokens = ⟨rl.rpm, rl.tpm, some now, 1, tokens⟩ := by
  simp [charge, renew, reset, h]

theorem charge_of_not_expired (h : rl.expired now = false) :
    rl.charge now tokens = ⟨rl.rpm, rl.tpm, rl.window, rl.rCount + 1, rl.tCount + tokens⟩ := by
  simp [charge, renew, h]

theorem remaining_charge_pos : 0 < (rl.charge now tokens).remaining now := by
  cases h : rl.expired now with
  | true =>
    rw [charge_of_expired rl now tokens h]
    simp [remaining, minute]
  | false =>
    rw [charge_of_not_expired rl now tokens h]
    cases hw : rl.window with
    | none => simp [expired, hw] at h
    | some window =>
      rw [← Bool.not_eq_true, rl.expired_iff now hw] at h
      simp only [remaining, Option.getD_some]
      omega

variable {rl}

theorem over_eq_false_iff :
    rl.overLimit c = false ↔
      (0 < rl.rpm → ((rl.charge c.now c.tokens).rCount : Int) ≤ rl.rpm) ∧
        (0 < rl.tpm → (rl.charge c.now c.tokens).tCount ≤ rl.tpm) := by
  simp only [overLimit, overRequests, overTokens,
    charge_rpm, charge_tpm, Bool.or_eq_false_iff, Bool.and_eq_false_imp, decide_eq_true_eq,
    decide_eq_false_iff_not, Int.not_lt]

theorem sleep_of_over (hoff : rl.off = false) (h : rl.overLimit c = true) :
    rl.sleep c = (rl.charge c.now c.tokens).remaining c.now := by
  have hpos := remaining_charge_pos rl c.now c.tokens
  simp only [overLimit, Bool.or_eq_true] at h
  simp only [sleep, hoff, delay, Bool.false_eq_true, if_false]
  rcases h with h | h <;> rw [h] <;> simp only [if_true] <;> split <;> omega

theorem sleep_of_not_over (h : rl.overLimit c = false) : rl.sleep c = 0 := by
  simp only [overLimit, Bool.or_eq_false_iff] at h
  simp [sleep, delay, h.1, h.2]

theorem sleep_pos_iff (hoff : rl.off = false) : 0 < rl.sleep c ↔ rl.overLimit c = true := by
  cases h : rl.overLimit c with
  | true =>
    rw [sleep_of_over hoff h]
    exact iff_of_true (remaining_charge_pos rl c.now c.tokens) rfl
  | false =>
    rw [sleep_of_not_over h]
    simp

theorem delay_nonpos_iff (hoff : rl.off = false) :
    (rl.charge c.now c.tokens).delay c.now ≤ 0 ↔ rl.overLimit c = false := by
  have hsleep := sleep_pos_iff (c := c) hoff
  simp only [sleep, hoff, Bool.false_eq_true, if_false] at hsleep
  rw [← Bool.not_eq_true, ← hsleep]
  omega

theorem wait_of_not_over (hoff : rl.off = false) (h : rl.overLimit c = false) :
    rl.wait c = (rl.charge c.now c.tokens, none) := by
  simp only [wait, hoff, (delay_nonpos_iff hoff).mpr h, Bool.false_eq_true, if_false, if_true]

theorem wait_of_done {at_ : Int} {err : Err} (hoff : rl.off = false) (h : rl.overLimit c = true)
    (hexit : c.exit = .done at_ err) : rl.wait c = (rl.charge c.now c.tokens, some err) := by
  have hdelay := mt (delay_nonpos_iff hoff).mp (by rw [h]; simp)
  simp only [wait, hoff, hdelay, hexit, Bool.false_eq_true, if_false]

theorem wait_of_after (hoff : rl.off = false) (h : rl.overLimit c = true)
    (hexit : c.exit = .after wake) : rl.wait c = ((rl.charge c.now c.tokens).reset wake, none) := by
  have hdelay := mt (delay_nonpos_iff hoff).mp (by rw [h]; simp)
  simp only [wait, hoff, hdelay, hexit, Bool.false_eq_true, if_false]

theorem wait_limits (c : WaitCall) : (rl.wait c).1.rpm = rl.rpm ∧ (rl.wait c).1.tpm = rl.tpm := by
  have hcharge := And.intro (rl.charge_rpm c.now c.tokens) (rl.charge_tpm c.now c.tokens)
  simp only [wait]
  split
  · exact ⟨rfl, rfl⟩
  · split
    · exact hcharge
    · split <;> exact hcharge

end RateLimiter

namespace LimiterState

variable {s s' : LimiterState} {c : WaitCall}

theorem after_of_not_over (hoff : s.rl.off = false) (h : s.rl.overLimit c = false) :
    s.after c =
      { rl := s.rl.charge c.now c.tokens
        clock := c.now
        slept := s.slept && !s.rl.expired c.now
        cancelled := s.cancelledIn c.now
        admitted := s.admitted ++ [(s.rl.charge c.now c.tokens).window] } := by
  simp [after, RateLimiter.wait_of_not_over hoff h, WaitCall.returned,
    RateLimiter.sleep_of_not_over h]

theorem after_of_done {at_ : Int} {err : Err} (hoff : s.rl.off = false)
    (h : s.rl.overLimit c = true) (hexit : c.exit = .done at_ err) :
    s.after c =
      { rl := s.rl.charge c.now c.tokens
        clock := at_
        slept := s.slept && !s.rl.expired c.now
        cancelled := s.cancelledIn c.now + 1
        admitted := s.admitted } := by
  have hsleep := Int.not_le.mpr ((RateLimiter.sleep_pos_iff hoff).mpr h)
  simp [after, RateLimiter.wait_of_done hoff h hexit, WaitCall.returned, hexit, hsleep]

theorem after_of_after (hoff : s.rl.off = false)
    (h : s.rl.overLimit c = true) (hexit : c.exit = .after wake) :
    s.after c =
      { rl := (s.rl.charge c.now c.tokens).reset wake
        clock := wake
        slept := true
        cancelled := 0
        admitted := s.admitted ++ [some wake] } := by
  have hpos := (RateLimiter.sleep_pos_iff hoff).mpr h
  have hsleep := Int.not_le.mpr hpos
  simp [after, RateLimiter.wait_of_after hoff h hexit, WaitCall.returned, hexit, hpos, hsleep,
    RateLimiter.reset]

theorem step_eq_some : s.step c = some s' ↔ c.feasible s.rl s.clock = true ∧ s' = s.after c := by
  simp only [step, Option.ite_none_right_eq_some, Option.some.injEq]
  exact and_congr_right fun _ => eq_comm

end LimiterState

/-! ## Requests admitted in one window -/

/-- `admitted` against the counter of the window in force: nothing of a later
window, and of this one the calls charged to it without the cancelled ones, and
the sleeper that opened it. -/
structure Booked (s : LimiterState) : Prop where
  recent : ∀ tag ∈ s.admitted, ∃ w w', tag = some w' ∧ s.rl.window = some w ∧ w' ≤ w
  counted : s.admitted.count s.rl.window + s.cancelled = s.rl.rCount + s.slept.toNat

/-- No window has let more calls through than `rpm`. -/
def WithinRpm (s : LimiterState) : Prop := ∀ w : Int, (s.admitted.count (some w) : Int) ≤ s.rl.rpm

/-- The call is not one that is let through at once as the last one there is a
count for, in a window that a sleeper opened and in which no call was cancelled. -/
def SpareRequest (s : LimiterState) (c : WaitCall) : Prop :=
  ¬ (s.slept = true ∧ s.cancelled = 0 ∧ s.rl.expired c.now = false ∧
    (s.rl.rCount : Int) + 1 = s.rl.rpm ∧ (s.rl.tpm ≤ 0 ∨ s.rl.tCount + c.tokens ≤ s.rl.tpm))

instance (s : LimiterState) (c : WaitCall) : Decidable (SpareRequest s c) :=
  inferInstanceAs (Decidable (¬ _))

section Steps

variable {s s' : LimiterState} {c : WaitCall}

theorem Booked.count_later (h : Booked s) {now : Int}
    (hlater : ∀ w, s.rl.window = some w → w < now) : s.admitted.count (some now) = 0 := by
  rw [List.count_eq_zero]
  intro hmem
  obtain ⟨w, w', htag, hw, hle⟩ := h.recent _ hmem
  rw [Option.some.injEq] at htag
  have := hlater w hw
  omega

theorem window_lt_of_expired {rl : RateLimiter} {now : Int} (hexp : rl.expired now = true) (w : Int)
    (hw : rl.window = some w) : w < now := by
  have hle := (rl.expired_iff now hw).mp hexp
  simp only [minute] at hle
  omega

theorem window_lt_wake {clock : Int} (hoff : s.rl.off = false) (hover : s.rl.overLimit c = true)
    (hexit : c.exit = .after wake) (hf : c.feasible s.rl clock = true) (w : Int)
    (hw : s.rl.window = some w) : w < wake := by
  simp only [WaitCall.feasible, hexit, Bool.and_eq_true, decide_eq_true_eq] at hf
  have hwake := hf.2
  rw [RateLimiter.sleep_of_over hoff hover, RateLimiter.remaining] at hwake
  cases hexp : s.rl.expired c.now with
  | true =>
    have hlt := window_lt_of_expired hexp w hw
    rw [RateLimiter.charge_of_expired _ _ _ hexp, Option.getD_some, minute] at hwake
    omega
  | false =>
    rw [RateLimiter.charge_of_not_expired _ _ _ hexp, hw, Option.getD_some, minute] at hwake
    omega

theorem Booked.recent_charge (h : Booked s) (now tokens : Int) :
    ∀ tag ∈ s.admitted, ∃ w w', tag = some w' ∧ (s.rl.charge now tokens).window = some w ∧
      w' ≤ w := by
  intro tag hmem
  obtain ⟨w, w', htag, hw, hle⟩ := h.recent tag hmem
  cases hexp : s.rl.expired now with
  | true =>
    have hlt := window_lt_of_expired hexp w hw
    rw [RateLimiter.charge_of_expired _ _ _ hexp]
    exact ⟨now, w', htag, rfl, by omega⟩
  | false =>
    rw [RateLimiter.charge_of_not_expired _ _ _ hexp]
    exact ⟨w, w', htag, hw, hle⟩

theorem Booked.count_charge (h : Booked s) (now tokens : Int) :
    s.admitted.count (s.rl.charge now tokens).window + s.cancelledIn now + 1 =
      (s.rl.charge now tokens).rCount + (s.slept && !s.rl.expired now).toNat := by
  cases hexp : s.rl.expired now with
  | true =>
    have hnone := h.count_later (window_lt_of_expired hexp)
    rw [RateLimiter.charge_of_expired _ _ _ hexp]
    simp [hnone, LimiterState.cancelledIn, hexp]
  | false =>
    have hcounted := h.counted
    rw [RateLimiter.charge_of_not_expired _ _ _ hexp]
    simp only [LimiterState.cancelledIn, hexp, Bool.not_false, Bool.and_true, Bool.false_eq_true,
      if_false]
    omega

theorem exists_charge_window (rl : RateLimiter) (now tokens : Int) :
    ∃ w, (rl.charge now tokens).window = some w := by
  cases hexp : rl.expired now with
  | true =>
    rw [RateLimiter.charge_of_expired _ _ _ hexp]
    exact ⟨now, rfl⟩
  | false =>
    rw [RateLimiter.charge_of_not_expired _ _ _ hexp]
    cases hw : rl.window with
    | none => simp [RateLimiter.expired, hw] at hexp
    | some w => exact ⟨w, rfl⟩

theorem recent_snoc {admitted : List (Option Int)} {w : Int}
    (h : ∀ tag ∈ admitted, ∃ w', tag = some w' ∧ w' ≤ w) :
    ∀ tag ∈ admitted ++ [some w], ∃ v w', tag = some w' ∧ some w = some v ∧ w' ≤ v := by
  intro tag hmem
  rcases List.mem_append.mp hmem with hold | hnew
  · obtain ⟨w', htag, hle⟩ := h tag hold
    exact ⟨w, w', htag, rfl, hle⟩
  · exact ⟨w, w, List.mem_singleton.mp hnew, rfl, Int.le_refl w⟩

theorem Booked.step (h : Booked s) (hoff : s.rl.off = false) (hstep : s.step c = some s') :
    Booked s' := by
  obtain ⟨hf, rfl⟩ := LimiterState.step_eq_some.mp hstep
  have hrecent := h.recent_charge c.now c.tokens
  have hcount := h.count_charge c.now c.tokens
  cases hover : s.rl.overLimit c with
  | false =>
    rw [LimiterState.after_of_not_over hoff hover]
    obtain ⟨w, hw⟩ := exists_charge_window s.rl c.now c.tokens
    refine ⟨?_, ?_⟩
    · rw [hw]
      refine recent_snoc ?_
      intro tag hmem
      obtain ⟨v, w', htag, hv, hle⟩ := hrecent tag hmem
      rw [hw, Option.some.injEq] at hv
      exact ⟨w', htag, by omega⟩
    · rw [List.count_append, List.count_singleton_self]
      dsimp only
      omega
  | true =>
    cases hexit : c.exit with
    | done at_ err =>
      rw [LimiterState.after_of_done hoff hover hexit]
      exact ⟨hrecent, by omega⟩
    | after wake =>
      rw [LimiterState.after_of_after hoff hover hexit]
      have hlater := window_lt_wake hoff hover hexit hf
      refine ⟨?_, ?_⟩
      · refine recent_snoc ?_
        intro tag hmem
        obtain ⟨v, w', htag, hv, hle⟩ := h.recent tag hmem
        have := hlater v hv
        exact ⟨w', htag, by omega⟩
      · change (s.admitted ++ [some wake]).count (some wake) + 0 = 0 + 1
        rw [List.count_append, List.count_singleton_self, h.count_later hlater]

theorem within_snoc {admitted : List (Option Int)} {rpm : Int}
    (h : ∀ w : Int, (admitted.count (some w) : Int) ≤ rpm) (v : Int) :
    (∀ w : Int, ((admitted ++ [some v]).count (some w) : Int) ≤ rpm) ↔
      (admitted.count (some v) : Int) + 1 ≤ rpm := by
  constructor
  · intro hall
    have hv := hall v
    rw [List.count_append, List.count_singleton_self] at hv
    omega
  · intro hroom w
    have hw := h w
    rw [List.count_append]
    by_cases heq : w = v
    · subst heq
      rw [List.count_singleton_self]
      omega
    · rw [List.count_singleton, if_neg (by simp; omega)]
      exact hw

theorem spareRequest_of_over (hover : s.rl.overLimit c = true) : SpareRequest s c := by
  rintro ⟨_, _, hexp, hlast, htokens⟩
  have hnot : ¬ s.rl.overLimit c = false := by rw [hover]; simp
  apply hnot
  rw [RateLimiter.over_eq_false_iff, RateLimiter.charge_of_not_expired _ _ _ hexp]
  refine ⟨fun _ => Int.le_of_eq hlast, ?_⟩
  intro hpos
  exact htokens.resolve_left (Int.not_le.mpr hpos)

theorem spareRequest_iff_room (h : Booked s) (hrpm : 0 < s.rl.rpm)
    (hover : s.rl.overLimit c = false) :
    SpareRequest s c ↔
      (s.admitted.count (s.rl.charge c.now c.tokens).window : Int) + 1 ≤ s.rl.rpm := by
  have hcount := h.count_charge c.now c.tokens
  obtain ⟨hrequests, htokens⟩ := RateLimiter.over_eq_false_iff.mp hover
  have hlimit := hrequests hrpm
  cases hexp : s.rl.expired c.now with
  | true =>
    refine iff_of_true (fun hnot => absurd hnot.2.2.1 (by rw [hexp]; simp)) ?_
    have hnone := h.count_later (window_lt_of_expired hexp)
    rw [RateLimiter.charge_of_expired _ _ _ hexp]
    change (s.admitted.count (some c.now) : Int) + 1 ≤ s.rl.rpm
    omega
  | false =>
    rw [RateLimiter.charge_of_not_expired _ _ _ hexp] at hcount hlimit htokens ⊢
    simp only [LimiterState.cancelledIn, hexp, Bool.not_false, Bool.and_true, Bool.false_eq_true,
      if_false] at hcount
    have htpm : s.rl.tpm ≤ 0 ∨ s.rl.tCount + c.tokens ≤ s.rl.tpm := by
      rcases Int.lt_or_le 0 s.rl.tpm with hpos | hneg
      · exact Or.inr (htokens hpos)
      · exact Or.inl hneg
    simp only [SpareRequest, hexp, htpm, true_and, and_true]
    simp only at hlimit ⊢
    cases hslept : s.slept with
    | false =>
      rw [hslept, Bool.toNat_false] at hcount
      simp only [Bool.false_eq_true, false_and, not_false_eq_true, true_iff]
      omega
    | true =>
      rw [hslept, Bool.toNat_true] at hcount
      simp only [true_and]
      omega

theorem spareRequest_iff_within (h : Booked s) (hin : WithinRpm s) (hrpm : 0 < s.rl.rpm)
    (hoff : s.rl.off = false) (hstep : s.step c = some s') : SpareRequest s c ↔ WithinRpm s' := by
  obtain ⟨hf, rfl⟩ := LimiterState.step_eq_some.mp hstep
  cases hover : s.rl.overLimit c with
  | false =>
    rw [spareRequest_iff_room h hrpm hover, LimiterState.after_of_not_over hoff hover]
    obtain ⟨w, hw⟩ := exists_charge_window s.rl c.now c.tokens
    simp only [WithinRpm, hw, RateLimiter.charge_rpm]
    exact (within_snoc hin w).symm
  | true =>
    refine iff_of_true (spareRequest_of_over hover) ?_
    cases hexit : c.exit with
    | done at_ err =>
      rw [LimiterState.after_of_done hoff hover hexit]
      simp only [WithinRpm, RateLimiter.charge_rpm]
      exact hin
    | after wake =>
      rw [LimiterState.after_of_after hoff hover hexit]
      have hnone := h.count_later (window_lt_wake hoff hover hexit hf)
      simp only [WithinRpm, RateLimiter.reset, RateLimiter.charge_rpm]
      refine (within_snoc hin wake).mpr ?_
      omega

theorem off_eq_false {rl : RateLimiter} (hrpm : 0 < rl.rpm) : rl.off = false := by
  simp only [RateLimiter.off, Bool.and_eq_false_imp, decide_eq_true_eq]
  intro hle
  omega

end Steps

/-- The windows of a run all stay within the limit exactly if its calls are all
spare. -/
theorem admitted_within_iff {rpm tpm start : Int} (hrpm : 0 < rpm) {calls : List WaitCall}
    (hrun : ((limiterMachine rpm tpm start).run (limiterMachine rpm tpm start).init
      calls).isSome = true) :
    (limiterMachine rpm tpm start).Along SpareRequest (limiterMachine rpm tpm start).init calls ↔
      ∀ front s, front <+: calls →
        (limiterMachine rpm tpm start).run (limiterMachine rpm tpm start).init front = some s →
          ∀ w : Int, (s.admitted.count (some w) : Int) ≤ rpm := by
  have hkeeps : ∀ (s : LimiterState) (c : WaitCall) (s' : LimiterState),
      (s.rl.rpm = rpm ∧ Booked s) → s.step c = some s' → s'.rl.rpm = rpm ∧ Booked s' := by
    rintro s c s' ⟨rfl, hb⟩ hstep
    refine ⟨?_, hb.step (off_eq_false hrpm) hstep⟩
    obtain ⟨_, rfl⟩ := LimiterState.step_eq_some.mp hstep
    exact (RateLimiter.wait_limits c).1
  refine Machine.along_iff _ hkeeps ?_ ?_ ?_ hrun
  · rintro s c s' ⟨rfl, hb⟩ hin hstep
    have hs' := (hkeeps s c s' ⟨rfl, hb⟩ hstep).1
    rw [spareRequest_iff_within hb hin hrpm (off_eq_false hrpm) hstep, WithinRpm, hs']
  · refine ⟨rfl, ?_, rfl⟩
    intro tag hmem
    cases hmem
  · intro w
    exact Int.le_of_lt hrpm

/-- Two calls a minute: the first two are let through, the third sleeps into a
window of its own. -/
theorem admitted_within_iff_two :
    (limiterMachine 2 0 0).Along SpareRequest (limiterMachine 2 0 0).init
        [⟨0, 5, .done 0 .canceled⟩, ⟨1, 5, .done 1 .canceled⟩, ⟨2, 5, .after 60000000000⟩] ↔
      ∀ front s, front <+: [⟨0, 5, .done 0 .canceled⟩, ⟨1, 5, .done 1 .canceled⟩,
          ⟨2, 5, .after 60000000000⟩] →
        (limiterMachine 2 0 0).run (limiterMachine 2 0 0).init front = some s →
          ∀ w : Int, (s.admitted.count (some w) : Int) ≤ 2 :=
  admitted_within_iff (by decide) (by decide)

/-- One call a minute.  The second call sleeps and opens the second minute; the
third comes a second later, finds the counter at zero and is let through. -/
theorem sleeper_not_counted :
    ∃ s, (limiterMachine 1 0 0).run (limiterMachine 1 0 0).init
        [⟨0, 5, .done 0 .canceled⟩, ⟨1000000000, 5, .after 60000000000⟩,
          ⟨61000000000, 5, .done 61000000000 .canceled⟩] = some s ∧
      ¬ (s.admitted.count (some 60000000000) : Int) ≤ 1 :=
  ⟨_, rfl, by decide⟩

end MiniGoAgent

/-
# `Protocol.Backoff` — how long to wait before the next attempt (`retry.go`)

`backoffDelay` doubles half a second with every attempt up to a cap of fifteen
seconds, or does what the server asks for in `Retry-After`, up to the same cap.
Both are computed in nanoseconds before the cap is applied, in 64 bits: the number of
attempts is bounded by the configuration only, the number of seconds by the server
only, and large ones wrap.

`delayRight_iff` says for which attempts and which headers the delay is the one
meant.
-/
import Mathlib.Algebra.Order.Ring.Int
import Mathlib.Tactic.Ring
import MiniGoAgent.Go.Num

open Go

namespace MiniGoAgent

variable {header : Str} {a s : Nat}

/-! ## The code -/

/-- `time.Millisecond`, `time.Second`: a `time.Duration` counts nanoseconds. -/
def millisecond : Int := 1000000
def second : Int := 1000000000

def maxBackoff : Int := 15 * second

/-- `backoffDelay`; `jitter` is what `rand.Intn(250)` returns.  A negative shift
count panics, which is `none`. -/
def backoffDelay (attempt retryAfter : Int) (jitter : Fin 250) : Option Int :=
  if 0 < retryAfter then
    some (if maxBackoff < retryAfter then maxBackoff else retryAfter)
  else if attempt - 1 < 0 then none
  else
    let d := wrap64 (wrap64 (wrap64 (2 ^ (attempt - 1).toNat) * 500) * millisecond)
    let d := if maxBackoff < d then maxBackoff else d
    some (wrap64 (d + jitter.val * millisecond))

/-- `parseRetryAfter`, on the value of the header (empty when there is none). -/
def parseRetryAfter (header : Str) : Int :=
  let v := trimSpace header
  if v = [] then 0
  else
    match atoi v with
    | some secs => if 0 ≤ secs then wrap64 (secs * second) else 0
    | none => 0

/-! ## What is meant -/

/-- The header asks for `s` seconds; no header asks for none. -/
inductive RetryAfter : Str → Nat → Prop
  | absent (header : Str) (h : trimSpace header = []) : RetryAfter header 0
  | seconds (header : Str) (h : IsDecimal (trimSpace header)) :
      RetryAfter header (decimal (trimSpace header))

/-- The delay before attempt `a` by doubling, in exact arithmetic. -/
def doubled (a : Nat) : Int := min (2 ^ (a - 1) * (500 * millisecond)) maxBackoff

/-- The delay before attempt `a`, the server asking for `s` seconds, whatever the
random part is. -/
def DelayRight (a : Nat) (header : Str) (s : Nat) : Prop :=
  ∀ jitter, ∃ d, backoffDelay a (parseRetryAfter header) jitter = some d ∧
    (0 < s → d = min s 15 * second) ∧
    (s = 0 → doubled a ≤ d ∧ d ≤ doubled a + 250 * millisecond) ∧
    0 < d ∧ d ≤ maxBackoff + 250 * millisecond

/-- The attempts whose doubled delay, in 64 bits, is not below the cap it exceeds. -/
def attemptFits (a : Nat) : Prop := a ≤ 35 ∨ a ∈ [39, 43, 44, 47, 49, 52, 53, 55]

/-- The number of seconds is an `int`, and as nanoseconds it either fits as well or
wraps to no less than the cap. -/
def secondsFit (s : Nat) : Prop :=
  s < 2 ^ 63 ∧ (s ≤ 9223372036 ∨ maxBackoff ≤ wrap64 (s * second))

/-! ## The delay in one formula -/

theorem parseRetryAfter_eq (h : RetryAfter header s) :
    parseRetryAfter header = if s < 2 ^ 63 then wrap64 (s * second) else 0 := by
  cases h with
  | absent h =>
    rw [parseRetryAfter, if_pos h]
    decide
  | seconds h =>
    simp only [parseRetryAfter, if_neg h.1, atoi_decimal h]
    by_cases hs : decimal (trimSpace header) < 2 ^ 63
    · simp only [if_pos hs, if_pos (Int.natCast_nonneg _)]
    · simp only [if_neg hs]

/-- The doubled delay as the code has it. -/
def wrapped (a : Nat) : Int := wrap64 (2 ^ (a - 1) * (500 * millisecond))

theorem capped_eq (d : Int) : (if maxBackoff < d then maxBackoff else d) = min d maxBackoff := by
  by_cases h : maxBackoff < d
  · rw [if_pos h]
    omega
  · rw [if_neg h]
    omega

theorem backoffDelay_eq (ha : 1 ≤ a) (retryAfter : Int) (jitter : Fin 250) :
    backoffDelay a retryAfter jitter =
      some (if 0 < retryAfter then min retryAfter maxBackoff
        else min (wrapped a) maxBackoff + jitter.val * millisecond) := by
  rw [backoffDelay]
  by_cases hafter : 0 < retryAfter
  · rw [if_pos hafter, if_pos hafter, capped_eq]
  · have hshift : ¬ ((a : Int) - 1 < 0) := by omega
    have hcount : ((a : Int) - 1).toNat = a - 1 := by omega
    have hd : wrap64 (wrap64 (wrap64 (2 ^ (a - 1)) * 500) * millisecond) = wrapped a := by
      rw [wrap64_wrap64_mul, mul_assoc, wrap64_wrap64_mul, wrapped]
    have hrange := wrap64_range (2 ^ (a - 1) * (500 * millisecond))
    have hjitter := jitter.isLt
    rw [← wrapped] at hrange
    rw [if_neg hafter, if_neg hafter, if_neg hshift]
    simp only [hcount, hd, capped_eq]
    rw [wrap64_eq_self]
    · simp only [millisecond, maxBackoff, second] at hrange ⊢
      omega
    · simp only [millisecond, maxBackoff, second] at hrange ⊢
      omega

/-! ## Doubling -/

theorem le_wrapped_iff (ha : 6 ≤ a) : maxBackoff ≤ wrapped a ↔ attemptFits a := by
  by_cases hsmall : a < 57
  · have hall : ∀ a < 57, 6 ≤ a → (maxBackoff ≤ wrapped a ↔
        a ≤ 35 ∨ a ∈ [39, 43, 44, 47, 49, 52, 53, 55]) := by decide +kernel
    exact hall a hsmall ha
  · -- 500 ms is a multiple of 2^8 nanoseconds, so from here on nothing is left
    have hzero : wrapped a = 0 := by
      apply wrap64_of_dvd
      obtain ⟨k, rfl⟩ := Nat.exists_eq_add_of_le (Nat.not_lt.mp hsmall)
      refine ⟨2 ^ k * 1953125, ?_⟩
      rw [show 57 + k - 1 = 56 + k by omega, pow_add]
      simp only [millisecond]
      ring
    rw [hzero]
    refine iff_of_false (by decide) ?_
    rintro (h | h)
    · omega
    · have hle : ∀ b ∈ [39, 43, 44, 47, 49, 52, 53, 55], b ≤ 55 := by decide
      have := hle a h
      omega

theorem doubled_of_le (ha : a ≤ 5) : wrapped a = doubled a ∧ wrapped a ≤ maxBackoff := by
  have hall : ∀ a ≤ 5, wrapped a = doubled a ∧ wrapped a ≤ maxBackoff := by decide
  exact hall a ha

theorem doubled_of_ge (ha : 6 ≤ a) : doubled a = maxBackoff := by
  have hpow : (2 : Int) ^ 5 ≤ 2 ^ (a - 1) := pow_le_pow_right₀ (by decide) (by omega)
  simp only [doubled, millisecond, maxBackoff, second]
  omega

theorem doubled_eq_iff (a : Nat) : doubled a = min (wrapped a) maxBackoff ↔ attemptFits a := by
  by_cases ha : a ≤ 5
  · obtain ⟨heq, hle⟩ := doubled_of_le ha
    refine iff_of_true ?_ (Or.inl (by omega))
    rw [heq] at hle ⊢
    exact (min_eq_left hle).symm
  · have ha : 6 ≤ a := by omega
    rw [doubled_of_ge ha, ← le_wrapped_iff ha]
    exact right_eq_inf

theorem doubled_pos (a : Nat) : 0 < doubled a ∧ doubled a ≤ maxBackoff := by
  have hpow : (0 : Int) < 2 ^ (a - 1) := pow_pos (by decide) _
  simp only [doubled, millisecond, maxBackoff, second]
  omega

/-! ## The delay is the one meant -/

theorem delayRight_doubling (ha : 1 ≤ a)
    (h : parseRetryAfter header = 0) : DelayRight a header 0 ↔ attemptFits a := by
  have hpos := doubled_pos a
  rw [← doubled_eq_iff]
  constructor
  · intro hright
    obtain ⟨d, hd, -, hbounds, -⟩ := hright 0
    rw [h, backoffDelay_eq ha, if_neg (by decide), Option.some.injEq] at hd
    have hlow := (hbounds rfl).1
    by_cases hsmall : a ≤ 5
    · exact (doubled_eq_iff a).mpr (Or.inl (by omega))
    · rw [doubled_of_ge (by omega)] at hlow ⊢
      have hzero : ((0 : Fin 250).val : Int) * millisecond = 0 := rfl
      rw [hzero] at hd
      omega
  · intro heq jitter
    have hjitter := jitter.isLt
    refine ⟨doubled a + jitter.val * millisecond, ?_, ?_, ?_, ?_⟩
    · rw [h, backoffDelay_eq ha, if_neg (by decide), heq]
    · intro hs
      exact absurd hs (by decide)
    · intro _
      simp only [millisecond]
      omega
    · simp only [millisecond]
      omega

theorem not_delayRight (ha : 1 ≤ a) (hs : 0 < s)
    (h : parseRetryAfter header ≤ 0) : ¬ DelayRight a header s := by
  intro hright
  obtain ⟨d, hd, hexact, -⟩ := hright 0
  obtain ⟨d', hd', hexact', -⟩ := hright 1
  rw [backoffDelay_eq ha, if_neg (by omega), Option.some.injEq] at hd hd'
  have heq : d = d' := (hexact hs).trans (hexact' hs).symm
  have hzero : ((0 : Fin 250).val : Int) * millisecond = 0 := rfl
  have hone : ((1 : Fin 250).val : Int) * millisecond = 1000000 := rfl
  omega

theorem delayRight_asked (ha : 1 ≤ a) (hs : 0 < s) (h : 0 < parseRetryAfter header) :
    DelayRight a header s ↔ min (parseRetryAfter header) maxBackoff = min s 15 * second := by
  constructor
  · intro hright
    obtain ⟨d, hd, hexact, -⟩ := hright 0
    rw [backoffDelay_eq ha, if_pos h, Option.some.injEq] at hd
    rw [hd]
    exact hexact hs
  · intro heq jitter
    refine ⟨min (parseRetryAfter header) maxBackoff, ?_, fun _ => heq, ?_, ?_⟩
    · rw [backoffDelay_eq ha, if_pos h]
    · intro hzero
      omega
    · simp only [maxBackoff, second, millisecond]
      omega

theorem secondsFit_iff (hs : 0 < s) (hint : s < 2 ^ 63) :
    secondsFit s ↔
      0 < wrap64 (s * second) ∧ min (wrap64 (s * second)) maxBackoff = min s 15 * second := by
  rw [secondsFit, and_iff_right hint]
  by_cases hsmall : s ≤ 9223372036
  · have hexact : wrap64 (s * second) = s * second := by
      apply wrap64_eq_self
      · simp only [second]
        omega
      · simp only [second]
        omega
    refine iff_of_true (Or.inl hsmall) ?_
    rw [hexact]
    simp only [second, maxBackoff]
    omega
  · rw [or_iff_right hsmall]
    simp only [second, maxBackoff]
    omega

theorem delayRight_seconds (ha : 1 ≤ a) (hs : 0 < s)
    (h : parseRetryAfter header = if s < 2 ^ 63 then wrap64 (s * second) else 0) :
    DelayRight a header s ↔ secondsFit s := by
  by_cases hint : s < 2 ^ 63
  · rw [if_pos hint] at h
    rw [secondsFit_iff hs hint, ← h]
    by_cases hpos : 0 < parseRetryAfter header
    · rw [delayRight_asked ha hs hpos, and_iff_right hpos]
    · exact iff_of_false (not_delayRight ha hs (by omega)) (fun hfit => hpos hfit.1)
  · rw [if_neg hint] at h
    exact iff_of_false (not_delayRight ha hs (by omega)) (fun hfit => hint hfit.1)

/-- The delay is the one meant exactly for these attempts, when the server asks for
nothing, and exactly for these numbers of seconds, when it asks for some. -/
theorem delayRight_iff {a : Nat} (ha : 1 ≤ a) {header : Str} {s : Nat} (h : RetryAfter header s) :
    DelayRight a header s ↔ (s = 0 → attemptFits a) ∧ (0 < s → secondsFit s) := by
  have hparse := parseRetryAfter_eq h
  by_cases hs : s = 0
  · subst hs
    rw [delayRight_doubling ha (by rw [hparse]; decide)]
    exact ⟨fun hfits => ⟨fun _ => hfits, fun hpos => absurd hpos (by decide)⟩,
      fun hfits => hfits.1 rfl⟩
  · have hpos : 0 < s := Nat.pos_of_ne_zero hs
    rw [delayRight_seconds ha hpos hparse]
    exact ⟨fun hfits => ⟨fun hzero => absurd hzero hs, fun _ => hfits⟩, fun hfits => hfits.2 hpos⟩

/-- Attempt 3 without a request, and attempt 1 with one for 120 seconds. -/
theorem delayRight_small : DelayRight 3 [] 0 ∧ DelayRight 1 (lit "120") (decimal (lit "120")) :=
  ⟨(delayRight_iff (by decide) (.absent [] (by decide))).mpr
      ⟨fun _ => Or.inl (by decide), fun h => absurd h (by decide)⟩,
    (delayRight_iff (by decide) (.seconds (lit "120") ⟨by decide, by decide⟩)).mpr
      ⟨fun h => absurd h (by decide), fun _ => ⟨by decide, Or.inl (by decide)⟩⟩⟩

/-- Attempt 36 waits for a negative time, attempt 57 for the random part only, and a
server that asks for 18446744074 seconds is waited for 0.29 seconds. -/
theorem delay_wraps :
    backoffDelay 36 0 0 = some (-1266874889709551616) ∧ backoffDelay 57 0 0 = some 0 ∧
      backoffDelay 1 (parseRetryAfter (lit "18446744074")) 0 = some 290448384 ∧
      ¬ DelayRight 36 [] 0 := by
  have hnegative : backoffDelay 36 0 0 = some (-1266874889709551616) := by decide +kernel
  refine ⟨hnegative, by decide +kernel, by decide +kernel, ?_⟩
  intro hright
  obtain ⟨d, hd, -, -, hpos, -⟩ := hright 0
  have hd : backoffDelay 36 0 0 = some d := hd
  rw [hnegative, Option.some.injEq] at hd
  omega

end MiniGoAgent

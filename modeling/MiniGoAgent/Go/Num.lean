/-
# `Go.Num` — 64-bit integers and their decimal texts

`wrap64` is what an `int` or an `int64` holds after an operation; here are the rules
for leaving it out, and `strconv.Atoi`.
-/
import MiniGoAgent.Go.Str

namespace Go

theorem wrap64_eq_self {n : Int} (hlo : -2 ^ 63 ≤ n) (hhi : n < 2 ^ 63) : wrap64 n = n := by
  rw [wrap64]
  apply Int.bmod_eq_of_le_mul_two
  · show -(2 ^ 64 : Int) ≤ n * 2
    omega
  · show n * 2 < (2 ^ 64 : Int)
    omega

theorem wrap64_range (n : Int) : -2 ^ 63 ≤ wrap64 n ∧ wrap64 n < 2 ^ 63 := by
  have hlo : -((2 ^ 64 : Int) / 2) ≤ wrap64 n := Int.le_bmod (by decide)
  have hhi : wrap64 n < ((2 ^ 64 : Int) + 1) / 2 := Int.bmod_lt (by decide)
  omega

theorem wrap64_wrap64_mul (n m : Int) : wrap64 (wrap64 n * m) = wrap64 (n * m) :=
  Int.bmod_mul_bmod

theorem wrap64_of_dvd {n : Int} (h : (2 : Int) ^ 64 ∣ n) : wrap64 n = 0 := by
  rw [wrap64]
  exact Int.bmod_eq_zero_of_dvd h

/-- `strconv.Atoi`: an optional sign and decimal digits, `none` for an error (no
digits, another byte, or a value that is no `int`). -/
def atoi (s : Str) : Option Int :=
  let negative := hasPrefix s (lit "-")
  let digits := if negative || hasPrefix s (lit "+") then s.drop 1 else s
  let n : Int := if negative then -(decimal digits : Int) else decimal digits
  if digits ≠ [] ∧ digits.all isDigit ∧ -2 ^ 63 ≤ n ∧ n < 2 ^ 63 then some n else none

def IsDecimal (s : Str) : Prop := s ≠ [] ∧ s.all isDigit = true

theorem hasPrefix_sign {s : Str} (h : IsDecimal s) {c : UInt8} (hc : isDigit c = false) :
    hasPrefix s [c] = false := by
  rw [Bool.eq_false_iff]
  intro hp
  obtain ⟨t, rfl⟩ := hasPrefix_iff.mp hp
  have hdigit : isDigit c = true := List.all_eq_true.mp h.2 c List.mem_cons_self
  rw [hc] at hdigit
  exact Bool.false_ne_true hdigit

theorem atoi_decimal {s : Str} (h : IsDecimal s) :
    atoi s = if decimal s < 2 ^ 63 then some (decimal s : Int) else none := by
  have hminus : hasPrefix s (lit "-") = false := hasPrefix_sign h (by decide)
  have hplus : hasPrefix s (lit "+") = false := hasPrefix_sign h (by decide)
  have hrange : (-2 ^ 63 ≤ (decimal s : Int) ∧ (decimal s : Int) < 2 ^ 63) ↔
      decimal s < 2 ^ 63 := by
    omega
  simp only [atoi, hminus, hplus, Bool.or_self, Bool.false_eq_true, if_false, ne_eq, h.1,
    not_false_eq_true, h.2, true_and, hrange]

end Go

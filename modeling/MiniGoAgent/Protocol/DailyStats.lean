/-
# `Protocol.DailyStats` — the usage by day (`protocol/raw_query.go`, `protocol/usage_tracker.go`)

`Record` writes the time of a call as an RFC 3339 text, and `GetDailyStats` compares these
texts with the dates it is given.  A date is the beginning of the texts of its day, and so
smaller than each of them: the lower bound takes its day in, and the upper bound leaves its
day out.  The entries are right exactly if there is nothing to leave out
(`getDailyStats_right_iff`).

The database compares texts byte by byte, takes the day of a time from its first ten
bytes, and adds up without overflow.  The average is a parameter.
-/
import Mathlib.Data.List.Dedup
import Mathlib.Data.List.Sort
import MiniGoAgent.Go.Str

open Go

namespace MiniGoAgent

namespace Usage

/-! ## Dates and times -/

def pad : Nat → Nat → Str
  | 0, _ => []
  | w + 1, n => (0x30 + UInt8.ofNat (n / 10 ^ w % 10)) :: pad w n

def daysIn (year month : Nat) : Nat :=
  if month = 2 then
    if year % 4 = 0 ∧ (year % 100 ≠ 0 ∨ year % 400 = 0) then 29 else 28
  else if month = 4 ∨ month = 6 ∨ month = 9 ∨ month = 11 then 30
  else 31

/-- A date of the calendar, with a year of four digits. -/
structure Date where
  year : Nat
  month : Nat
  day : Nat
  valid : year < 10000 ∧ 1 ≤ month ∧ month ≤ 12 ∧ 1 ≤ day ∧ day ≤ daysIn year month
  deriving DecidableEq

/-- A time of day, in UTC. -/
structure Timestamp where
  date : Date
  hour : Nat
  minute : Nat
  second : Nat

/-- `YYYY-MM-DD`. -/
def Date.text (d : Date) : Str :=
  pad 4 d.year ++ lit "-" ++ pad 2 d.month ++ lit "-" ++ pad 2 d.day

/-- `time.RFC3339`. -/
def Timestamp.text (t : Timestamp) : Str :=
  t.date.text ++ lit "T" ++ pad 2 t.hour ++ lit ":" ++ pad 2 t.minute ++ lit ":" ++
    pad 2 t.second ++ lit "Z"

def Date.Before (d e : Date) : Prop :=
  d.year < e.year ∨ d.year = e.year ∧ (d.month < e.month ∨ d.month = e.month ∧ d.day < e.day)

def Date.Upto (d e : Date) : Prop := d.Before e ∨ d = e

instance (d e : Date) : Decidable (d.Before e) := instDecidableOr

instance (d e : Date) : Decidable (d.Upto e) := instDecidableOr

/-! ## The table -/

/-- The columns of a row of `usage_records` that are read here. -/
structure Row (δ : Type) where
  model : Str
  duration : δ
  promptTokens : Int
  completionTokens : Int
  totalTokens : Int
  createdAt : Str

/-- A call of `Record`, with the time it is made at. -/
structure Call (δ : Type) where
  model : Str
  durSec : δ
  promptTks : Int
  completionTks : Int
  time : Timestamp

/-- `Record`: the row it writes. -/
def record {δ : Type} (c : Call δ) : Row δ where
  model := c.model
  duration := c.durSec
  promptTokens := c.promptTks
  completionTokens := c.completionTks
  totalTokens := wrap64 (c.promptTks + c.completionTks)
  createdAt := c.time.text

structure DailyUsage (δ : Type) where
  date : Str
  callCount : Nat
  avgDuration : δ
  totalTokens : Int
  totalPrompt : Int
  totalCompletion : Int
  modelCount : Nat

section Query

variable {δ : Type} (avg : List δ → δ)

/-- `DATE(created_at)`. -/
def Row.day (r : Row δ) : Str := r.createdAt.take 10

/-- The columns of the query, for a group of rows. -/
def usageOf (day : Str) (rows : List (Row δ)) : DailyUsage δ where
  date := day
  callCount := rows.length
  avgDuration := avg (rows.map (·.duration))
  totalTokens := (rows.map (·.totalTokens)).foldl (· + ·) 0
  totalPrompt := (rows.map (·.promptTokens)).foldl (· + ·) 0
  totalCompletion := (rows.map (·.completionTokens)).foldl (· + ·) 0
  modelCount := (rows.map (·.model)).dedup.length

/-- The `WHERE` clause: the conditions whose bound is given. -/
def conditions (since untilDay : Str) : List (Row δ → Bool) :=
  (if since ≠ [] then [fun r => decide (since ≤ r.createdAt)] else []) ++
    (if untilDay ≠ [] then [fun r => decide (r.createdAt ≤ untilDay)] else [])

def getDailyStats (rows : List (Row δ)) (since untilDay : Str) : List (DailyUsage δ) :=
  let rows := rows.filter fun r => (conditions since untilDay).all fun c => c r
  let days := (rows.map Row.day).dedup.insertionSort (fun d e => e ≤ d)
  days.map fun day => usageOf avg day (rows.filter fun r => r.day = day)

/-- One entry for each day in the bounds that has calls, over all of them. -/
structure DailyRight (calls : List (Call δ)) (since untilDay : Date)
    (stats : List (DailyUsage δ)) : Prop where
  once : (stats.map (·.date)).Nodup
  entries : ∀ e, e ∈ stats ↔ ∃ d : Date, since.Upto d ∧ d.Upto untilDay ∧
    (∃ c ∈ calls, c.time.date = d) ∧
    e = usageOf avg d.text ((calls.filter fun c => c.time.date = d).map record)

end Query

/-! ## Texts -/

theorem digit_order : ∀ d < 10, ∀ e < 10,
    ((0x30 + UInt8.ofNat d : UInt8) < 0x30 + UInt8.ofNat e ↔ d < e) ∧
      ((0x30 + UInt8.ofNat d : UInt8) = 0x30 + UInt8.ofNat e ↔ d = e) := by
  decide

theorem pad_append_le_iff (w a b : Nat) (x y : Str) :
    pad w a ++ x ≤ pad w b ++ y ↔
      a % 10 ^ w < b % 10 ^ w ∨ a % 10 ^ w = b % 10 ^ w ∧ x ≤ y := by
  induction w with
  | zero => simp [pad, Nat.mod_one]
  | succ w ih =>
    have ha : a / 10 ^ w % 10 < 10 := Nat.mod_lt _ (by decide)
    have hb : b / 10 ^ w % 10 < 10 := Nat.mod_lt _ (by decide)
    have hpos : 0 < 10 ^ w := Nat.pow_pos (by decide)
    have hra := Nat.mod_lt a hpos
    have hrb := Nat.mod_lt b hpos
    obtain ⟨hlt, heq⟩ := digit_order _ ha _ hb
    rw [pad, pad, List.cons_append, List.cons_append, List.cons_le_cons_iff, ih, hlt, heq,
      Nat.mod_pow_succ, Nat.mod_pow_succ]
    generalize a / 10 ^ w % 10 = p
    generalize b / 10 ^ w % 10 = q
    generalize a % 10 ^ w = r at hra
    generalize b % 10 ^ w = s at hrb
    generalize 10 ^ w = t at hra hrb
    have hfirst : ∀ {m n r s : Nat}, m < n → r < t → r + t * m < s + t * n := by
      intro m n r s hmn hr
      have hmul : t * (m + 1) ≤ t * n := Nat.mul_le_mul_left t hmn
      rw [Nat.mul_succ] at hmul
      omega
    rcases Nat.lt_trichotomy p q with h | rfl | h
    · exact iff_of_true (.inl h) (.inl (hfirst h hra))
    · simp
    · have hgt : s + t * q < r + t * p := hfirst h hrb
      exact iff_of_false (by omega) (by omega)

theorem Date.bounds (d : Date) : d.month < 100 ∧ d.day < 100 := by
  obtain ⟨_, _, hmonth, _, hday⟩ := d.valid
  have hdays : daysIn d.year d.month ≤ 31 := by
    unfold daysIn
    split <;> split <;> omega
  omega

theorem Date.ext' {d e : Date} (hyear : d.year = e.year) (hmonth : d.month = e.month)
    (hday : d.day = e.day) : d = e := by
  cases d
  cases e
  simp_all

theorem date_append_le_iff (d e : Date) (x y : Str) :
    d.text ++ x ≤ e.text ++ y ↔ d.Before e ∨ d = e ∧ x ≤ y := by
  have hyears := And.intro d.valid.1 e.valid.1
  have hd := d.bounds
  have he := e.bounds
  have hdash : ∀ x y : Str, lit "-" ++ x ≤ lit "-" ++ y ↔ x ≤ y := by
    intro x y
    show (_ :: x ≤ _ :: y) ↔ _
    rw [List.cons_le_cons_iff]
    simp
  unfold Date.text Date.Before
  simp only [List.append_assoc, pad_append_le_iff, hdash]
  rw [Nat.mod_eq_of_lt (by omega), Nat.mod_eq_of_lt (by omega), Nat.mod_eq_of_lt (by omega),
    Nat.mod_eq_of_lt (by omega), Nat.mod_eq_of_lt (by omega), Nat.mod_eq_of_lt (by omega)]
  have hsame : d = e ↔ d.year = e.year ∧ d.month = e.month ∧ d.day = e.day := by
    refine ⟨by rintro rfl; exact ⟨rfl, rfl, rfl⟩, fun h => Date.ext' h.1 h.2.1 h.2.2⟩
  rw [hsame]
  tauto

theorem Date.text_inj {d e : Date} (h : d.text = e.text) : d = e := by
  have hde := (date_append_le_iff d e [] []).mp (by rw [h]; exact List.le_refl _)
  have hed := (date_append_le_iff e d [] []).mp (by rw [h]; exact List.le_refl _)
  unfold Date.Before at hde hed
  rcases hde with hlt | ⟨rfl, _⟩
  · rcases hed with hgt | ⟨rfl, _⟩
    · omega
    · rfl
  · rfl

theorem length_pad (w n : Nat) : (pad w n).length = w := by
  induction w with
  | zero => rfl
  | succ w ih => rw [pad, List.length_cons, ih]

/-! ## The query -/

section Query

variable {δ : Type}

theorem day_record (c : Call δ) : (record c).day = c.time.date.text := by
  have hlen : c.time.date.text.length = 10 := by
    simp only [Date.text, List.length_append, length_pad]
    rfl
  unfold Row.day record Timestamp.text
  simp only [List.append_assoc]
  exact List.take_left' hlen

theorem conditions_record (c : Call δ) (since untilDay : Date) :
    ((conditions since.text untilDay.text).all fun cond => cond (record c)) = true ↔
      since.Upto c.time.date ∧ c.time.date.Before untilDay := by
  have hne : ∀ d : Date, d.text ≠ [] := by
    intro d
    simp [Date.text, pad]
  obtain ⟨rest, hrest⟩ : ∃ rest, c.time.text = c.time.date.text ++ lit "T" ++ rest :=
    ⟨_, by unfold Timestamp.text; simp only [List.append_assoc]; rfl⟩
  have hsince : since.text ≤ c.time.text ↔ since.Upto c.time.date := by
    have h := date_append_le_iff since c.time.date [] (lit "T" ++ rest)
    rw [List.append_nil, ← List.append_assoc, ← hrest] at h
    simpa [Date.Upto] using h
  have huntil : c.time.text ≤ untilDay.text ↔ c.time.date.Before untilDay := by
    have h := date_append_le_iff c.time.date untilDay (lit "T" ++ rest) []
    rw [List.append_nil, ← List.append_assoc, ← hrest] at h
    have hlong : ¬ lit "T" ++ rest ≤ [] := by
      show ¬ (_ :: rest) ≤ []
      simp
    simpa [hlong] using h
  rw [conditions, if_pos (hne _), if_pos (hne _)]
  simp [record, hsince, huntil]

/-- The calls whose rows are read. -/
def selected (calls : List (Call δ)) (since untilDay : Date) : List (Call δ) :=
  calls.filter fun c => since.Upto c.time.date ∧ c.time.date.Before untilDay

theorem getDailyStats_eq (avg : List δ → δ) (calls : List (Call δ)) (since untilDay : Date) :
    getDailyStats avg (calls.map record) since.text untilDay.text =
      (((selected calls since untilDay).map fun c => c.time.date.text).dedup.insertionSort
        (fun d e => e ≤ d)).map fun day => usageOf avg day (((selected calls since untilDay).filter
          fun c => c.time.date.text = day).map record) := by
  have hrows : (calls.map record).filter (fun r =>
      (conditions since.text untilDay.text).all fun c => c r) =
        (selected calls since untilDay).map record := by
    rw [List.filter_map]
    refine congrArg (List.map record) (List.filter_congr fun c _ => ?_)
    rw [Bool.eq_iff_iff, decide_eq_true_eq]
    exact conditions_record c since untilDay
  unfold getDailyStats
  rw [hrows]
  simp only [List.map_map, List.filter_map, Function.comp_def, day_record]

theorem mem_getDailyStats {avg : List δ → δ} {calls : List (Call δ)} {since untilDay : Date}
    {e : DailyUsage δ} :
    e ∈ getDailyStats avg (calls.map record) since.text untilDay.text ↔
      ∃ c ∈ selected calls since untilDay, e = usageOf avg c.time.date.text
        (((selected calls since untilDay).filter fun c' => c'.time.date = c.time.date).map
          record) := by
  have hdates : ∀ d : Date, (fun c : Call δ => decide (c.time.date.text = d.text)) =
      fun c => decide (c.time.date = d) := by
    intro d
    funext c
    exact decide_eq_decide.mpr ⟨Date.text_inj, congrArg Date.text⟩
  rw [getDailyStats_eq]
  simp only [List.mem_map, List.mem_insertionSort, List.mem_dedup]
  constructor
  · rintro ⟨_, ⟨c, hc, rfl⟩, rfl⟩
    exact ⟨c, hc, by rw [hdates]⟩
  · rintro ⟨c, hc, rfl⟩
    exact ⟨_, ⟨c, hc, rfl⟩, by rw [hdates]⟩

theorem nodup_getDailyStats (avg : List δ → δ) (calls : List (Call δ)) (since untilDay : Date) :
    ((getDailyStats avg (calls.map record) since.text untilDay.text).map (·.date)).Nodup := by
  rw [getDailyStats_eq, List.map_map]
  simp only [Function.comp_def, usageOf, List.map_id']
  exact (List.perm_insertionSort _ _).nodup_iff.mpr (List.nodup_dedup _)

/-- The entries are right exactly if no call was made on the last day. -/
theorem getDailyStats_right_iff (avg : List δ → δ) (calls : List (Call δ)) {since untilDay : Date}
    (h : since.Upto untilDay) :
    DailyRight avg calls since untilDay
        (getDailyStats avg (calls.map record) since.text untilDay.text) ↔
      ∀ c ∈ calls, c.time.date ≠ untilDay := by
  constructor
  · rintro hright c hc rfl
    obtain ⟨c', hc', hentry⟩ := mem_getDailyStats.mp
      ((hright.entries _).mpr ⟨c.time.date, h, .inr rfl, ⟨c, hc, rfl⟩, rfl⟩)
    have hdate : c.time.date = c'.time.date := Date.text_inj (congrArg DailyUsage.date hentry)
    have hearlier := (of_decide_eq_true (List.mem_filter.mp hc').2).2
    rw [← hdate] at hearlier
    unfold Date.Before at hearlier
    omega
  · intro hnone
    refine ⟨nodup_getDailyStats .., fun e => ?_⟩
    have hwhole : ∀ d : Date, since.Upto d → d.Before untilDay →
        ((selected calls since untilDay).filter fun c => c.time.date = d) =
          calls.filter fun c => c.time.date = d := by
      intro d hsince huntil
      rw [selected, List.filter_filter]
      refine List.filter_congr fun c _ => ?_
      by_cases hd : c.time.date = d
      · simp [hd, hsince, huntil]
      · simp [hd]
    rw [mem_getDailyStats]
    constructor
    · rintro ⟨c, hc, rfl⟩
      obtain ⟨hmem, hin⟩ := List.mem_filter.mp hc
      obtain ⟨hsince, huntil⟩ := of_decide_eq_true hin
      exact ⟨c.time.date, hsince, .inl huntil, ⟨c, hmem, rfl⟩, by rw [hwhole _ hsince huntil]⟩
    · rintro ⟨_, hsince, hupto, ⟨c, hc, rfl⟩, rfl⟩
      have huntil := hupto.resolve_right (hnone c hc)
      refine ⟨c, List.mem_filter.mpr ⟨hc, decide_eq_true ⟨hsince, huntil⟩⟩, ?_⟩
      rw [hwhole _ hsince huntil]

end Query

/-- A day of May 2025. -/
def may (day : Fin 31) : Date where
  year := 2025
  month := 5
  day := day + 1
  valid := ⟨by decide, by decide, by decide, by omega, day.isLt⟩

/-- A call at noon. -/
def callOn (d : Date) : Call Nat where
  model := lit "m"
  durSec := 1
  promptTks := 2
  completionTks := 3
  time := { date := d, hour := 12, minute := 0, second := 0 }

theorem getDailyStats_right_before : DailyRight List.length [callOn (may 0)] (may 0) (may 1)
    (getDailyStats List.length ([callOn (may 0)].map record) (may 0).text (may 1).text) :=
  (getDailyStats_right_iff List.length [callOn (may 0)] (.inl (by decide))).mpr (by decide)

/-- The call at noon of the day that is asked for is not counted. -/
theorem getDailyStats_same_day :
    getDailyStats List.length ([callOn (may 0)].map record) (lit "2025-05-01")
        (lit "2025-05-01") = [] ∧
      ¬ DailyRight List.length [callOn (may 0)] (may 0) (may 0)
        (getDailyStats List.length ([callOn (may 0)].map record) (may 0).text (may 0).text) := by
  have hnone : getDailyStats List.length ([callOn (may 0)].map record) (lit "2025-05-01")
      (lit "2025-05-01") = [] := by decide +kernel
  refine ⟨hnone, fun h => ?_⟩
  have hentry := (h.entries _).mpr
    ⟨may 0, .inr rfl, .inr rfl, ⟨callOn (may 0), List.mem_singleton_self _, rfl⟩, rfl⟩
  rw [show (may 0).text = lit "2025-05-01" by decide +kernel, hnone] at hentry
  exact absurd hentry List.not_mem_nil

end Usage

end MiniGoAgent

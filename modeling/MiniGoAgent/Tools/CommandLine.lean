/-
# `Tools.CommandLine` — lines of several commands and the cache (`tools/cache.go`)

`isCacheable` looks at the front of a line.  Behind an operator of the shell it sees
nothing (`isCacheable_joined`): a line that begins with a command whose output may be
cached is taken for such a command, whatever follows, and the second time it is not
executed.  `composition_sound_iff` says for which lines this does no harm.
-/
import MiniGoAgent.Go.Letters
import MiniGoAgent.Tools.Terminal

open Go

namespace MiniGoAgent

namespace Tools

/-- What stands between the parts of a line. -/
inductive Operator where
  | amp
  | andAnd
  | orOr
  | pipe
  | redirect
  | redirectAppend
  deriving DecidableEq, Repr

namespace Operator

def text : Operator → Str
  | amp => lit "&"
  | andAnd => lit "&&"
  | orOr => lit "||"
  | pipe => lit "|"
  | redirect => lit ">"
  | redirectAppend => lit ">>"

/-- A command follows, and not a file. -/
def joins : Operator → Bool
  | redirect => false
  | redirectAppend => false
  | _ => true

end Operator

/-- Commands and names of files, none of them blank; an operator that is quoted in one of
them is a part of it. -/
structure CommandLine where
  first : Str
  rest : List (Operator × Str)
  parts : trimSpace first ≠ [] ∧ ∀ p ∈ rest, trimSpace p.2 ≠ []

namespace CommandLine

def text (ℓ : CommandLine) : Str := ℓ.first ++ ℓ.rest.flatMap fun p => p.1.text ++ p.2

/-- Every command behind the first one can be cached on its own, and there are no files. -/
def RestHarmless (ℓ : CommandLine) : Prop :=
  ∀ p ∈ ℓ.rest, p.1.joins = true ∧ isCacheable p.2 = true

/-- All its commands can be cached on their own, and nothing is written to a file. -/
def Harmless (ℓ : CommandLine) : Prop := isCacheable ℓ.first = true ∧ ℓ.RestHarmless

/-- The line is cached only if it is harmless. -/
def CachedSoundly (ℓ : CommandLine) : Prop := isCacheable ℓ.text = true → ℓ.Harmless

/-- In no run is the line left unexecuted for an entry in the cache, unless it is harmless. -/
def NeverSkipped (ι : Type) (ℓ : CommandLine) : Prop :=
  ∀ (cfg : TerminalConfig) (l : List (TerminalEvent ι)) (s : TerminalState ι) (c : TerminalCall ι),
    (terminalMachine ι cfg).run (terminalMachine ι cfg).init l = some s → c.command = ℓ.text →
      s.Fresh cfg c → ℓ.Harmless

end CommandLine

/-! ## The front of a line -/

/-- A word the front of a line is compared with. -/
def IsWord (p : Str) : Prop :=
  (∀ c ∈ lit "&|>", c ∉ p) ∧ IsASCII p ∧ p ≠ [] ∧ ∀ c ∈ p.getLast?, [c] ∉ spaceRunes

theorem isWord_of_prefixes : ∀ p ∈ writePrefixes ++ cacheablePrefixes, IsWord p := by
  unfold IsWord
  decide +kernel

theorem spaceRunes_shape : ∀ r ∈ spaceRunes, r ≠ [] ∧
    (∀ c ∈ r.head?, c ∉ [0x84, 0xAA, 0xB0]) ∧
    (r.length = 1 ∧ toLower r = r ∨ ∀ c ∈ (toLower r).head?, ¬ c < 0x80) := by
  decide +kernel

theorem prefix_toLower_append_space {p r : Str} (hp : IsWord p) (hr : r ∈ spaceRunes)
    (s : Str) : p <+: toLower (s ++ r) ↔ p <+: toLower s := by
  obtain ⟨_, hascii, _, hlast⟩ := hp
  obtain ⟨hne, hfirst, hlower⟩ := spaceRunes_shape r hr
  obtain ⟨c, r', rfl⟩ := List.exists_cons_of_ne_nil hne
  rw [toLower_append s (hfirst c rfl)]
  rcases hlower with ⟨hlen, hsame⟩ | hbeyond
  · obtain rfl : r' = [] := List.length_eq_zero_iff.mp (Nat.succ.inj hlen)
    rw [hsame, List.prefix_concat_iff]
    refine or_iff_right fun heq => ?_
    rw [heq, List.getLast?_concat] at hlast
    exact hlast c rfl hr
  · cases hrest : toLower (c :: r') with
    | nil => rw [List.append_nil]
    | cons x y =>
      rw [hrest] at hbeyond
      exact prefix_append_cons_iff fun hmem => hbeyond x rfl (hascii x hmem)

theorem prefix_toLower_append_spaces {p : Str} (hp : IsWord p) {rs : List Str}
    (hrs : ∀ r ∈ rs, r ∈ spaceRunes) (s : Str) :
    p <+: toLower (s ++ rs.flatten) ↔ p <+: toLower s := by
  induction rs generalizing s with
  | nil => rw [List.flatten_nil, List.append_nil]
  | cons r rs ih =>
    rw [List.forall_mem_cons] at hrs
    rw [List.flatten_cons, ← List.append_assoc, ih hrs.2, prefix_toLower_append_space hp hrs.1]

theorem prefix_toLower_trimSpace {p : Str} (hp : IsWord p) (s : Str) :
    p <+: toLower (trimSpace s) ↔ p <+: toLower (trimFront spaceRunes s.length s) := by
  rw [trimSpace]
  generalize trimFront spaceRunes s.length s = front
  obtain ⟨trimmed, hmem, hsplit⟩ :=
    trimFront_split (spaceRunes.map List.reverse) front.length front.reverse
  have hfront : front = (trimFront (spaceRunes.map List.reverse) front.length
      front.reverse).reverse ++ (trimmed.map List.reverse).reverse.flatten := by
    rw [← List.reverse_flatten, ← List.reverse_append, ← hsplit, List.reverse_reverse]
  have hspaces : ∀ r ∈ (trimmed.map List.reverse).reverse, r ∈ spaceRunes := by
    intro r hr
    obtain ⟨r', hr', rfl⟩ := List.mem_map.mp (List.mem_reverse.mp hr)
    obtain ⟨r'', hr'', rfl⟩ := List.mem_map.mp (hmem r' hr')
    rwa [List.reverse_reverse]
  have hsame := prefix_toLower_append_spaces hp hspaces
    (trimFront (spaceRunes.map List.reverse) front.length front.reverse).reverse
  rw [← hfront] at hsame
  exact hsame.symm

theorem isCacheable_joined (first : Str) {d : UInt8} (hd : d ∈ lit "&|>") (more : Str) :
    isCacheable (first ++ d :: more) = isCacheable first := by
  obtain ⟨hspace, hascii, hlower⟩ : (∀ r ∈ spaceRunes, d ∉ r) ∧ d < 0x80 ∧ lowerByte d = d := by
    revert d
    decide +kernel
  have hword : ∀ p ∈ writePrefixes ++ cacheablePrefixes,
      hasPrefix (toLower (trimSpace (first ++ d :: more))) p =
        hasPrefix (toLower (trimSpace first)) p := by
    intro p hp
    have hp := isWord_of_prefixes p hp
    have hlen : first.length ≤ (first ++ d :: more).length := by simp
    rw [Bool.eq_iff_iff, hasPrefix_iff, hasPrefix_iff, prefix_toLower_trimSpace hp,
      prefix_toLower_trimSpace hp, trimFront_append hspace, trimFront_fuel (by decide) hlen le_rfl,
      toLower_append_ascii _ hascii, hlower, prefix_append_cons_iff (hp.1 d hd)]
  have hany : ∀ ps : List Str, ps ⊆ writePrefixes ++ cacheablePrefixes →
      ps.any (hasPrefix (toLower (trimSpace (first ++ d :: more)))) =
        ps.any (hasPrefix (toLower (trimSpace first))) := by
    intro ps hps
    rw [Bool.eq_iff_iff, List.any_eq_true, List.any_eq_true]
    exact exists_congr fun p => and_congr_right fun hp => by rw [hword p (hps hp)]
  unfold isCacheable
  dsimp only
  rw [hany _ (List.subset_append_left _ _), hany _ (List.subset_append_right _ _)]

theorem isCacheable_text (ℓ : CommandLine) : isCacheable ℓ.text = isCacheable ℓ.first := by
  have hop : ∀ op : Operator, ∃ d u, d ∈ lit "&|>" ∧ op.text = d :: u := by
    intro op
    cases op <;> exact ⟨_, _, by decide, rfl⟩
  unfold CommandLine.text
  cases ℓ.rest with
  | nil => rw [List.flatMap_nil, List.append_nil]
  | cons p rest =>
    obtain ⟨d, u, hd, htext⟩ := hop p.1
    rw [List.flatMap_cons, htext, List.cons_append, List.cons_append]
    exact isCacheable_joined ℓ.first hd _

/-! ## Lines that are cached -/

section Lines

variable {ι : Type}

/-- A call that executes the command with success. -/
def calling (ι : Type) (command : Str) : TerminalCall ι where
  command
  before _ cmd := (cmd, none)
  after _ _ result := (result, none)
  runCmd _ := ([], none)
  runElevated _ := ([], none)

theorem fresh_after_call {command : Str} (h : isCacheable command = true) :
    ∃ s : TerminalState ι,
      (terminalMachine ι { cacheTTL := 0, filterRun := fun raw _ => raw }).run
        (terminalMachine ι { cacheTTL := 0, filterRun := fun raw _ => raw }).init
        [.run (calling ι command)] = some s ∧
      s.Fresh { cacheTTL := 0, filterRun := fun raw _ => raw } (calling ι command) := by
  have hstate : (runTerminal { cacheTTL := 0, filterRun := fun raw _ => raw } {}
      (calling ι command)).2 = { cache := storeCache 0 0 ∅ command [] } := by
    unfold runTerminal
    rw [if_pos (show isCacheable (calling ι command).command = true from h)]
    exact if_pos h
  refine ⟨_, rfl, h, ⟨[], 0⟩, ?_, Int.le_refl 0⟩
  show (runTerminal _ {} (calling ι command)).2.cache.lookup command = _
  rw [hstate]
  exact AList.lookup_insert _

/-- A line is cached soundly, and never left unexecuted with harm, exactly if its first command
cannot be cached or the others can and nothing is written to a file. -/
theorem composition_sound_iff (ℓ : CommandLine) :
    (ℓ.CachedSoundly ↔ (isCacheable ℓ.first = true → ℓ.RestHarmless)) ∧
      (ℓ.NeverSkipped ι ↔ (isCacheable ℓ.first = true → ℓ.RestHarmless)) := by
  have hsound : ℓ.CachedSoundly ↔ (isCacheable ℓ.first = true → ℓ.RestHarmless) := by
    unfold CommandLine.CachedSoundly CommandLine.Harmless
    rw [isCacheable_text]
    exact forall_congr' fun hfirst => and_iff_right hfirst
  refine ⟨hsound, fun h hfirst => ?_, fun h cfg l s c _ hcommand hfresh => ?_⟩
  · obtain ⟨s, hrun, hfresh⟩ := fresh_after_call (ι := ι) ((isCacheable_text ℓ).trans hfirst)
    exact (h _ _ s (calling ι ℓ.text) hrun rfl hfresh).2
  · exact hsound.mpr h (hcommand ▸ hfresh.1)

end Lines

/-- `ls && git push`. -/
def lsThenPush : CommandLine where
  first := lit "ls "
  rest := [(.andAnd, lit " git push")]
  parts := by decide +kernel

/-- The line is cached, and the second call of it within the time to live answers without
executing anything, although `git push` cannot be cached on its own. -/
theorem push_skipped :
    lsThenPush.text = lit "ls && git push" ∧ isCacheable lsThenPush.text = true ∧
      isCacheable (lit " git push") = false ∧ ¬ lsThenPush.CachedSoundly ∧
      ¬ lsThenPush.NeverSkipped Unit := by
  have hcached : isCacheable lsThenPush.text = true := by decide +kernel
  have hpush : isCacheable (lit " git push") = false := by decide +kernel
  have hharm : ¬ lsThenPush.Harmless := by
    rintro ⟨_, hrest⟩
    have hjoined := (hrest (.andAnd, lit " git push") List.mem_cons_self).2
    rw [hpush] at hjoined
    cases hjoined
  obtain ⟨s, hrun, hfresh⟩ := fresh_after_call (ι := Unit) hcached
  exact ⟨by decide +kernel, hcached, hpush, fun h => hharm (h hcached),
    fun h => hharm (h _ _ s _ hrun rfl hfresh)⟩

end Tools

end MiniGoAgent

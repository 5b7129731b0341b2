/-
# `Tools.Terminal` — the terminal tool, its interceptors and its cache (`tools/`)

`RunTerminal` looks the command up in the cache as it has been typed, before it
asks the interceptors, and stores the output under the command as they have
rewritten it.  So what is found need not be output of this command, nor of a
command the interceptors of today accept: `output_only_if_accepted_iff` says that
this is the one way in which a rejected command yields output, and
`cached_was_executed` where entries come from.

The interceptors are of any type `ι`; a call says what each of them answers to it,
so that they may keep a state.  The command itself, the elevated run, the filters of
`tools/filter` and the two readings of the clock are parameters.  Errors are their
texts.
-/
import Mathlib.Data.List.AList
import MiniGoAgent.Go.Machine
import MiniGoAgent.Go.Str

open Go

namespace MiniGoAgent

namespace Tools

/-! ## Interceptors (`interceptor.go`) -/

structure CommandContext where
  command : Str
  sessionID : Str := []
  deriving DecidableEq, Repr

structure CommandResult where
  output : Str
  err : Option Str
  deriving DecidableEq, Repr

variable {ι : Type}

def runBeforeInterceptors (before : ι → CommandContext → CommandContext × Option Str) :
    List ι → CommandContext → CommandContext × Option Str
  | [], cmd => (cmd, none)
  | i :: items, cmd =>
    match before i cmd with
    | (cmd, some err) => (cmd, some err)
    | (cmd, none) => runBeforeInterceptors before items cmd

def runAfterInterceptors
    (after : ι → CommandContext → CommandResult → CommandResult × Option Str)
    (cmd : CommandContext) : List ι → CommandResult → CommandResult
  | [], result => result
  | i :: items, result =>
    match after i cmd result with
    | (result, some err) => { result with err := some err }
    | (result, none) => runAfterInterceptors after cmd items result

/-! ## The cache (`cache.go`) -/

structure CacheEntry where
  result : Str
  timestamp : Int
  deriving DecidableEq, Repr

abbrev Cache := AList (fun _ : Str => CacheEntry)

def cacheablePrefixes : List Str :=
  [lit "ls", lit "dir", lit "git status", lit "git log", lit "git diff", lit "git branch",
   lit "git stash list", lit "git tag", lit "where", lit "which", lit "type", lit "echo",
   lit "more", lit "help", lit "ver", lit "systeminfo", lit "tasklist"]

def writePrefixes : List Str :=
  [lit "git add", lit "git commit", lit "git push", lit "git pull", lit "git checkout",
   lit "git merge", lit "git rebase", lit "git reset", lit "git rm", lit "git clean",
   lit "git stash push", lit "git stash drop", lit "git tag -d", lit "git branch -d",
   lit "git branch -D", lit "mkdir", lit "rmdir", lit "del", lit "copy", lit "move",
   lit "ren", lit "attrib", lit "icacls", lit "takeown"]

def isCacheable (cmd : Str) : Bool :=
  let lower := toLower (trimSpace cmd)
  if writePrefixes.any (hasPrefix lower) then false else cacheablePrefixes.any (hasPrefix lower)

def lookupCache (cacheTTL now : Int) (cache : Cache) (cmd : Str) : Option Str × Cache :=
  match cache.lookup cmd with
  | none => (none, cache)
  | some entry =>
    if now - entry.timestamp > cacheTTL then (none, cache.erase cmd)
    else (some entry.result, cache)

/-- The key a `range` over the map begins with, at `first`, is deleted. -/
def dropFirst (first : Nat) (cache : Cache) : Cache :=
  match cache.keys[first % cache.keys.length]? with
  | none => cache
  | some k => cache.erase k

def storeCache (now : Int) (first : Nat) (cache : Cache) (cmd result : Str) : Cache :=
  (if cache.keys.length > 200 then dropFirst first cache else cache).insert cmd
    { result, timestamp := now }

/-! ## The tool (`terminal.go`) -/

def isAccessDenied (err : Str) : Bool :=
  let msg := toLower err
  contains msg (lit "access is denied") || contains msg (lit "拒绝访问") ||
    contains msg (lit "permission denied")

structure TerminalConfig where
  cacheTTL : Int
  /-- `filter.Run` -/
  filterRun : Str → Str → Str

structure TerminalState (ι : Type) where
  cache : Cache := ∅
  items : List ι := []

/-- A call, with what it meets outside. -/
structure TerminalCall (ι : Type) where
  command : Str
  lookupAt : Int := 0
  storeAt : Int := 0
  /-- where the `range` of `storeCache` begins -/
  first : Nat := 0
  before : ι → CommandContext → CommandContext × Option Str
  after : ι → CommandContext → CommandResult → CommandResult × Option Str
  runCmd : Str → Str × Option Str
  isAdmin : Bool := false
  runElevated : Str → Str × Option Str

/-- `RunTerminal` behind the lookup. -/
def execute (cfg : TerminalConfig) (s : TerminalState ι) (c : TerminalCall ι) :
    Except Str Str × TerminalState ι :=
  match runBeforeInterceptors c.before s.items { command := c.command } with
  | (_, some err) => (.error (lit "拦截器阻止: " ++ err), s)
  | (cmd, none) =>
    let (out, runErr) := c.runCmd cmd.command
    let result := runAfterInterceptors c.after cmd s.items { output := out, err := runErr }
    match result.err with
    | none =>
      let filtered := cfg.filterRun result.output cmd.command
      (.ok filtered,
        if isCacheable cmd.command then
          { s with cache := storeCache c.storeAt c.first s.cache cmd.command filtered }
        else s)
    | some err =>
      if isAccessDenied err then
        if !c.isAdmin then
          (.error (lit "命令需要管理员权限，请以管理员身份运行本程序后重试。当前无管理员权限。"), s)
        else
          match c.runElevated cmd.command with
          | (elevatedOut, none) => (.ok (cfg.filterRun elevatedOut cmd.command), s)
          | (elevatedOut, some elevErr) =>
            (.ok (lit "提权执行失败: " ++ elevErr ++ lit "\n输出: " ++ elevatedOut), s)
      else (.ok (lit "执行失败: " ++ err ++ lit "\n输出: " ++ result.output), s)

def runTerminal (cfg : TerminalConfig) (s : TerminalState ι) (c : TerminalCall ι) :
    Except Str Str × TerminalState ι :=
  if isCacheable c.command then
    match lookupCache cfg.cacheTTL c.lookupAt s.cache c.command with
    | (some cached, cache) => (.ok cached, { s with cache })
    | (none, cache) => execute cfg { s with cache } c
  else execute cfg s c

def registerInterceptor (s : TerminalState ι) : Option ι → TerminalState ι
  | none => s
  | some i => { s with items := s.items ++ [i] }

/-! ## Runs -/

inductive TerminalEvent (ι : Type) where
  | register (i : Option ι)
  | run (c : TerminalCall ι)

def terminalMachine (ι : Type) (cfg : TerminalConfig) :
    Machine (TerminalState ι) (TerminalEvent ι) where
  init := {}
  step s
    | .register i => some (registerInterceptor s i)
    | .run c => some (runTerminal cfg s c).2

namespace TerminalState

/-- The `Before` interceptors that are registered accept the command. -/
def Accepts (s : TerminalState ι) (c : TerminalCall ι) : Prop :=
  (runBeforeInterceptors c.before s.items { command := c.command }).2 = none

/-- The command as it has been typed has an entry in the cache that has not expired. -/
def Fresh (cfg : TerminalConfig) (s : TerminalState ι) (c : TerminalCall ι) : Prop :=
  isCacheable c.command = true ∧
    ∃ entry, s.cache.lookup c.command = some entry ∧ c.lookupAt - entry.timestamp ≤ cfg.cacheTTL

end TerminalState

/-! ## What a call does -/

section Call

variable {cfg : TerminalConfig} {s : TerminalState ι} {c : TerminalCall ι}

variable {entry : CacheEntry} {k : Str}

theorem lookupCache_cases (cacheTTL now : Int) (cache : Cache) (cmd : Str) :
    (∃ entry, cache.lookup cmd = some entry ∧ now - entry.timestamp ≤ cacheTTL ∧
      lookupCache cacheTTL now cache cmd = (some entry.result, cache)) ∨
    ((∀ entry, cache.lookup cmd = some entry → ¬ now - entry.timestamp ≤ cacheTTL) ∧
      ∃ cache', lookupCache cacheTTL now cache cmd = (none, cache') ∧
        ∀ k entry, cache'.lookup k = some entry → cache.lookup k = some entry) := by
  unfold lookupCache
  cases hentry : cache.lookup cmd with
  | none => exact Or.inr ⟨fun entry h => absurd h (by simp), cache, rfl, fun k entry h => h⟩
  | some entry =>
    by_cases hold : now - entry.timestamp > cacheTTL
    · right
      refine ⟨?_, cache.erase cmd, if_pos hold, ?_⟩
      · intro entry' hentry'
        cases hentry'
        exact Int.not_le.mpr hold
      · intro k entry' hk
        by_cases hcmd : k = cmd
        · subst hcmd
          rw [AList.lookup_erase] at hk
          cases hk
        · rwa [AList.lookup_erase_ne hcmd] at hk
    · exact Or.inl ⟨entry, rfl, Int.not_lt.mp hold, if_neg hold⟩

theorem runTerminal_cases (cfg : TerminalConfig) (s : TerminalState ι) (c : TerminalCall ι) :
    (s.Fresh cfg c ∧ ∃ out, runTerminal cfg s c = (.ok out, s)) ∨
    (¬ s.Fresh cfg c ∧ ∃ s' : TerminalState ι, s'.items = s.items ∧
      (∀ k entry, s'.cache.lookup k = some entry → s.cache.lookup k = some entry) ∧
      runTerminal cfg s c = execute cfg s' c) := by
  unfold runTerminal
  by_cases hcacheable : isCacheable c.command = true
  · rw [if_pos hcacheable]
    rcases lookupCache_cases cfg.cacheTTL c.lookupAt s.cache c.command with
      ⟨entry, hentry, hfresh, hlookup⟩ | ⟨hstale, cache', hlookup, hcache'⟩
    · rw [hlookup]
      exact Or.inl ⟨⟨hcacheable, entry, hentry, hfresh⟩, entry.result, rfl⟩
    · rw [hlookup]
      refine Or.inr ⟨?_, { s with cache := cache' }, rfl, hcache', rfl⟩
      rintro ⟨_, entry, hentry, hfresh⟩
      exact hstale entry hentry hfresh
  · rw [if_neg hcacheable]
    exact Or.inr ⟨fun hfresh => hcacheable hfresh.1, s, rfl, fun k entry h => h, rfl⟩

theorem accepts_of_execute {out : Str} (h : (execute cfg s c).1 = .ok out) : s.Accepts c := by
  unfold TerminalState.Accepts
  unfold execute at h
  split at h
  · cases h
  next hbefore => rw [hbefore]

theorem accepts_congr {s' : TerminalState ι} (h : s'.items = s.items) :
    s'.Accepts c ↔ s.Accepts c := by
  unfold TerminalState.Accepts
  rw [h]

theorem accepts_of_output_iff (cfg : TerminalConfig) (s : TerminalState ι) (c : TerminalCall ι) :
    (∀ out, (runTerminal cfg s c).1 = .ok out → s.Accepts c) ↔
      (s.Fresh cfg c → s.Accepts c) := by
  rcases runTerminal_cases cfg s c with ⟨hfresh, out, hrun⟩ | ⟨hstale, s', hitems, _, hrun⟩
  · constructor
    · intro h _
      refine h out ?_
      rw [hrun]
    · intro h out' _
      exact h hfresh
  · refine iff_of_true ?_ (fun hfresh => absurd hfresh hstale)
    intro out hout
    rw [hrun] at hout
    exact (accepts_congr hitems).mp (accepts_of_execute hout)

end Call

/-! ## What runs do -/

/-- If the event is a call that yields output, the interceptors accept its command. -/
def OutputOnlyIfAccepted (cfg : TerminalConfig) (s : TerminalState ι) : TerminalEvent ι → Prop
  | .register _ => True
  | .run c => ∀ out, (runTerminal cfg s c).1 = .ok out → s.Accepts c

/-- If the event is a call whose command has a fresh entry, the interceptors accept
its command. -/
def FreshOnlyIfAccepted (cfg : TerminalConfig) (s : TerminalState ι) : TerminalEvent ι → Prop
  | .register _ => True
  | .run c => s.Fresh cfg c → s.Accepts c

/-- **Output only of accepted commands.**  In a run of calls and registrations no
rejected command yields output exactly if none has, as typed, a fresh entry in the
cache when it is called. -/
theorem output_only_if_accepted_iff (cfg : TerminalConfig) (l : List (TerminalEvent ι)) :
    (terminalMachine ι cfg).Along (OutputOnlyIfAccepted cfg) (terminalMachine ι cfg).init l ↔
      (terminalMachine ι cfg).Along (FreshOnlyIfAccepted cfg) (terminalMachine ι cfg).init l := by
  refine (terminalMachine ι cfg).along_congr_of_iff ?_ _ l
  intro s e
  cases e with
  | register i => exact Iff.rfl
  | run c => exact accepts_of_output_iff cfg s c

/-- The call `dir` at a moment; an interceptor, once registered, rejects everything. -/
def dirAt (now : Int) : TerminalCall Unit where
  command := lit "dir"
  lookupAt := now
  storeAt := now
  before _ cmd := (cmd, some (lit "blocked by interceptor"))
  after _ _ result := (result, none)
  runCmd _ := (lit "secret.txt", none)
  runElevated _ := ([], none)

/-- An interceptor that rejects `dir` is registered between two calls of it; the
second yields the output of the first. -/
theorem rejected_command_yields_output :
    ∃ s : TerminalState Unit,
      (terminalMachine Unit { cacheTTL := 30, filterRun := fun raw _ => raw }).run
        (terminalMachine Unit { cacheTTL := 30, filterRun := fun raw _ => raw }).init
        [.run (dirAt 0), .register (some ())] = some s ∧
      (runTerminal { cacheTTL := 30, filterRun := fun raw _ => raw } s (dirAt 1)).1 =
        .ok (lit "secret.txt") ∧
      ¬ s.Accepts (dirAt 1) := by
  refine ⟨_, rfl, ?_, ?_⟩
  · rfl
  · intro h
    exact Option.some_ne_none (lit "blocked by interceptor") h

/-! ## Where entries come from -/

/-- The command is not answered from the cache; the interceptors accept it and make `k` of
it, and what is then returned is stored. -/
def TerminalState.Stores (cfg : TerminalConfig) (s : TerminalState ι) (c : TerminalCall ι)
    (k : Str) (entry : CacheEntry) : Prop :=
  ¬ s.Fresh cfg c ∧
  ∃ cmd, runBeforeInterceptors c.before s.items { command := c.command } = (cmd, none) ∧
    cmd.command = k ∧ isCacheable k = true ∧ (runTerminal cfg s c).1 = .ok entry.result ∧
    entry.timestamp = c.storeAt

section Entries

variable {cfg : TerminalConfig} {s : TerminalState ι} {c : TerminalCall ι} {entry : CacheEntry}
  {k : Str}

theorem lookup_storeCache {now : Int} {first : Nat} {cache : Cache} {cmd result : Str}
    (h : (storeCache now first cache cmd result).lookup k = some entry) :
    (k = cmd ∧ entry = ⟨result, now⟩) ∨ cache.lookup k = some entry := by
  by_cases hk : k = cmd
  · rw [hk, storeCache, AList.lookup_insert] at h
    exact Or.inl ⟨hk, (Option.some.inj h).symm⟩
  · rw [storeCache, AList.lookup_insert_ne hk] at h
    refine Or.inr ?_
    split at h
    · unfold dropFirst at h
      split at h
      · exact h
      next key _ =>
        by_cases hkey : k = key
        · rw [hkey, AList.lookup_erase] at h
          cases h
        · rwa [AList.lookup_erase_ne hkey] at h
    · exact h

theorem stores_of_lookup (h : (runTerminal cfg s c).2.cache.lookup k = some entry) :
    s.Stores cfg c k entry ∨ s.cache.lookup k = some entry := by
  rcases runTerminal_cases cfg s c with ⟨_, out, hrun⟩ | ⟨hstale, s', hitems, hcache, hrun⟩
  · rw [hrun] at h
    exact Or.inr h
  · unfold TerminalState.Stores
    rw [hrun] at h ⊢
    rw [← hitems]
    revert h
    fun_cases execute cfg s' c
    case case2 cmd hbefore _ _ _ _ _ filtered =>
      intro h
      split at h
      next hcacheable =>
        rcases lookup_storeCache h with ⟨rfl, rfl⟩ | hold
        · exact Or.inl ⟨hstale, cmd, hbefore, rfl, hcacheable, rfl, rfl⟩
        · exact Or.inr (hcache k entry hold)
      next => exact Or.inr (hcache k entry h)
    all_goals
      intro h
      exact Or.inr (hcache k entry h)

end Entries

/-- A call of the run has stored the entry. -/
def Stored (cfg : TerminalConfig) (l : List (TerminalEvent ι)) (k : Str)
    (entry : CacheEntry) : Prop :=
  ∃ front c back t, l = front ++ .run c :: back ∧
    (terminalMachine ι cfg).run (terminalMachine ι cfg).init front = some t ∧
    t.Stores cfg c k entry

/-- **Where output from the cache comes from.**  Behind any run of calls and registrations,
what the cache holds under a command was returned by an earlier call, and not from the
cache: the interceptors of its time accepted it and made this command of it. -/
theorem cached_was_executed {cfg : TerminalConfig} {l : List (TerminalEvent ι)}
    {s : TerminalState ι} {k : Str} {entry : CacheEntry}
    (hrun : (terminalMachine ι cfg).run (terminalMachine ι cfg).init l = some s)
    (hentry : s.cache.lookup k = some entry) : Stored cfg l k entry := by
  refine (terminalMachine ι cfg).run_rule
    (P := fun l s => s.cache.lookup k = some entry → Stored cfg l k entry) ?_ ?_ hrun hentry
  · intro h
    cases h
  · intro l t e t' ht ih hstep h
    -- an old entry was stored in front of the event, a new one by its call
    have hold : t.cache.lookup k = some entry → Stored cfg (l ++ [e]) k entry := by
      intro h
      obtain ⟨front, c, back, t₀, rfl, hfront, hstores⟩ := ih h
      exact ⟨front, c, back ++ [e], t₀, by simp, hfront, hstores⟩
    cases e with
    | register i =>
      cases hstep
      cases i <;> exact hold h
    | run c =>
      cases hstep
      rcases stores_of_lookup h with hnew | h
      · exact ⟨l, c, [], t, rfl, ht, hnew⟩
      · exact hold h

/-- The call `list`, which an interceptor rewrites. -/
def listAsDir : TerminalCall Unit :=
  { dirAt 0 with
    command := lit "list"
    before := fun _ cmd => ({ cmd with command := lit "dir" }, none) }

theorem cached_was_executed_rewritten :
    Stored { cacheTTL := 30, filterRun := fun raw _ => raw }
      [.register (some ()), .run listAsDir] (lit "dir") ⟨lit "secret.txt", 0⟩ :=
  cached_was_executed rfl rfl

end Tools

end MiniGoAgent

/-
# `Tools.FileOps` — the file tools and the root they are confined to (`tools/fileops.go`)

`ReadFile`, `WriteFile` and `EditFile` hand their path to `ValidatePath` and use what it
returns.  `ValidatePath` compares texts: a path is accepted if its cleaned absolute form
starts with the text of the root.  So does every path beneath the root, and so does every
path beneath a neighbour of the root whose name begins with the root's: with the root
`/work`, the tools read and write `/work-old` (`neighbour_accepted`).

`confined_iff` says that this is all.

`os.Getwd` and the file operations of package `os` are parameters.  Errors are their
texts; a result of `none` is a panic.
-/
import MiniGoAgent.Go.Path
import MiniGoAgent.Go.Runes

open Go

namespace MiniGoAgent

variable {getwd : Except Str Path.WorkDir} {path : Str}

namespace Tools

/-! ## The root and the paths -/

/-- `SetWorkspaceRoot`: what it makes `workspaceRoot`. -/
def setWorkspaceRoot (getwd : Except Str Path.WorkDir) (root : Str) : Str :=
  match Path.abs getwd root with
  | .error _ => Path.clean root
  | .ok abs => Path.clean abs

def validatePath (workspaceRoot : Str) (getwd : Except Str Path.WorkDir)
    (path : Str) : Except Str Str :=
  if path = [] then .error (lit "path is empty")
  else
    match Path.abs getwd path with
    | .error err => .error (lit "invalid path: " ++ err)
    | .ok abs =>
      let cleaned := Path.clean abs
      if workspaceRoot ≠ [] ∧ hasPrefix cleaned workspaceRoot = false then
        .error (lit "path " ++ cleaned ++ lit " is outside workspace root " ++ workspaceRoot)
      else .ok cleaned

/-! ## The tools -/

/-- What the operating system answers. -/
structure Disk where
  readFile : Str → Except Str Str
  mkdirAll : Str → Option Str
  writeFile : Str → Str → Option Str

/-- What a tool asks of the operating system. -/
inductive Access where
  | readFile (path : Str)
  | mkdirAll (path : Str)
  | writeFile (path data : Str)
  deriving DecidableEq, Repr

def Access.file : Access → Option Str
  | .readFile path => some path
  | .mkdirAll _ => none
  | .writeFile path _ => some path

/-- A call of a tool: what it has asked for, and what it returns. -/
structure Called where
  accesses : List Access
  result : Option (Except Str Str)

/-- The loop that numbers the lines. -/
def numberLines (start : Int) (lines : List Str) : Str :=
  lines.zipIdx.flatMap (fun line => itoa (start + line.2 + 1) ++ lit ": " ++ line.1 ++ lit "\n")

/-- `ReadFile` behind the reading: the lines that were asked for.  The sum of the first
line and the limit is a Go `int`; where it wraps around, the slice is out of range. -/
def selectLines (offset limit : Int) (lines : List Str) : Option (Except Str Str) :=
  let start := if 1 < offset then offset - 1 else 0
  if lines.length ≤ start then
    some (.error (lit "起始行 " ++ itoa offset ++ lit " 超出文件长度 " ++ itoa lines.length))
  else if 0 < limit ∧ wrap64 (start + limit) < lines.length then
    if wrap64 (start + limit) < start then none
    else some (.ok (numberLines start ((lines.drop start.toNat).take limit.toNat)))
  else some (.ok (numberLines start (lines.drop start.toNat)))

section Calls

variable (workspaceRoot : Str) (getwd : Except Str Path.WorkDir) (disk : Disk)

/-- How each of the tools begins. -/
def onValidPath (path : Str) (body : Str → Called) : Called :=
  match validatePath workspaceRoot getwd path with
  | .error err => { accesses := [], result := some (.error err) }
  | .ok p => body p

def readFile (path : Str) (offset limit : Int) : Called :=
  onValidPath workspaceRoot getwd path fun p =>
    { accesses := [.readFile p]
      result :=
        match disk.readFile p with
        | .error err => some (.error (lit "读取文件失败: " ++ err))
        | .ok data => selectLines offset limit (splitByte (byte '\n') data) }

def writeFile (path content : Str) : Called :=
  onValidPath workspaceRoot getwd path fun p =>
    match disk.mkdirAll (Path.dir p) with
    | some err =>
      { accesses := [.mkdirAll (Path.dir p)]
        result := some (.error (lit "创建目录失败: " ++ err)) }
    | none =>
      { accesses := [.mkdirAll (Path.dir p), .writeFile p content]
        result :=
          match disk.writeFile p content with
          | some err => some (.error (lit "写入文件失败: " ++ err))
          | none =>
            some (.ok (lit "已写入 " ++ itoa content.length ++ lit " 字节到 " ++ p)) }

def editFile (path oldText newText : Str) : Called :=
  onValidPath workspaceRoot getwd path fun p =>
    match disk.readFile p with
    | .error err =>
      { accesses := [.readFile p], result := some (.error (lit "读取文件失败: " ++ err)) }
    | .ok content =>
      if count content oldText = 0 then
        { accesses := [.readFile p]
          result := some (.error (lit "在 " ++ path ++ lit " 中未找到匹配的原文")) }
      else
        { accesses := [.readFile p, .writeFile p (replaceAll content oldText newText)]
          result :=
            match disk.writeFile p (replaceAll content oldText newText) with
            | some err => some (.error (lit "写入文件失败: " ++ err))
            | none =>
              some (.ok (lit "已在 " ++ path ++ lit " 中替换 " ++
                itoa (count content oldText) ++ lit " 处")) }

end Calls

/-- A call of one of the tools, without its path. -/
inductive FileCall where
  | read (offset limit : Int)
  | write (content : Str)
  | edit (oldText newText : Str)
  deriving DecidableEq, Repr

def FileCall.run (workspaceRoot : Str) (getwd : Except Str Path.WorkDir) (disk : Disk)
    (path : Str) : FileCall → Called
  | .read offset limit => readFile workspaceRoot getwd disk path offset limit
  | .write content => writeFile workspaceRoot getwd disk path content
  | .edit oldText newText => editFile workspaceRoot getwd disk path oldText newText

/-! ## Confinement -/

def cleanedAbs (getwd : Except Str Path.WorkDir) (path : Str) :
    Except Str Str :=
  (Path.abs getwd path).map Path.clean

/-- The path is the root or lies beneath it, element by element. -/
def Within (root p : Str) : Prop :=
  Path.isAbs root = true ∧ Path.isAbs p = true ∧ Path.elements root <+: Path.elements p

/-- The path leads through a neighbour of the root whose name goes on where the root's ends. -/
def Beside (root p : Str) : Prop :=
  Path.isAbs root = true ∧ Path.isAbs p = true ∧
    Path.Neighbours (Path.elements root) (Path.elements p)

instance (root p : Str) : Decidable (Within root p) := instDecidableAnd

/-- The path is accepted exactly if it is within the root, in its cleaned form; no file
outside is read or written on its account, and no directory is made outside but those the
root itself lies in. -/
structure Confined (workspaceRoot : Str) (getwd : Except Str Path.WorkDir)
    (path : Str) : Prop where
  accepts : ∀ p, validatePath workspaceRoot getwd path = .ok p ↔
    cleanedAbs getwd path = .ok p ∧ Within workspaceRoot p
  files : ∀ (disk : Disk) (call : FileCall),
    ∀ a ∈ (call.run workspaceRoot getwd disk path).accesses,
    ∀ f, a.file = some f → Within workspaceRoot f
  dirs : ∀ (disk : Disk) (call : FileCall) (d : Str),
    .mkdirAll d ∈ (call.run workspaceRoot getwd disk path).accesses →
      Within workspaceRoot d ∨ cleanedAbs getwd path = .ok workspaceRoot

/-- Neither does the path lead through such a neighbour, nor is it empty and means a
directory within the root. -/
def Clear (workspaceRoot : Str) (getwd : Except Str Path.WorkDir) (path : Str) :
    Prop :=
  ∀ p, cleanedAbs getwd path = .ok p →
    (path ≠ [] → ¬ Beside workspaceRoot p) ∧ (path = [] → ¬ Within workspaceRoot p)

/-! ## What is accepted -/

theorem setWorkspaceRoot_cases (getwd : Except Str Path.WorkDir) (root : Str) :
    (∃ es, (∀ e ∈ es, Path.Proper e) ∧ setWorkspaceRoot getwd root = Path.rooted es) ∨
      (setWorkspaceRoot getwd root ≠ [] ∧ Path.isAbs (setWorkspaceRoot getwd root) = false) := by
  unfold setWorkspaceRoot
  cases habs : Path.abs getwd root with
  | ok abs =>
    obtain ⟨es, hes, heq⟩ := Path.abs_eq_rooted habs
    exact Or.inl ⟨es, hes, by rw [heq]; exact Path.clean_rooted hes⟩
  | error err =>
    refine Or.inr (Path.clean_relative ?_)
    by_contra hroot
    unfold Path.abs at habs
    rw [if_pos (by simpa using hroot)] at habs
    cases habs

theorem cleanedAbs_eq_rooted {p : Str}
    (h : cleanedAbs getwd path = .ok p) : ∃ es, (∀ e ∈ es, Path.Proper e) ∧ p = Path.rooted es := by
  unfold cleanedAbs at h
  cases habs : Path.abs getwd path with
  | error err =>
    rw [habs] at h
    cases h
  | ok abs =>
    rw [habs, Except.map, Except.ok.injEq] at h
    obtain ⟨es, hes, heq⟩ := Path.abs_eq_rooted habs
    exact ⟨es, hes, by rw [← h, heq, Path.clean_rooted hes]⟩

theorem within_rooted {es es' : List Str} (h : ∀ e ∈ es, Path.Proper e)
    (h' : ∀ e ∈ es', Path.Proper e) : Within (Path.rooted es) (Path.rooted es') ↔ es <+: es' := by
  rw [Within, Path.isAbs_rooted, Path.isAbs_rooted, Path.elements_rooted h, Path.elements_rooted h']
  simp

theorem beside_rooted {es es' : List Str} (h : ∀ e ∈ es, Path.Proper e)
    (h' : ∀ e ∈ es', Path.Proper e) :
    Beside (Path.rooted es) (Path.rooted es') ↔ Path.Neighbours es es' := by
  rw [Beside, Path.isAbs_rooted, Path.isAbs_rooted, Path.elements_rooted h, Path.elements_rooted h']
  simp

theorem not_within_of_beside {root p : Str} (h : Beside root p) : ¬ Within root p := by
  obtain ⟨_, _, init, last, x, rest, hes, hes', _, hne⟩ := h
  rintro ⟨_, _, more, hmore⟩
  rw [hes, hes', List.append_assoc, List.append_cancel_left_eq] at hmore
  exact hne (List.cons.inj hmore).1

section Accepted

variable {getwd₀ getwd : Except Str Path.WorkDir} {root path p : Str}

theorem hasPrefix_root_iff (h : cleanedAbs getwd path = .ok p) :
    hasPrefix p (setWorkspaceRoot getwd₀ root) = true ↔
      Within (setWorkspaceRoot getwd₀ root) p ∨ Beside (setWorkspaceRoot getwd₀ root) p := by
  obtain ⟨es', hes', rfl⟩ := cleanedAbs_eq_rooted h
  rcases setWorkspaceRoot_cases getwd₀ root with ⟨es, hes, heq⟩ | ⟨hne, habs⟩
  · rw [heq, hasPrefix_iff, within_rooted hes hes', beside_rooted hes hes',
      Path.rooted_prefix_iff hes hes']
  · refine iff_of_false ?_ ?_
    · intro hpre
      rw [hasPrefix_iff] at hpre
      have hp := Path.isAbs_rooted es'
      cases hroot : setWorkspaceRoot getwd₀ root with
      | nil => exact hne hroot
      | cons c rest =>
        rw [hroot] at hpre habs
        obtain ⟨t, ht⟩ := hpre
        rw [← ht] at hp
        rw [show Path.isAbs (c :: rest ++ t) = Path.isAbs (c :: rest) from rfl, habs] at hp
        cases hp
    · rintro (⟨hroot, _⟩ | ⟨hroot, _⟩)
      · rw [habs] at hroot
        cases hroot
      · rw [habs] at hroot
        cases hroot

theorem root_ne_nil : setWorkspaceRoot getwd₀ root ≠ [] := by
  rcases setWorkspaceRoot_cases getwd₀ root with ⟨es, _, heq⟩ | ⟨hne, _⟩
  · intro hnil
    have habs := Path.isAbs_rooted es
    rw [← heq, hnil] at habs
    exact absurd habs (by decide)
  · exact hne

theorem validatePath_iff :
    validatePath (setWorkspaceRoot getwd₀ root) getwd path = .ok p ↔
      path ≠ [] ∧ cleanedAbs getwd path = .ok p ∧
        (Within (setWorkspaceRoot getwd₀ root) p ∨ Beside (setWorkspaceRoot getwd₀ root) p) := by
  have hpre : cleanedAbs getwd path = .ok p →
      (hasPrefix p (setWorkspaceRoot getwd₀ root) = true ↔
        Within (setWorkspaceRoot getwd₀ root) p ∨ Beside (setWorkspaceRoot getwd₀ root) p) :=
    hasPrefix_root_iff
  unfold validatePath
  by_cases hempty : path = []
  · rw [if_pos hempty]
    exact iff_of_false (by simp) (fun h => h.1 hempty)
  · rw [if_neg hempty]
    unfold cleanedAbs at hpre ⊢
    cases habs : Path.abs getwd path with
    | error err => exact iff_of_false (by simp) (by simp [Except.map])
    | ok abs =>
      rw [habs] at hpre
      dsimp only [Except.map] at hpre ⊢
      rw [Except.ok.injEq] at hpre ⊢
      by_cases hout : hasPrefix (Path.clean abs) (setWorkspaceRoot getwd₀ root) = false
      · rw [if_pos ⟨root_ne_nil, hout⟩]
        refine iff_of_false (by simp) ?_
        rintro ⟨_, heq, hin⟩
        rw [heq, Bool.eq_false_iff] at hout
        exact hout ((hpre heq).mpr hin)
      · rw [if_neg (fun h => hout h.2), Except.ok.injEq]
        rw [Bool.not_eq_false] at hout
        constructor
        · intro heq
          exact ⟨hempty, heq, (hpre heq).mp (heq ▸ hout)⟩
        · rintro ⟨_, heq, _⟩
          exact heq

end Accepted

/-! ## What is touched -/

/-- The access is to the path, or makes the directory it is in. -/
def Access.At (p : Str) (a : Access) : Prop := a.file = some p ∨ a = .mkdirAll (Path.dir p)

theorem onValidPath_accesses {workspaceRoot : Str} {body : Str → Called}
    (hbody : ∀ p, ∀ a ∈ (body p).accesses, Access.At p a) {a : Access}
    (ha : a ∈ (onValidPath workspaceRoot getwd path body).accesses) :
    ∃ p, validatePath workspaceRoot getwd path = .ok p ∧ Access.At p a := by
  unfold onValidPath at ha
  cases hvalid : validatePath workspaceRoot getwd path with
  | error err =>
    rw [hvalid] at ha
    cases ha
  | ok p =>
    rw [hvalid] at ha
    exact ⟨p, rfl, hbody p a ha⟩

theorem FileCall.run_accesses {workspaceRoot : Str} {disk : Disk} {call : FileCall}
    {a : Access} (ha : a ∈ (call.run workspaceRoot getwd disk path).accesses) :
    ∃ p, validatePath workspaceRoot getwd path = .ok p ∧ Access.At p a := by
  cases call with
  | read offset limit =>
    refine onValidPath_accesses ?_ ha
    intro p a ha
    rw [List.mem_singleton.mp ha]
    exact Or.inl rfl
  | write content =>
    refine onValidPath_accesses ?_ ha
    intro p a ha
    cases hdir : disk.mkdirAll (Path.dir p) with
    | some err =>
      rw [hdir] at ha
      exact Or.inr (List.mem_singleton.mp ha)
    | none =>
      rw [hdir] at ha
      rcases List.mem_cons.mp ha with rfl | ha
      · exact Or.inr rfl
      · rw [List.mem_singleton.mp ha]
        exact Or.inl rfl
  | edit oldText newText =>
    refine onValidPath_accesses ?_ ha
    intro p a ha
    cases hread : disk.readFile p with
    | error err =>
      rw [hread] at ha
      rw [List.mem_singleton.mp ha]
      exact Or.inl rfl
    | ok content =>
      rw [hread] at ha
      dsimp only at ha
      by_cases hcount : count content oldText = 0
      · rw [if_pos hcount] at ha
        rw [List.mem_singleton.mp ha]
        exact Or.inl rfl
      · rw [if_neg hcount] at ha
        rcases List.mem_cons.mp ha with rfl | ha
        · exact Or.inl rfl
        · rw [List.mem_singleton.mp ha]
          exact Or.inl rfl

theorem within_dir {getwd₀ : Except Str Path.WorkDir} {root p : Str}
    (h : cleanedAbs getwd path = .ok p) (hin : Within (setWorkspaceRoot getwd₀ root) p) :
    Within (setWorkspaceRoot getwd₀ root) (Path.dir p) ∨ p = setWorkspaceRoot getwd₀ root := by
  obtain ⟨es', hes', rfl⟩ := cleanedAbs_eq_rooted h
  rcases setWorkspaceRoot_cases getwd₀ root with ⟨es, hes, heq⟩ | ⟨_, habs⟩
  · rw [heq] at hin ⊢
    rw [within_rooted hes hes'] at hin
    obtain ⟨more, rfl⟩ := hin
    induction more using List.reverseRecOn with
    | nil => exact Or.inr (by rw [List.append_nil])
    | append_singleton more e _ =>
      refine Or.inl ?_
      rw [← List.append_assoc] at hes' ⊢
      rw [Path.dir_rooted hes',
        within_rooted hes (fun d hd => hes' d (List.mem_append_left _ hd))]
      exact List.prefix_append _ _
  · rw [Within, habs] at hin
    cases hin.1

/-- A path is confined to the root exactly if it neither leads through a neighbour of the
root whose name begins with the root's, nor is the empty path inside the root. -/
theorem confined_iff (getwd₀ getwd : Except Str Path.WorkDir) (root path : Str) :
    Confined (setWorkspaceRoot getwd₀ root) getwd path ↔
      Clear (setWorkspaceRoot getwd₀ root) getwd path := by
  constructor
  · intro h p hp
    refine ⟨?_, ?_⟩
    · intro hne hbeside
      have hok := validatePath_iff.mpr ⟨hne, hp, Or.inr hbeside⟩
      exact not_within_of_beside hbeside ((h.accepts p).mp hok).2
    · intro hempty hin
      exact (validatePath_iff.mp ((h.accepts p).mpr ⟨hp, hin⟩)).1 hempty
  · intro h
    have haccepts : ∀ p, validatePath (setWorkspaceRoot getwd₀ root) getwd path = .ok p ↔
        cleanedAbs getwd path = .ok p ∧ Within (setWorkspaceRoot getwd₀ root) p := by
      intro p
      rw [validatePath_iff]
      constructor
      · rintro ⟨hne, hp, hin | hbeside⟩
        · exact ⟨hp, hin⟩
        · exact absurd hbeside ((h p hp).1 hne)
      · rintro ⟨hp, hin⟩
        exact ⟨fun hempty => (h p hp).2 hempty hin, hp, Or.inl hin⟩
    refine ⟨haccepts, ?_, ?_⟩
    · intro disk call a ha f hf
      obtain ⟨p, hvalid, hfile | rfl⟩ := FileCall.run_accesses ha
      · rw [hfile, Option.some.injEq] at hf
        exact hf ▸ ((haccepts p).mp hvalid).2
      · cases hf
    · intro disk call d ha
      obtain ⟨p, hvalid, hfile | hdir⟩ := FileCall.run_accesses ha
      · cases hfile
      · obtain ⟨hp, hin⟩ := (haccepts p).mp hvalid
        rw [Access.mkdirAll.injEq] at hdir
        rcases within_dir hp hin with hwithin | heq
        · exact Or.inl (hdir ▸ hwithin)
        · exact Or.inr (heq ▸ hp)

/-- A process in `/`. -/
def atRoot : Except Str Path.WorkDir := .ok ⟨lit "/", by decide⟩

/-- With the root `/work`, the directory `/work-old` is written to. -/
theorem neighbour_accepted :
    validatePath (setWorkspaceRoot atRoot (lit "/work")) atRoot (lit "/work-old/x") =
        .ok (lit "/work-old/x") ∧
      ¬ Within (setWorkspaceRoot atRoot (lit "/work")) (lit "/work-old/x") ∧
      ¬ Confined (setWorkspaceRoot atRoot (lit "/work")) atRoot (lit "/work-old/x") := by
  have hvalid : validatePath (setWorkspaceRoot atRoot (lit "/work")) atRoot (lit "/work-old/x") =
      .ok (lit "/work-old/x") := by decide +kernel
  have hout : ¬ Within (setWorkspaceRoot atRoot (lit "/work")) (lit "/work-old/x") := by
    decide +kernel
  exact ⟨hvalid, hout, fun h => hout ((h.accepts _).mp hvalid).2⟩

end Tools

end MiniGoAgent

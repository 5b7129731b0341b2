/-
# `Protocol.WireTools` — the tools of a request (`openai.go`, `schema_canonicalize.go`)

`toWireTools` sorts the tools by their names and writes the parameters of each as
`CanonicalizeSchema` and then `sortSchemaKeys` leave them.  Both go through an `any`, so
what is written depends only on the value that is held there.  It is the encoding of
`schema`, which is `Held`, and hence is read again as it is: this gives the meaning of what
is written and that writing it again changes nothing.

The order of members matters where a key is repeated, since the last member of a key is
the one that is held (`toWireTools_repeatedKey`).
-/
import MiniGoAgent.Go.JsonAny

open Go Go.Json

namespace MiniGoAgent

structure ToolSchema where
  name : Str
  description : Str := []
  parameters : Str := []
  deriving DecidableEq

structure WireTool where
  type : Str := lit "function"
  name : Str
  description : Str
  parameters : Str
  deriving DecidableEq

def sanitizeTool (t : ToolSchema) : ToolSchema :=
  let t := if trimSpace t.name = [] then { t with name := lit "unnamed_tool" } else t
  if trimSpace t.description = [] then { t with description := lit "user-defined tool" } else t

/-! ## Schemas -/

variable (num : NumberFormat)

/-- `json.Unmarshal` into an `any`. -/
def unmarshalAny (text : Str) : Option Value := unmarshal .null (decodeAny num) text

/-- `obj[k] == nil`: the member is missing or null. -/
def isNil (k : Str) (obj : List (Str × Value)) : Bool :=
  (lastFor k obj).all (fun v => v = .null)

/-- A member is stored if there is none. -/
def setNil (k : Str) (v : Value) (obj : List (Str × Value)) : List (Str × Value) :=
  if isNil k obj then obj ++ [(k, v)] else obj

/-- The two repairs of `CanonicalizeSchema`. -/
def repaired (obj : List (Str × Value)) : List (Str × Value) :=
  setNil (lit "properties") (.obj []) (setNil (lit "type") (.str (lit "object")) obj)

def defaultSchema : Str :=
  encode (.obj [(lit "type", .str (lit "object")), (lit "properties", .obj [])])

def canonicalizeSchema (params : Str) : Str :=
  if params.length = 0 then defaultSchema
  else
    match unmarshalAny num params with
    | some (.obj obj) => encode (.obj (repaired obj))
    | _ => defaultSchema

mutual

def sortKeysRecursive : Value → Str
  | .obj ms =>
    byte '{' :: (joinComma ((sortMembers (sortMembersRecursive ms)).map memberText) ++ [byte '}'])
  | .arr xs => byte '[' :: (joinComma (sortElementsRecursive xs) ++ [byte ']'])
  | v => encode v

def sortElementsRecursive : List Value → List Str
  | [] => []
  | x :: xs => sortKeysRecursive x :: sortElementsRecursive xs

def sortMembersRecursive : List (Str × Value) → List (Str × Str)
  | [] => []
  | (k, v) :: ms => (k, sortKeysRecursive v) :: sortMembersRecursive ms

end

def sortSchemaKeys (raw : Str) : Str :=
  match unmarshalAny num raw with
  | some v => sortKeysRecursive v
  | none => raw

/-- What the loop of `toWireTools` makes of a tool. -/
def wireTool (t : ToolSchema) : WireTool :=
  { name := (sanitizeTool t).name
    description := (sanitizeTool t).description
    parameters := sortSchemaKeys num (canonicalizeSchema num (sanitizeTool t).parameters) }

def toWireTools (tools : List ToolSchema) : List WireTool :=
  (tools.insertionSort (fun s t => s.name ≤ t.name)).map (wireTool num)

/-! ## What is held -/

/-- The members of the parameters, none if they are not an object. -/
def given (params : Str) : List (Str × Value) :=
  match unmarshalAny num params with
  | some (.obj obj) => obj
  | _ => []

def schema (params : Str) : Value :=
  .obj (sortMembers (lastOfKey (repaired (given num params))))

abbrev schemaMembers (params : Str) : List (Str × Value) :=
  sortMembers (lastOfKey (repaired (given num params)))

theorem canonicalizeSchema_given (params : Str) :
    canonicalizeSchema num params = encode (.obj (repaired (given num params))) := by
  unfold canonicalizeSchema given
  split
  next hlen =>
    rw [List.length_eq_zero_iff.mp hlen]
    rfl
  next => split <;> rfl

variable {num}

theorem held_setNil {n : Nat} {k : Str} {v : Value} {obj : List (Str × Value)}
    (hk : toValid k = k) (hv : Held num n v)
    (hobj : ∀ m ∈ obj, toValid m.1 = m.1 ∧ Held num n m.2) :
    ∀ m ∈ setNil k v obj, toValid m.1 = m.1 ∧ Held num n m.2 := by
  intro m hm
  unfold setNil at hm
  split at hm
  · rcases List.mem_append.mp hm with hm | hm
    · exact hobj m hm
    · rw [List.mem_singleton.mp hm]
      exact ⟨hk, hv⟩
  · exact hobj m hm

theorem held_repaired {n : Nat} {obj : List (Str × Value)}
    (hobj : ∀ m ∈ obj, toValid m.1 = m.1 ∧ Held num (n + 1) m.2) :
    ∀ m ∈ repaired obj, toValid m.1 = m.1 ∧ Held num (n + 1) m.2 := by
  refine held_setNil (by decide) (.obj .nil ?_ ?_) (held_setNil (by decide) (.str (by decide)) hobj)
  · exact List.forall_mem_nil _
  · exact List.forall_mem_nil _

section Lawful

variable (hnum : num.Lawful) (params : Str)

include hnum

theorem held_given : ∀ m ∈ given num params, toValid m.1 = m.1 ∧ Held num 9999 m.2 := by
  fun_cases given num params
  case case1 obj hany =>
    cases held_of_unmarshal hnum hany with
    | obj _ hutf8 hvalues => exact fun m hm => ⟨hutf8 m hm, hvalues m hm⟩
  case case2 => exact List.forall_mem_nil _

theorem held_schema : Held num maxNestingDepth (schema num params) := by
  have hmembers := held_repaired (held_given hnum params)
  exact .ofMembers (fun m hm => (hmembers m hm).1) (fun m hm => (hmembers m hm).2)

theorem canonicalizeSchema_eq : canonicalizeSchema num params = encode (schema num params) := by
  have hmembers := held_repaired (held_given hnum params)
  rw [canonicalizeSchema_given, (held_schema hnum params).encode, ← print_sorted, Value.sorted,
    sortedValues_of_forall fun m hm => (hmembers m hm).2.sorted]
  rfl

theorem unmarshalAny_canonicalizeSchema :
    unmarshalAny num (canonicalizeSchema num params) = some (schema num params) := by
  rw [canonicalizeSchema_eq hnum]
  exact (held_schema hnum params).unmarshal (Nat.le_refl _)

end Lawful

/-! ## Writing again -/

theorem sortKeysRecursive_eq {n : Nat} {v : Value} (h : Held num n v) :
    sortKeysRecursive v = encode v := by
  induction h with
  | @arr _ xs _ ih =>
    have hparts : sortElementsRecursive xs = encodeElements xs := by
      clear * - ih
      induction xs with
      | nil => rfl
      | cons x xs ihxs =>
        obtain ⟨hx, hxs⟩ := List.forall_mem_cons.mp ih
        rw [sortElementsRecursive, encodeElements, hx, ihxs hxs]
    rw [sortKeysRecursive, encode, hparts]
  | @obj _ ms hkeys _ _ ih =>
    have hparts : sortMembersRecursive ms = encodeMembers ms := by
      clear * - ih
      induction ms with
      | nil => rfl
      | cons m ms ihms =>
        obtain ⟨hm, hms⟩ := List.forall_mem_cons.mp ih
        rw [sortMembersRecursive, encodeMembers, hm, ihms hms]
    have hnodup : ((encodeMembers ms).map Prod.fst).Nodup := by
      rw [map_fst_encodeMembers]
      exact nodup_of_increasing hkeys
    rw [sortKeysRecursive, encode, hparts, lastOfKey_of_nodup hnodup]
  | _ => rfl

theorem sortSchemaKeys_canonicalizeSchema (hnum : num.Lawful) (params : Str) :
    sortSchemaKeys num (canonicalizeSchema num params) = canonicalizeSchema num params := by
  rw [sortSchemaKeys, unmarshalAny_canonicalizeSchema hnum]
  dsimp only
  rw [sortKeysRecursive_eq (held_schema hnum params), canonicalizeSchema_eq hnum]

theorem lastFor_setNil (k k' : Str) (v : Value) (obj : List (Str × Value)) :
    lastFor k (setNil k' v obj) = if k = k' ∧
      isNil k obj = true then some v else lastFor k obj := by
  unfold setNil
  by_cases hkey : k = k'
  · subst hkey
    by_cases hnil : isNil k obj = true
    · rw [if_pos hnil, lastFor_snoc, if_pos rfl, if_pos ⟨rfl, hnil⟩]
    · rw [if_neg hnil, if_neg (fun h => hnil h.2)]
  · have hnot : ¬ (k = k' ∧ isNil k obj = true) := fun h => hkey h.1
    rw [if_neg hnot]
    split
    · rw [lastFor_snoc, if_neg (fun h => hkey h.symm)]
    · rfl

/-- The value of a key when a missing or null type and properties are filled in. -/
def completed (obj : List (Str × Value)) (k : Str) : Option Value :=
  if k = lit "properties" ∧ isNil k obj = true then some (.obj [])
  else if k = lit "type" ∧ isNil k obj = true then some (.str (lit "object"))
  else lastFor k obj

theorem lastFor_repaired (obj : List (Str × Value)) (k : Str) :
    lastFor k (repaired obj) = completed obj k := by
  rw [repaired, lastFor_setNil, lastFor_setNil, completed]
  refine if_congr (and_congr_right fun hk => ?_) rfl rfl
  have hother : ¬ (k = lit "type" ∧ isNil k obj = true) :=
    fun h => absurd (hk.symm.trans h.1) (by decide)
  rw [isNil, isNil, lastFor_setNil, if_neg hother]

theorem lastFor_schema (params k : Str) :
    lastFor k (schemaMembers num params) = completed (given num params) k := by
  rw [lastFor_sortMembers, lastFor_repaired]

theorem repaired_schema (params : Str) :
    repaired (schemaMembers num params) = schemaMembers num params := by
  have hfilled : ∀ k, k = lit "properties" ∨ k = lit "type" →
      ¬ isNil k (schemaMembers num params) = true := by
    intro k hk hnil
    rw [isNil, lastFor_schema, completed] at hnil
    by_cases hwas : isNil k (given num params) = true
    · rcases hk with rfl | rfl
      · rw [if_pos ⟨rfl, hwas⟩] at hnil
        cases hnil
      · rw [if_neg (fun h => absurd h.1 (by decide)), if_pos ⟨rfl, hwas⟩] at hnil
        cases hnil
    · rw [if_neg (fun h => hwas h.2), if_neg (fun h => hwas h.2)] at hnil
      exact hwas hnil
  rw [repaired, setNil, setNil, if_neg (hfilled _ (.inr rfl)), if_neg (hfilled _ (.inl rfl))]

theorem canonicalizeSchema_canonicalizeSchema (hnum : num.Lawful) (params : Str) :
    canonicalizeSchema num (canonicalizeSchema num params) = canonicalizeSchema num params := by
  have hgiven : given num (canonicalizeSchema num params) = schemaMembers num params := by
    rw [given, unmarshalAny_canonicalizeSchema hnum]
    rfl
  rw [canonicalizeSchema_given, hgiven, repaired_schema, canonicalizeSchema_eq hnum]
  rfl

/-! ## Rewriting -/

/-- Two spellings of parameters: the same bytes, or documents that differ in white space, in
how strings are written and in the order of members with different keys. -/
inductive Rewritten : Str → Str → Prop
  | same (params : Str) : Rewritten params params
  | text (s t : Json.Text) (h : Relation.ReflTransGen Swap s.doc.value t.doc.value) :
      Rewritten s.bytes t.bytes

theorem Rewritten.unmarshalAny {p q : Str} (h : Rewritten p q) :
    unmarshalAny num p = unmarshalAny num q := by
  cases h with
  | same => rfl
  | text s t h =>
    have hvalues : _ ∧ decodeAny num .null _ = decodeAny num .null _ := decodeAny_of_swaps h
    rw [Doc.depth_value, Doc.depth_value] at hvalues
    rw [MiniGoAgent.unmarshalAny, MiniGoAgent.unmarshalAny, unmarshal, unmarshal,
      Json.Text.parse_bytes, Json.Text.parse_bytes, hvalues.1]
    split
    · exact hvalues.2
    · rfl

/-- A tool whose parameters are spelled in another way. -/
structure ToolSchema.Rewritten (t t' : ToolSchema) : Prop where
  name : t'.name = t.name
  description : t'.description = t.description
  parameters : MiniGoAgent.Rewritten t.parameters t'.parameters

theorem sanitizeTool_parameters (t : ToolSchema) (params : Str) :
    sanitizeTool { t with parameters := params } =
      { sanitizeTool t with parameters := params } := by
  simp only [sanitizeTool]
  split <;> split <;> rfl

theorem parameters_sanitizeTool (t : ToolSchema) : (sanitizeTool t).parameters = t.parameters := by
  have h := congrArg ToolSchema.parameters (sanitizeTool_parameters t t.parameters)
  exact h

theorem wireTool_congr (t : ToolSchema) {params : Str}
    (h : unmarshalAny num params = unmarshalAny num t.parameters) :
    wireTool num { t with parameters := params } = wireTool num t := by
  have hcanonical : canonicalizeSchema num params = canonicalizeSchema num t.parameters := by
    rw [canonicalizeSchema_given, canonicalizeSchema_given, given, given, h]
  rw [wireTool, wireTool, sanitizeTool_parameters, parameters_sanitizeTool]
  dsimp only
  rw [hcanonical]

theorem ToolSchema.Rewritten.wireTool {t t' : ToolSchema} (h : t.Rewritten t') :
    wireTool num t' = wireTool num t := by
  have ht' : t' = { t with parameters := t'.parameters } := by
    rw [← h.name, ← h.description]
  rw [ht']
  exact wireTool_congr t h.parameters.unmarshalAny.symm

/-! ## The list -/

theorem toWireTools_eq_sortMembers (tools : List ToolSchema) :
    toWireTools num tools =
      (sortMembers (tools.map (fun t => (t.name, wireTool num t)))).map Prod.snd := by
  have hsort := List.map_insertionSort (fun s t : ToolSchema => s.name ≤ t.name)
    (fun m n : Str × WireTool => m.1 ≤ n.1) (fun t => (t.name, wireTool num t)) tools
    (fun _ _ _ _ => Iff.rfl)
  rw [sortMembers, ← hsort, List.map_map]
  rfl

theorem toWireTools_perm {tools tools' : List ToolSchema} (h : tools'.Perm tools)
    (hnames : (tools.map ToolSchema.name).Nodup) :
    toWireTools num tools' = toWireTools num tools := by
  rw [toWireTools_eq_sortMembers, toWireTools_eq_sortMembers]
  refine congrArg _ (sortMembers_eq_of_perm (h.map _) ?_)
  rw [List.map_map]
  exact ((h.map ToolSchema.name).nodup_iff).mpr hnames

theorem toWireTools_rewritten {tools tools' : List ToolSchema}
    (h : List.Forall₂ ToolSchema.Rewritten tools tools') :
    toWireTools num tools' = toWireTools num tools := by
  have hpairs : tools'.map (fun t => (t.name, wireTool num t)) =
      tools.map (fun t => (t.name, wireTool num t)) := by
    induction h with
    | nil => rfl
    | cons ht _ ih => rw [List.map_cons, List.map_cons, ih, ht.name, ht.wireTool]
  rw [toWireTools_eq_sortMembers, toWireTools_eq_sortMembers, hpairs]

variable (num) in
/-- What is written for a tool: its parameters are read as the object that was given with a
missing or null type and properties filled in, or as the default schema. -/
structure ToolSchema.WrittenAs (t : ToolSchema) (w : WireTool) : Prop where
  name : w.name = (sanitizeTool t).name
  description : w.description = (sanitizeTool t).description
  object : ∀ obj, unmarshalAny num t.parameters = some (.obj obj) →
    ∃ obj', unmarshalAny num w.parameters = some (.obj obj') ∧ ∀ k, lastFor k obj' = completed obj k
  other : (∀ obj, unmarshalAny num t.parameters ≠ some (.obj obj)) →
    unmarshalAny num w.parameters =
      some (.obj [(lit "properties", .obj []), (lit "type", .str (lit "object"))])
  canonical : canonicalizeSchema num w.parameters = w.parameters ∧
    sortSchemaKeys num w.parameters = w.parameters

theorem writtenAs_wireTool (hnum : num.Lawful) (t : ToolSchema) :
    t.WrittenAs num (wireTool num t) := by
  have hparams : (wireTool num t).parameters = canonicalizeSchema num t.parameters := by
    rw [wireTool, parameters_sanitizeTool]
    exact sortSchemaKeys_canonicalizeSchema hnum t.parameters
  have hread := unmarshalAny_canonicalizeSchema hnum t.parameters
  refine ⟨rfl, rfl, ?_, ?_, ?_⟩
  · intro obj hobj
    have hgiven : given num t.parameters = obj := by rw [given, hobj]
    rw [hparams, hread, ← hgiven]
    exact ⟨_, rfl, lastFor_schema t.parameters⟩
  · intro hother
    have hgiven : given num t.parameters = [] := by
      fun_cases given num t.parameters
      case case1 obj hany => exact absurd hany (hother obj)
      case case2 => rfl
    rw [hparams, hread, schema, hgiven]
    rfl
  · rw [hparams]
    exact ⟨canonicalizeSchema_canonicalizeSchema hnum _, sortSchemaKeys_canonicalizeSchema hnum _⟩

/-- Tools with distinct names are written alike in every order and with every spelling of
their parameters, in the order of the names, each as `WrittenAs` says. -/
theorem toWireTools_canonical (hnum : num.Lawful) {tools : List ToolSchema}
    (hnames : (tools.map ToolSchema.name).Nodup) :
    (∀ rewritten permuted : List ToolSchema, List.Forall₂ ToolSchema.Rewritten tools rewritten →
        permuted.Perm rewritten → toWireTools num permuted = toWireTools num tools) ∧
      ∃ sorted : List ToolSchema, sorted.Perm tools ∧ sorted.Pairwise (fun s t => s.name ≤ t.name) ∧
        List.Forall₂ (ToolSchema.WrittenAs num) sorted (toWireTools num tools) := by
  constructor
  · intro rewritten permuted hrewritten hperm
    have hnames' : (rewritten.map ToolSchema.name).Nodup := by
      have hsame : rewritten.map ToolSchema.name = tools.map ToolSchema.name := by
        clear hperm hnames
        induction hrewritten with
        | nil => rfl
        | cons ht _ ih => rw [List.map_cons, List.map_cons, ih, ht.name]
      rw [hsame]
      exact hnames
    rw [toWireTools_perm hperm hnames', toWireTools_rewritten hrewritten]
  · have : Std.Total (fun s t : ToolSchema => s.name ≤ t.name) :=
      ⟨fun s t => List.le_total s.name t.name⟩
    have : IsTrans ToolSchema (fun s t => s.name ≤ t.name) := ⟨fun _ _ _ => List.le_trans⟩
    refine ⟨_, List.perm_insertionSort _ tools, List.pairwise_insertionSort _ tools, ?_⟩
    rw [toWireTools, List.forall₂_map_right_iff, List.forall₂_same]
    exact fun t _ => writtenAs_wireTool hnum t

/-- A format in which the only number is one. -/
def oneFormat : NumberFormat where
  format l := if l = lit "1" then some l else none
  isNumText_of_format := by
    intro l t h
    obtain ⟨rfl, h⟩ := Option.ite_none_right_eq_some.mp h
    cases h
    decide

theorem lawful_oneFormat : oneFormat.Lawful := by
  constructor
  · intro l t h
    obtain ⟨rfl, h⟩ := Option.ite_none_right_eq_some.mp h
    cases h
    exact ⟨by decide, List.all_eq_true.mp (by decide), .one, by decide, fun _ => rfl⟩
  · intro l t h
    obtain ⟨rfl, h⟩ := Option.ite_none_right_eq_some.mp h
    cases h
    rfl

theorem toWireTools_canonical_pair :
    toWireTools oneFormat [{ name := lit "b" },
        { name := lit "a", parameters := lit " \x7b\"y\":[],\"x\":1\x7d" }] =
      toWireTools oneFormat [{ name := lit "a", parameters := lit "\x7b\"x\":1,\"y\":[]\x7d" },
        { name := lit "b" }] := by
  have hone : IsNumber (lit "1") :=
    ⟨by decide, List.all_eq_true.mp (by decide), .one, by decide, fun _ => rfl⟩
  have hblank : IsBlank (lit " ") := by
    intro c hc
    obtain rfl : c = 0x20 := List.mem_singleton.mp hc
    decide
  have hrewritten := Rewritten.text
    (Json.Text.ofValue (.obj [(lit "x", .num (lit "1")), (lit "y", .arr [])])
      ⟨hone, trivial, trivial⟩)
    { Json.Text.ofValue (.obj [(lit "y", .arr []), (lit "x", .num (lit "1"))])
        ⟨trivial, hone, trivial⟩ with lead := lit " ", blank_lead := hblank }
    (.single (@Swap.members [] [] _ _ (by decide)))
  exact (toWireTools_canonical lawful_oneFormat (by decide)).1
    [{ name := lit "a", parameters := lit " \x7b\"y\":[],\"x\":1\x7d" }, { name := lit "b" }] _
    (.cons ⟨rfl, rfl, hrewritten⟩ (.cons ⟨rfl, rfl, .same _⟩ .nil)) (.swap _ _ _)

/-- Members with the same key, in one order and in the other. -/
def repeatedKey (first : Bool) : Value := .obj [(lit "a", .bool first), (lit "a", .bool (!first))]

theorem toWireTools_repeatedKey :
    (repeatedKey true).print = lit "\x7b\"a\":true,\"a\":false\x7d" ∧
      (repeatedKey false).print = lit "\x7b\"a\":false,\"a\":true\x7d" ∧
      toWireTools oneFormat [{ name := lit "f", parameters := (repeatedKey true).print }] ≠
        toWireTools oneFormat [{ name := lit "f", parameters := (repeatedKey false).print }] := by
  decide +kernel

end MiniGoAgent

/-
# `Go.JsonTarget` — structs, slices and maps, there and back

A struct is written field by field, without the fields that are empty and marked so
(`omitEmpty`), and read member by member; a map is written in the order of its keys, and
a member that is read again replaces the one before it.
-/
import MiniGoAgent.Go.JsonPrint

namespace Go.Json

variable {ms : List (Str × Value)} {n : Nat} {α : Type} {v : Value}

/-! ## Values that can be read -/

/-- The numbers are number literals, and at most `n` containers are open at once. -/
structure Value.Fits (n : Nat) (v : Value) : Prop where
  numbers : v.NumbersOk
  depth : v.doc.depth ≤ n

theorem fits_str (n : Nat) (s : Str) : (Value.str s).Fits n := ⟨trivial, Nat.zero_le n⟩

theorem fits_arr {xs : List Value} (h : ∀ x ∈ xs, x.Fits n) : (Value.arr xs).Fits (n + 1) := by
  suffices hitems : ElementsOk xs ∧ itemsDepth (elementItems xs) ≤ n from
    ⟨hitems.1, Nat.succ_le_succ hitems.2⟩
  induction xs with
  | nil => exact ⟨trivial, Nat.zero_le n⟩
  | cons x xs ih =>
    obtain ⟨hx, hxs⟩ := List.forall_mem_cons.mp h
    obtain ⟨hnumbers, hdepth⟩ := ih hxs
    exact ⟨⟨hx.numbers, hnumbers⟩, max_le hx.depth hdepth⟩

theorem fits_obj (h : ∀ m ∈ ms, m.2.Fits n) : (Value.obj ms).Fits (n + 1) := by
  suffices hitems : MembersOk ms ∧ itemsDepth (memberItems ms) ≤ n from
    ⟨hitems.1, Nat.succ_le_succ hitems.2⟩
  induction ms with
  | nil => exact ⟨trivial, Nat.zero_le n⟩
  | cons m ms ih =>
    obtain ⟨hm, hms⟩ := List.forall_mem_cons.mp h
    obtain ⟨hnumbers, hdepth⟩ := ih hms
    exact ⟨⟨hm.numbers, hnumbers⟩, max_le hm.depth hdepth⟩

theorem unmarshal_print (zero : α) (d : Decoder α)
    (h : v.Fits n) (hn : n ≤ maxNestingDepth) : unmarshal zero d v.print = d zero v.utf8 := by
  rw [unmarshal, parse_print h.numbers (h.depth.trans hn), Option.bind_some]

theorem utf8Elements_eq_map (xs : List Value) : utf8Elements xs = xs.map Value.utf8 := by
  induction xs with
  | nil => rfl
  | cons x xs ih => rw [utf8Elements, ih, List.map_cons]

theorem utf8Members_eq_map (ms : List (Str × Value)) :
    utf8Members ms = ms.map (fun m => (toValid m.1, m.2.utf8)) := by
  induction ms with
  | nil => rfl
  | cons m ms ih =>
    obtain ⟨k, v⟩ := m
    rw [utf8Members, ih, List.map_cons]

/-! ## Structs -/

/-- A field marked `omitempty`. -/
def omitEmpty {α : Type} (name : String) (l : List α) (v : Value) : List (Str × Value) :=
  if l.isEmpty then [] else [(lit name, v)]

theorem fits_omitEmpty {name : String} {l : List α}
    (h : v.Fits n) : ∀ m ∈ omitEmpty name l v, m.2.Fits n := by
  intro m hm
  cases l with
  | nil => cases hm
  | cons a l =>
    rw [List.mem_singleton.mp hm]
    exact h

theorem utf8Members_omitEmpty {β : Type} {name : String} (hname : toValid (lit name) = lit name)
    {l : List α} {l' : List β} (hl : l'.isEmpty = l.isEmpty) (v : Value) :
    (omitEmpty name l v).map (fun m => (toValid m.1, m.2.utf8)) = omitEmpty name l' v.utf8 := by
  rw [omitEmpty, omitEmpty, hl]
  cases l with
  | nil => rfl
  | cons a l =>
    show [(toValid (lit name), v.utf8)] = [(lit name, v.utf8)]
    rw [hname]

theorem isEmpty_toValid (s : Str) : (toValid s).isEmpty = s.isEmpty := by
  rw [Bool.eq_iff_iff, List.isEmpty_iff, List.isEmpty_iff]
  exact toValid_eq_nil

section Struct

variable {σ α : Type} {fields : List (Field σ)} {cur : σ} {name : String}

theorem decodeStruct_cons {k : Str} {f : Field σ} (hk : findField fields k = some f)
    (v : Value) (ms : List (Str × Value)) :
    decodeStruct fields cur (.obj ((k, v) :: ms)) =
      (f.decode cur v).bind (fun next => decodeStruct fields next (.obj ms)) := by
  simp only [decodeStruct, List.foldlM_cons, hk]
  rfl

theorem decodeStruct_field {d : Decoder α} {get : σ → α} {set : σ → α → σ}
    (hname : findField fields (lit name) = some (field name d get set)) {a : α}
    (hread : d (get cur) v = some a) (ms : List (Str × Value)) :
    decodeStruct fields cur (.obj ((lit name, v) :: ms)) =
      decodeStruct fields (set cur a) (.obj ms) := by
  rw [decodeStruct_cons hname]
  simp only [field, hread, Option.map_some, Option.bind_some]

theorem decodeStruct_omitEmpty {d : Decoder (List α)} {get : σ → List α} {set : σ → List α → σ}
    (hname : findField fields (lit name) = some (field name d get set)) (hget : get cur = [])
    (hset : set cur [] = cur) {l : List α} (hread : d [] v = some l)
    (ms : List (Str × Value)) :
    decodeStruct fields cur (.obj (omitEmpty name l v ++ ms)) =
      decodeStruct fields (set cur l) (.obj ms) := by
  cases l with
  | nil =>
    rw [hset]
    rfl
  | cons a l =>
    rw [← hget] at hread
    exact decodeStruct_field hname hread ms

end Struct

/-! ## Slices and maps -/

theorem mapM_eq_some_map {β : Type} {f : α → Option β} {g : α → β} {l : List α}
    (h : ∀ a ∈ l, f a = some (g a)) : l.mapM f = some (l.map g) := by
  induction l with
  | nil => rfl
  | cons a l ih =>
    obtain ⟨ha, hl⟩ := List.forall_mem_cons.mp h
    rw [List.mapM_cons, ha, ih hl]
    rfl

/-- A `map[string]T` target: `null` clears it, a member is decoded into a zero value and
stored. -/
def decodeMap {α : Type} (zero : α) (d : Decoder α) : Decoder (List (Str × α)) := fun cur v =>
  match v with
  | .null => some []
  | .obj ms =>
    (ms.mapM (fun m => (d zero m.2).map (fun a => (m.1, a)))).map
      (fun ns => lastOfKey (cur ++ ns))
  | _ => none

/-- An `any` target: a map in it is the last member of every key, in the order of the
keys. -/
def decodeAny (num : NumberFormat) : Decoder Value := fun _ v => (renumber num v).map Value.sorted

section Elements

variable {α γ : Type} {zero : α} {d : Decoder α} {xs : List γ} {w : γ → Value} {g : γ → α}

theorem decodeSlice_map (h : ∀ x ∈ xs, d zero (w x) = some (g x)) :
    decodeSlice zero d [] (.arr (xs.map w)) = some (xs.map g) := by
  suffices hfrom : ∀ n, ((xs.map w).zipIdx n).mapM (fun p => d (([] : List α).getD p.2 zero) p.1) =
      some (xs.map g) from hfrom 0
  induction xs with
  | nil =>
    intro n
    rfl
  | cons x xs ih =>
    intro n
    obtain ⟨hx, hxs⟩ := List.forall_mem_cons.mp h
    rw [List.map_cons, List.zipIdx_cons, List.mapM_cons, ih hxs, List.getD_nil, hx]
    rfl

theorem decodeMap_map (k : γ → Str) (h : ∀ x ∈ xs, d zero (w x) = some (g x)) :
    decodeMap zero d [] (.obj (xs.map (fun x => (k x, w x)))) =
      some (lastOfKey (xs.map (fun x => (k x, g x)))) := by
  have hmembers : (xs.map (fun x => (k x, w x))).mapM
      (fun m => (d zero m.2).map (fun a => (m.1, a))) = some (xs.map (fun x => (k x, g x))) := by
    rw [List.mapM_map]
    refine mapM_eq_some_map ?_
    intro x hx
    show (d zero (w x)).map (fun a => (k x, a)) = _
    rw [h x hx, Option.map_some]
  simp only [decodeMap, hmembers, Option.map_some, List.nil_append]

end Elements

section Keys

variable {β : Type} {ms : List (Str × β)}

theorem lastOfKey_of_nodup (h : (ms.map Prod.fst).Nodup) : lastOfKey ms = ms := by
  induction ms with
  | nil => rfl
  | cons m ms ih =>
    obtain ⟨hm, hms⟩ := List.nodup_cons.mp h
    have hnot : ¬ (ms.map Prod.fst).contains m.1 = true := by
      rw [List.contains_iff_mem]
      exact hm
    rw [lastOfKey, if_neg hnot, ih hms]

theorem mem_of_mem_lastOfKey {m : Str × β} (h : m ∈ lastOfKey ms) : m ∈ ms := by
  induction ms with
  | nil => exact h
  | cons n ms ih =>
    rw [lastOfKey] at h
    split at h
    · exact List.mem_cons_of_mem n (ih h)
    · rcases List.mem_cons.mp h with rfl | h
      · exact List.mem_cons_self
      · exact List.mem_cons_of_mem n (ih h)

theorem lastOfKey_sublist (ms : List (Str × β)) : (lastOfKey ms).Sublist ms := by
  induction ms with
  | nil => exact .slnil
  | cons m ms ih =>
    rw [lastOfKey]
    split
    · exact ih.cons m
    · exact ih.cons_cons m

theorem map_fst_lastOfKey {γ : Type} {ns : List (Str × γ)} (h : ms.map Prod.fst = ns.map Prod.fst) :
    (lastOfKey ms).map Prod.fst = (lastOfKey ns).map Prod.fst := by
  have hunit : ∀ {δ : Type} (l : List (Str × δ)),
      (lastOfKey ((l.map Prod.fst).map (fun k => (k, ())))).map Prod.fst =
        (lastOfKey l).map Prod.fst := by
    intro δ l
    have hmap := lastOfKey_map (fun _ : δ => ()) l
    rw [List.map_map, Function.comp_def, hmap, List.map_map]
    rfl
  rw [← hunit ms, h, hunit ns]

theorem sortMembers_perm (ms : List (Str × β)) : (sortMembers ms).Perm ms :=
  List.perm_insertionSort _ ms

theorem pairwise_sortMembers (ms : List (Str × β)) :
    (sortMembers ms).Pairwise (fun m n => m.1 ≤ n.1) := by
  have : Std.Total (fun m n : Str × β => m.1 ≤ n.1) := ⟨fun m n => List.le_total m.1 n.1⟩
  have : IsTrans (Str × β) (fun m n => m.1 ≤ n.1) := ⟨fun _ _ _ => List.le_trans⟩
  exact List.pairwise_insertionSort _ ms

theorem sortMembers_sortMembers (ms : List (Str × β)) :
    sortMembers (sortMembers ms) = sortMembers ms :=
  (pairwise_sortMembers ms).insertionSort_eq

theorem sortMembers_eq_of_perm {ms ns : List (Str × β)} (h : ms.Perm ns)
    (hkeys : (ms.map Prod.fst).Nodup) : sortMembers ms = sortMembers ns := by
  refine List.Perm.eq_of_pairwise ?_ (pairwise_sortMembers ms) (pairwise_sortMembers ns)
    ((sortMembers_perm ms).trans (h.trans (sortMembers_perm ns).symm))
  intro m n hm hn hle hge
  exact List.inj_on_of_nodup_map hkeys ((sortMembers_perm ms).mem_iff.mp hm)
    (h.mem_iff.mpr ((sortMembers_perm ns).mem_iff.mp hn)) (List.le_antisymm hle hge)

theorem forall₂_sortMembers {γ : Type} {R : Str × β → Str × γ → Prop}
    {ns : List (Str × γ)}
    (hkeys : ns.map Prod.fst = ms.map Prod.fst) :
    List.Forall₂ R (sortMembers ms) (sortMembers ns) ↔ List.Forall₂ R ms ns := by
  have hlen : ns.length = ms.length := by
    have h := congrArg List.length hkeys
    rwa [List.length_map, List.length_map] at h
  have hpairs : ∀ l : List ((Str × β) × (Str × γ)),
      List.Forall₂ R (l.map Prod.fst) (l.map Prod.snd) ↔ ∀ p ∈ l, R p.1 p.2 := by
    intro l
    rw [List.forall₂_map_left_iff, List.forall₂_map_right_iff, List.forall₂_same]
  have hfst : (ms.zip ns).map Prod.fst = ms := List.map_fst_zip (by omega)
  have hsnd : (ms.zip ns).map Prod.snd = ns := List.map_snd_zip (by omega)
  have hcommon : ∀ p ∈ ms.zip ns, p.2.1 = p.1.1 := by
    refine List.map_inj_left.mp ?_
    have hleft := congrArg (List.map Prod.fst) hsnd
    have hright := congrArg (List.map Prod.fst) hfst
    rw [List.map_map] at hleft hright
    exact hleft.trans (hkeys.trans hright.symm)
  have hsorted : ∃ l : List ((Str × β) × (Str × γ)), l.Perm (ms.zip ns) ∧
      sortMembers ms = l.map Prod.fst ∧ sortMembers ns = l.map Prod.snd := by
    refine ⟨(ms.zip ns).insertionSort (fun p q => p.1.1 ≤ q.1.1), List.perm_insertionSort _ _,
      ?_, ?_⟩
    · have hmap := List.map_insertionSort
          (fun p q : (Str × β) × (Str × γ) => p.1.1 ≤ q.1.1)
        (fun m n : Str × β => m.1 ≤ n.1) Prod.fst (ms.zip ns) (fun _ _ _ _ => Iff.rfl)
      rw [hmap, hfst]
      rfl
    · have hmap := List.map_insertionSort
          (fun p q : (Str × β) × (Str × γ) => p.1.1 ≤ q.1.1)
        (fun m n : Str × γ => m.1 ≤ n.1) Prod.snd (ms.zip ns) (by
          intro p hp q hq
          rw [hcommon p hp, hcommon q hq])
      rw [hmap, hsnd]
      rfl
  obtain ⟨l, hperm, hms, hns⟩ := hsorted
  have hzip := hpairs (ms.zip ns)
  rw [hfst, hsnd] at hzip
  rw [hms, hns, hpairs l, hzip]
  refine forall_congr' ?_
  intro p
  rw [hperm.mem_iff]

end Keys

theorem nodup_of_increasing {ks : List Str} (h : ks.Pairwise (· < ·)) : ks.Nodup := by
  refine h.imp ?_
  rintro k _ hlt rfl
  exact List.lt_irrefl k hlt

theorem sortedValues_of_forall (h : ∀ m ∈ ms, m.2.sorted = m.2) : sortedValues ms = ms := by
  induction ms with
  | nil => rfl
  | cons m ms ih =>
    obtain ⟨hm, hms⟩ := List.forall_mem_cons.mp h
    obtain ⟨k, v⟩ := m
    rw [sortedValues, ih hms, hm]

theorem sorted_obj {ns : List (Str × Value)} (hvalues : ∀ m ∈ ms, m.2.sorted = m.2)
    (hperm : ms.Perm ns) (hkeys : (ns.map Prod.fst).Pairwise (· < ·)) :
    (Value.obj ms).sorted = .obj ns := by
  have hnodup : (ms.map Prod.fst).Nodup :=
    (hperm.map Prod.fst).nodup_iff.mpr (nodup_of_increasing hkeys)
  have hinorder : ns.Pairwise (fun m n => m.1 ≤ n.1) :=
    (List.pairwise_map.mp hkeys).imp List.le_of_lt
  rw [Value.sorted, sortedValues_of_forall hvalues, lastOfKey_of_nodup hnodup,
    sortMembers_eq_of_perm hperm hnodup]
  exact congrArg Value.obj hinorder.insertionSort_eq

theorem membersOk_iff (ms : List (Str × Value)) : MembersOk ms ↔ ∀ m ∈ ms, m.2.NumbersOk := by
  induction ms with
  | nil => exact iff_of_true trivial (by simp)
  | cons m ms ih => rw [MembersOk, ih, List.forall_mem_cons]

mutual

theorem numbersOk_sorted : (v : Value) → v.NumbersOk → v.sorted.NumbersOk
  | .null, h => h
  | .bool _, h => h
  | .num _, h => h
  | .str _, h => h
  | .arr xs, h => elementsOk_sortedElements xs h
  | .obj ms, h => by
    have hms := (membersOk_iff _).mp (membersOk_sortedValues ms h)
    rw [Value.sorted, Value.NumbersOk, membersOk_iff]
    intro m hm
    exact hms m (mem_of_mem_lastOfKey ((sortMembers_perm _).mem_iff.mp hm))

theorem elementsOk_sortedElements : (xs : List Value) → ElementsOk xs →
    ElementsOk (sortedElements xs)
  | [], _ => trivial
  | x :: xs, h => ⟨numbersOk_sorted x h.1, elementsOk_sortedElements xs h.2⟩

theorem membersOk_sortedValues : (ms : List (Str × Value)) → MembersOk ms →
    MembersOk (sortedValues ms)
  | [], _ => trivial
  | (_, v) :: ms, h => ⟨numbersOk_sorted v h.1, membersOk_sortedValues ms h.2⟩

end

end Go.Json

/-
# `Go.JsonAny` — what an `any` holds

`json.Unmarshal` into an `any` gives a tree of maps, slices, strings and `float64`s.
`decodeAny` of an array or an object goes through its parts (`decodeAny_arr`,
`decodeAny_obj`), and what it gives is `Held`: numbers as they are written, keys that are
UTF-8 and increase.
-/
import MiniGoAgent.Go.JsonStrings
import MiniGoAgent.Go.JsonTarget
import MiniGoAgent.Go.Keyed

namespace Go.Json

variable {ms : List (Str × Value)} {v w : Value}

/-- What is written for a `float64` is a number, and is written for the number it is. -/
structure NumberFormat.Lawful (num : NumberFormat) : Prop where
  isNumber : ∀ {l t : Str}, num.format l = some t → IsNumber t
  again : ∀ {l t : Str}, num.format l = some t → num.format t = some t

variable {num : NumberFormat}

/-! ## Through the parts -/

def decodeMember (num : NumberFormat) (m : Str × Value) : Option (Str × Value) :=
  (decodeAny num .null m.2).map (fun v => (m.1, v))

theorem decodeMember_eq_some {m n : Str × Value} :
    decodeMember num m = some n ↔ n.1 = m.1 ∧ decodeAny num .null m.2 = some n.2 := by
  rw [decodeMember, Option.map_eq_some_iff]
  constructor
  · rintro ⟨v, hv, rfl⟩
    exact ⟨rfl, hv⟩
  · rintro ⟨hkey, hv⟩
    exact ⟨n.2, hv, Prod.ext hkey.symm rfl⟩

theorem decodeAny_arr (xs : List Value) :
    decodeAny num .null (.arr xs) = (xs.mapM (decodeAny num .null)).map .arr := by
  have hparts : (renumberElements num xs).map sortedElements = xs.mapM (decodeAny num .null) := by
    induction xs with
    | nil => rfl
    | cons x xs ih =>
      rw [List.mapM_cons, ← ih, renumberElements, decodeAny]
      cases renumber num x with
      | none => rfl
      | some y =>
        cases renumberElements num xs with
        | none | some => rfl
  rw [← hparts, Option.map_map, decodeAny, renumber, Option.map_map]
  rfl

theorem decodeAny_obj (ms : List (Str × Value)) :
    decodeAny num .null (.obj ms) =
      (ms.mapM (decodeMember num)).map (fun ns => .obj (sortMembers (lastOfKey ns))) := by
  have hparts : (renumberMembers num ms).map sortedValues = ms.mapM (decodeMember num) := by
    induction ms with
    | nil => rfl
    | cons m ms ih =>
      obtain ⟨k, v⟩ := m
      rw [List.mapM_cons, ← ih, renumberMembers, decodeMember, decodeAny]
      cases renumber num v with
      | none => rfl
      | some w =>
        cases renumberMembers num ms with
        | none | some => rfl
  rw [← hparts, Option.map_map, decodeAny, renumber, Option.map_map]
  rfl

theorem exists_of_mem_mapM {α β : Type} {f : α → Option β} {xs : List α} {ys : List β}
    (h : xs.mapM f = some ys) : ∀ y ∈ ys, ∃ x ∈ xs, f x = some y := by
  induction xs generalizing ys with
  | nil =>
    rw [← Option.some.inj h]
    exact fun y hy => absurd hy List.not_mem_nil
  | cons x xs ih =>
    rw [List.mapM_cons] at h
    obtain ⟨z, hz, h⟩ := Option.bind_eq_some_iff.mp h
    obtain ⟨zs, hzs, h⟩ := Option.bind_eq_some_iff.mp h
    rw [← Option.some.inj h]
    refine List.forall_mem_cons.mpr ⟨⟨x, List.mem_cons_self, hz⟩, ?_⟩
    intro y hy
    obtain ⟨x', hx', hy⟩ := ih hzs y hy
    exact ⟨x', List.mem_cons_of_mem x hx', hy⟩

/-! ## The order of members -/

section Members

variable {β : Type}

theorem nodup_lastOfKey (ms : List (Str × β)) : ((lastOfKey ms).map Prod.fst).Nodup := by
  induction ms with
  | nil => exact List.nodup_nil
  | cons m ms ih =>
    rw [lastOfKey]
    split
    · exact ih
    next hnot =>
      rw [List.contains_iff_mem] at hnot
      exact List.nodup_cons.mpr
        ⟨fun hmem => hnot (((lastOfKey_sublist ms).map Prod.fst).subset hmem), ih⟩

theorem mem_lastOfKey_iff {ms : List (Str × β)} {m : Str × β} :
    m ∈ lastOfKey ms ↔ lastFor m.1 ms = some m.2 := by
  induction ms with
  | nil => exact iff_of_false List.not_mem_nil (by simp [lastFor])
  | cons n ms ih =>
    have hlast : lastFor m.1 (n :: ms) =
        (lastFor m.1 ms).or (if n.1 = m.1 then some n.2 else none) := by
      rw [← List.singleton_append, lastFor_append]
      exact congrArg _ (lastFor_snoc m.1 [] n)
    rw [hlast, lastOfKey]
    by_cases hlater : (ms.map Prod.fst).contains n.1 = true
    · rw [if_pos hlater, ih]
      cases hms : lastFor m.1 ms with
      | some v => rfl
      | none =>
        rw [lastFor_eq_none] at hms
        rw [List.contains_iff_mem] at hlater
        have hne : ¬ n.1 = m.1 := fun heq => hms (heq ▸ hlater)
        rw [if_neg hne]
        rfl
    · rw [if_neg hlater, List.mem_cons, ih]
      rw [List.contains_iff_mem] at hlater
      by_cases hkey : n.1 = m.1
      · have hnone : lastFor m.1 ms = none := lastFor_eq_none.mpr (hkey ▸ hlater)
        rw [hnone, if_pos hkey, Option.none_or, Option.some.injEq]
        exact ⟨fun h => (h.resolve_right (by simp)) ▸ rfl,
          fun h => .inl (Prod.ext hkey.symm h.symm)⟩
      · rw [if_neg hkey, Option.or_none]
        exact or_iff_right (fun heq => hkey (congrArg Prod.fst heq).symm)

theorem lastFor_sortMembers (k : Str) (ms : List (Str × β)) :
    lastFor k (sortMembers (lastOfKey ms)) = lastFor k ms := by
  have hnodup : ((sortMembers (lastOfKey ms)).map Prod.fst).Nodup :=
    ((sortMembers_perm _).map Prod.fst).nodup_iff.mpr (nodup_lastOfKey ms)
  refine Option.ext fun v => ?_
  rw [← mem_lastOfKey_iff (m := (k, v)), lastOfKey_of_nodup hnodup, (sortMembers_perm _).mem_iff,
    mem_lastOfKey_iff]

theorem lastOfKey_swap {m n : Str × β} (h : m.1 ≠ n.1) (before after : List (Str × β)) :
    sortMembers (lastOfKey (before ++ m :: n :: after)) =
      sortMembers (lastOfKey (before ++ n :: m :: after)) := by
  refine sortMembers_eq_of_perm ?_ (nodup_lastOfKey _)
  refine (List.perm_ext_iff_of_nodup (nodup_lastOfKey _).of_map (nodup_lastOfKey _).of_map).mpr ?_
  intro x
  rw [mem_lastOfKey_iff, mem_lastOfKey_iff, lastFor_append, lastFor_append]
  have hpair : ∀ a b : Str × β, a :: b :: after = [] ++ [a] ++ [b] ++ after := fun _ _ => rfl
  rw [hpair m n, hpair n m]
  simp only [lastFor_append _ _ after, lastFor_snoc]
  by_cases hm : m.1 = x.1
  · have hn : ¬ n.1 = x.1 := fun hn => h (hm.trans hn.symm)
    simp only [if_pos hm, if_neg hn]
  · simp only [if_neg hm]

end Members

/-- One exchange of two members with different keys, at any depth. -/
inductive Swap : Value → Value → Prop
  | members {before after : List (Str × Value)} {m n : Str × Value} (h : m.1 ≠ n.1) :
      Swap (.obj (before ++ m :: n :: after)) (.obj (before ++ n :: m :: after))
  | element {before after : List Value} {x y : Value} (h : Swap x y) :
      Swap (.arr (before ++ x :: after)) (.arr (before ++ y :: after))
  | member {before after : List (Str × Value)} {k : Str} {x y : Value} (h : Swap x y) :
      Swap (.obj (before ++ (k, x) :: after)) (.obj (before ++ (k, y) :: after))

theorem Swap.decodeAny (h : Swap v w) : decodeAny num .null v = decodeAny num .null w := by
  induction h with
  | members hkeys =>
    rename_i before after m n
    rw [decodeAny_obj, decodeAny_obj, List.mapM_append, List.mapM_append, List.mapM_cons,
      List.mapM_cons, List.mapM_cons, List.mapM_cons]
    cases before.mapM (decodeMember num) with
    | none => rfl
    | some before' =>
      cases hm : decodeMember num m with
      | none => cases decodeMember num n <;> rfl
      | some m' =>
        cases hn : decodeMember num n with
        | none => rfl
        | some n' =>
          cases after.mapM (decodeMember num) with
          | none => rfl
          | some after' =>
            have hne : m'.1 ≠ n'.1 := by
              rw [(decodeMember_eq_some.mp hm).1, (decodeMember_eq_some.mp hn).1]
              exact hkeys
            exact congrArg (fun ns => some (Value.obj ns)) (lastOfKey_swap hne before' after')
  | element _ ih =>
    rw [decodeAny_arr, decodeAny_arr, List.mapM_append, List.mapM_append, List.mapM_cons,
      List.mapM_cons, ih]
  | @member before after k x y _ ih =>
    have hmember : decodeMember num (k, x) = decodeMember num (k, y) := by
      rw [decodeMember, decodeMember, ih]
    rw [decodeAny_obj, decodeAny_obj, List.mapM_append, List.mapM_append, List.mapM_cons,
      List.mapM_cons, hmember]

/-! ## Depth -/

theorem itemsDepth_memberItems (ms ns : List (Str × Value)) :
    itemsDepth (memberItems (ms ++ ns)) =
      max (itemsDepth (memberItems ms)) (itemsDepth (memberItems ns)) := by
  induction ms with
  | nil => exact (Nat.zero_max _).symm
  | cons m ms ih =>
    obtain ⟨k, v⟩ := m
    rw [List.cons_append, memberItems, memberItems, itemsDepth, itemsDepth, ih, max_assoc]

theorem itemsDepth_elementItems (xs ys : List Value) :
    itemsDepth (elementItems (xs ++ ys)) =
      max (itemsDepth (elementItems xs)) (itemsDepth (elementItems ys)) := by
  induction xs with
  | nil => exact (Nat.zero_max _).symm
  | cons x xs ih =>
    rw [List.cons_append, elementItems, elementItems, itemsDepth, itemsDepth, ih, max_assoc]

theorem Swap.depth (h : Swap v w) : v.doc.depth = w.doc.depth := by
  induction h with
  | members _ =>
    simp only [Value.doc, Doc.depth, itemsDepth_memberItems, memberItems, itemsDepth]
    omega
  | element _ ih =>
    simp only [Value.doc, Doc.depth, itemsDepth_elementItems, elementItems, itemsDepth, ih]
  | member _ ih =>
    simp only [Value.doc, Doc.depth, itemsDepth_memberItems, memberItems, itemsDepth, ih]

theorem depth_le_of_mem {xs : List Value} {x : Value} (h : x ∈ xs) :
    x.doc.depth ≤ itemsDepth (elementItems xs) := by
  obtain ⟨before, after, rfl⟩ := List.append_of_mem h
  rw [itemsDepth_elementItems, elementItems, itemsDepth]
  omega

theorem depth_le_of_mem_members {m : Str × Value} (h : m ∈ ms) :
    m.2.doc.depth ≤ itemsDepth (memberItems ms) := by
  obtain ⟨before, after, rfl⟩ := List.append_of_mem h
  rw [itemsDepth_memberItems, memberItems, itemsDepth]
  omega

theorem decodeAny_of_swaps (h : Relation.ReflTransGen Swap v w) :
    v.doc.depth = w.doc.depth ∧ decodeAny num .null v = decodeAny num .null w := by
  induction h with
  | refl => exact ⟨rfl, rfl⟩
  | tail _ hswap ih => exact ⟨ih.1.trans hswap.depth, ih.2.trans hswap.decodeAny⟩

/-! ## What is held -/

/-- A value an `any` may hold, with at most `n` maps and slices in one another. -/
inductive Held (num : NumberFormat) : Nat → Value → Prop
  | null {n : Nat} : Held num n .null
  | bool {n : Nat} (b : Bool) : Held num n (.bool b)
  | num {n : Nat} {l : Str} (h : IsNumber l) (hl : num.format l = some l) : Held num n (.num l)
  | str {n : Nat} {s : Str} (h : toValid s = s) : Held num n (.str s)
  | arr {n : Nat} {xs : List Value} (h : ∀ x ∈ xs, Held num n x) : Held num (n + 1) (.arr xs)
  | obj {n : Nat} {ms : List (Str × Value)} (hkeys : (ms.map Prod.fst).Pairwise (· < ·))
      (hutf8 : ∀ m ∈ ms, toValid m.1 = m.1) (h : ∀ m ∈ ms, Held num n m.2) :
      Held num (n + 1) (.obj ms)

theorem Held.ofMembers {n : Nat} (hutf8 : ∀ m ∈ ms, toValid m.1 = m.1)
    (h : ∀ m ∈ ms, Held num n m.2) : Held num (n + 1) (.obj (sortMembers (lastOfKey ms))) := by
  have hmem : ∀ m ∈ sortMembers (lastOfKey ms), m ∈ ms := fun m hm =>
    mem_of_mem_lastOfKey ((sortMembers_perm _).mem_iff.mp hm)
  refine .obj ?_ (fun m hm => hutf8 m (hmem m hm)) (fun m hm => h m (hmem m hm))
  have hnodup := ((sortMembers_perm (lastOfKey ms)).map Prod.fst).nodup_iff.mpr (nodup_lastOfKey ms)
  have hle : ((sortMembers (lastOfKey ms)).map Prod.fst).Pairwise (· ≤ ·) :=
    List.pairwise_map.mpr (pairwise_sortMembers _)
  refine (hle.and hnodup).imp ?_
  rintro a b ⟨hab, hne⟩
  exact List.not_le.mp fun hba => hne (List.le_antisymm hab hba)

theorem held_of_decodeAny (hnum : num.Lawful) {n : Nat} (hutf8 : v.utf8 = v)
    (hdepth : v.doc.depth ≤ n) (h : decodeAny num .null v = some w) : Held num n w := by
  induction n using Nat.strong_induction_on generalizing v w with
  | _ n ih =>
    cases v with
    | null => exact Option.some.inj h ▸ .null
    | bool b => exact Option.some.inj h ▸ .bool b
    | str s => exact Option.some.inj h ▸ .str (Value.str.inj hutf8)
    | num l =>
      rw [decodeAny, renumber, Option.map_map] at h
      obtain ⟨t, ht, rfl⟩ := Option.map_eq_some_iff.mp h
      exact .num (hnum.isNumber ht) (hnum.again ht)
    | arr xs =>
      obtain ⟨n, rfl⟩ := Nat.exists_eq_add_of_le' (Nat.le_of_add_left_le hdepth)
      rw [decodeAny_arr] at h
      obtain ⟨ys, hys, rfl⟩ := Option.map_eq_some_iff.mp h
      rw [Value.utf8, Value.arr.injEq, utf8Elements_eq_map] at hutf8
      refine .arr ?_
      intro y hy
      obtain ⟨x, hx, hxy⟩ := exists_of_mem_mapM hys y hy
      refine ih n (Nat.lt_succ_self n)
        (List.map_inj_left.mp (hutf8.trans (List.map_id xs).symm) x hx)
        ((depth_le_of_mem hx).trans ?_) hxy
      exact Nat.le_of_succ_le_succ hdepth
    | obj ms =>
      obtain ⟨n, rfl⟩ := Nat.exists_eq_add_of_le' (Nat.le_of_add_left_le hdepth)
      rw [decodeAny_obj] at h
      obtain ⟨ns, hns, rfl⟩ := Option.map_eq_some_iff.mp h
      rw [Value.utf8, Value.obj.injEq, utf8Members_eq_map] at hutf8
      have hmember : ∀ m ∈ ns, toValid m.1 = m.1 ∧ Held num n m.2 := by
        intro m hm
        obtain ⟨m', hm', hdecode⟩ := exists_of_mem_mapM hns m hm
        obtain ⟨hkey, hvalue⟩ := decodeMember_eq_some.mp hdecode
        have hsame := List.map_inj_left.mp (hutf8.trans (List.map_id ms).symm) m' hm'
        refine ⟨by rw [hkey]; exact congrArg Prod.fst hsame, ?_⟩
        refine ih n (Nat.lt_succ_self n) (congrArg Prod.snd hsame)
          ((depth_le_of_mem_members hm').trans ?_) hvalue
        exact Nat.le_of_succ_le_succ hdepth
      exact .ofMembers (fun m hm => (hmember m hm).1) (fun m hm => (hmember m hm).2)

theorem sortMembers_of_increasing
    (h : (ms.map Prod.fst).Pairwise (· < ·)) : sortMembers (lastOfKey ms) = ms := by
  rw [lastOfKey_of_nodup (nodup_of_increasing h)]
  exact ((List.pairwise_map.mp h).imp List.le_of_lt).insertionSort_eq

theorem sortedElements_eq_map (xs : List Value) : sortedElements xs = xs.map Value.sorted := by
  induction xs with
  | nil => rfl
  | cons x xs ih => rw [sortedElements, ih, List.map_cons]

namespace Held

variable {n : Nat} {w : Value}

theorem decodeAny (h : Held num n w) : decodeAny num .null w = some w := by
  induction h with
  | null | bool | str => rfl
  | num _ hl =>
    rw [Json.decodeAny, renumber, hl]
    rfl
  | @arr _ xs _ ih =>
    rw [decodeAny_arr, mapM_eq_some_map ih, List.map_id']
    rfl
  | @obj _ ms hkeys _ _ ih =>
    have hmembers : ms.mapM (decodeMember num) = some (ms.map id) :=
      mapM_eq_some_map fun m hm => decodeMember_eq_some.mpr ⟨rfl, ih m hm⟩
    rw [decodeAny_obj, hmembers, List.map_id, Option.map_some, sortMembers_of_increasing hkeys]

theorem utf8 (h : Held num n w) : w.utf8 = w := by
  induction h with
  | null | bool | num => rfl
  | str hs => exact congrArg Value.str hs
  | @arr _ xs _ ih =>
    rw [Value.utf8, utf8Elements_eq_map, List.map_congr_left ih, List.map_id']
  | @obj _ ms _ hutf8 _ ih =>
    have hmembers : ∀ m ∈ ms, (toValid m.1, m.2.utf8) = m :=
      fun m hm => Prod.ext (hutf8 m hm) (ih m hm)
    rw [Value.utf8, utf8Members_eq_map, List.map_congr_left hmembers, List.map_id']

theorem fits (h : Held num n w) : w.Fits n := by
  induction h with
  | null | bool => exact ⟨trivial, Nat.zero_le _⟩
  | num hl _ => exact ⟨hl, Nat.zero_le _⟩
  | str _ => exact fits_str _ _
  | arr _ ih => exact fits_arr ih
  | obj _ _ _ ih => exact fits_obj ih

theorem sorted (h : Held num n w) : w.sorted = w := by
  induction h with
  | @arr _ xs _ ih =>
    rw [Value.sorted, sortedElements_eq_map, List.map_congr_left ih, List.map_id']
  | obj hkeys _ _ ih => exact sorted_obj ih (.refl _) hkeys
  | _ => rfl

theorem encode (h : Held num n w) : encode w = w.print := by
  rw [← print_sorted, h.sorted]

theorem unmarshal (h : Held num n w) (hn : n ≤ maxNestingDepth) :
    unmarshal .null (Json.decodeAny num) (Json.encode w) = some w := by
  rw [h.encode, unmarshal_print _ _ h.fits hn, h.utf8, h.decodeAny]

end Held

theorem held_of_unmarshal (hnum : num.Lawful) {text : Str}
    (h : unmarshal .null (decodeAny num) text = some w) : Held num maxNestingDepth w := by
  obtain ⟨v, hv, hw⟩ := Option.bind_eq_some_iff.mp h
  have hvalid : valid text = true := by
    by_contra hnot
    rw [parse, if_neg hnot] at hv
    cases hv
  obtain ⟨lead, d, trail, hlead, htrail, hwf, hdepth, rfl⟩ := valid_iff.mp hvalid
  rw [parse_text hwf hdepth hlead htrail, Option.some.injEq] at hv
  subst hv
  exact held_of_decodeAny hnum (d.utf8_value hwf) (d.depth_value.trans_le hdepth) hw

end Go.Json

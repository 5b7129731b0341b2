/-
# `Go.NetText` — the texts `net.ParseIP` reads as addresses

What the parser does not look at in a text: the case of its letters
(`parseIP_map_lowerByte`).  What a text it accepts is like: hexadecimal digits, dots and
colons, with no dot at the end (`parseIP_text`), and sixteen bytes come out of it
(`length_of_parseIP`).

The address behind a text is `Address`: an IPv4 address in either of its two forms is the
same address, and the classes of addresses are properties of it, not of the bytes.
-/
import MiniGoAgent.Go.Letters
import MiniGoAgent.Go.Net
import Mathlib.Data.Nat.Digits.Defs
import Mathlib.Tactic.Positivity
import Mathlib.Tactic.Ring

namespace Go.Net

variable {s : Str} {ip : IP} {c : UInt8}

/-! ## Letter case -/

theorem lowerByte_facts :
    (∀ n : Fin 256, unhex (lowerByte (UInt8.ofNat n)) = unhex (UInt8.ofNat n)) ∧
      (∀ n : Fin 256, isDigit (lowerByte (UInt8.ofNat n)) = isDigit (UInt8.ofNat n)) ∧
      (∀ n : Fin 256, isDigit (UInt8.ofNat n) = true →
        lowerByte (UInt8.ofNat n) = UInt8.ofNat n) ∧
      ∀ n : Fin 256, ∀ c ∈ [byte '.', byte ':', byte '%'],
        (lowerByte (UInt8.ofNat n) = c ↔ UInt8.ofNat n = c) := by
  decide +kernel

theorem unhex_lowerByte (c : UInt8) : unhex (lowerByte c) = unhex c :=
  forall_byte (P := fun c => unhex (lowerByte c) = unhex c) lowerByte_facts.1 c

theorem isDigit_lowerByte (c : UInt8) : isDigit (lowerByte c) = isDigit c :=
  forall_byte (P := fun c => isDigit (lowerByte c) = isDigit c) lowerByte_facts.2.1 c

theorem lowerByte_of_isDigit (h : isDigit c = true) : lowerByte c = c :=
  forall_byte (P := fun c => isDigit c = true → lowerByte c = c) lowerByte_facts.2.2.1 c h

theorem lowerByte_eq_iff (hc : c ∈ [byte '.', byte ':', byte '%']) (b : UInt8) :
    lowerByte b = c ↔ b = c :=
  forall_byte (P := fun b => ∀ c ∈ [byte '.', byte ':', byte '%'], (lowerByte b = c ↔ b = c))
    lowerByte_facts.2.2.2 b c hc

theorem lowerByte_beq (hc : c ∈ [byte '.', byte ':', byte '%']) (b : UInt8) :
    (lowerByte b == c) = (b == c) := by
  rw [Bool.eq_iff_iff, beq_iff_eq, beq_iff_eq]
  exact lowerByte_eq_iff hc b

theorem map_lowerByte_of_digits (h : s.all isDigit = true) : s.map lowerByte = s := by
  have hid : ∀ c ∈ s, lowerByte c = id c :=
    fun c hc => lowerByte_of_isDigit (List.all_eq_true.mp h c hc)
  rw [List.map_congr_left hid, List.map_id]

theorem all_isDigit_map_lowerByte (s : Str) : (s.map lowerByte).all isDigit = s.all isDigit := by
  rw [List.all_map]
  exact congrArg s.all (funext isDigit_lowerByte)

theorem parseOctet_map_lowerByte (field : Str) :
    parseOctet (field.map lowerByte) = parseOctet field := by
  cases hd : field.all isDigit with
  | true => rw [map_lowerByte_of_digits hd]
  | false =>
    have hd' := all_isDigit_map_lowerByte field
    rw [hd] at hd'
    simp [parseOctet, hd, hd']

theorem parseIPv4_map_lowerByte (s : Str) : parseIPv4 (s.map lowerByte) = parseIPv4 s := by
  have hfields : ((splitByte (byte '.') s).map (List.map lowerByte)).mapM parseOctet =
      (splitByte (byte '.') s).mapM parseOctet := by
    rw [List.mapM_map]
    exact congrArg (fun f => (splitByte (byte '.') s).mapM f) (funext parseOctet_map_lowerByte)
  rw [parseIPv4, splitByte_map (lowerByte_eq_iff (by simp)), hfields, parseIPv4]

def Groups.lower (g : Groups) : Groups := { g with rest := g.rest.map lowerByte }

theorem group_map_lowerByte (digits : Str) :
    parseGroups.group (digits.map lowerByte) = parseGroups.group digits := by
  simp only [parseGroups.group, List.foldl_map, unhex_lowerByte]

theorem takeWhile_map_lowerByte (s : Str) :
    (s.map lowerByte).takeWhile (fun c => (unhex c).isSome) =
      (s.takeWhile (fun c => (unhex c).isSome)).map lowerByte := by
  rw [List.takeWhile_map]
  congr 2
  funext c
  exact congrArg Option.isSome (unhex_lowerByte c)

theorem parseGroups_lower (n : Nat) (g : Groups) :
    parseGroups n g.lower = (parseGroups n g).map Groups.lower := by
  induction n generalizing g with
  | zero => rfl
  | succ n ih =>
    obtain ⟨ip, ellipsis, rest⟩ := g
    simp only [parseGroups, Groups.lower, takeWhile_map_lowerByte, List.length_map,
      List.map_eq_nil_iff, ← List.map_drop, group_map_lowerByte]
    split
    · rfl
    cases rest.drop (rest.takeWhile (fun c => (unhex c).isSome)).length with
    | nil => rfl
    | cons c more =>
      simp only [List.map_cons, lowerByte_beq (c := byte '.') (by simp),
        lowerByte_beq (c := byte ':') (by simp), parseIPv4_map_lowerByte]
      split
      · split
        · rfl
        · cases parseIPv4 rest with
          | none | some => rfl
      split
      · cases more with
        | nil => rfl
        | cons d more =>
          simp only [List.map_cons, lowerByte_beq (c := byte ':') (by simp),
            List.map_eq_nil_iff]
          split
          · split
            · rfl
            · split
              case isTrue h =>
                rw [h]
                rfl
              case isFalse => exact ih ⟨_, _, more⟩
          · exact ih ⟨_, _, d :: more⟩
      · rfl

theorem expand_lower (g : Groups) : g.lower.expand = g.expand := by
  obtain ⟨ip, ellipsis, rest⟩ := g
  cases rest <;> rfl

theorem hasPrefix_colons_map (s : Str) :
    hasPrefix (s.map lowerByte) (lit "::") = hasPrefix s (lit "::") := by
  have h : ∀ b, (byte ':' == lowerByte b) = (byte ':' == b) := by
    intro b
    rw [Bool.beq_comm, lowerByte_beq (by simp), Bool.beq_comm]
  rcases s with _ | ⟨a, _ | ⟨b, s⟩⟩
  · rfl
  · simp [hasPrefix, show lit "::" = [byte ':', byte ':'] by decide, List.isPrefixOf]
  · simp [hasPrefix, show lit "::" = [byte ':', byte ':'] by decide, List.isPrefixOf, h]

theorem parseIPv6_map_lowerByte (s : Str) : parseIPv6 (s.map lowerByte) = parseIPv6 s := by
  have hgroups : ∀ g : Groups, (parseGroups 8 g.lower).bind Groups.expand =
      (parseGroups 8 g).bind Groups.expand := by
    intro g
    rw [parseGroups_lower, Option.bind_map]
    exact congrArg _ (funext expand_lower)
  unfold parseIPv6
  rw [hasPrefix_colons_map]
  simp only [← List.map_drop, List.map_eq_nil_iff]
  rw [← hgroups { ellipsis := some 0, rest := s.drop 2 }, ← hgroups { rest := s }]
  rfl

/-- The byte by which the parser tells the kinds of addresses apart. -/
def mark (s : Str) : Option UInt8 :=
  s.find? (fun c => c == byte '.' || c == byte ':' || c == byte '%')

theorem mark_map_lowerByte (s : Str) : mark (s.map lowerByte) = (mark s).map lowerByte := by
  have hsame : (fun c => c == byte '.' || c == byte ':' || c == byte '%') ∘ lowerByte =
      (fun c => c == byte '.' || c == byte ':' || c == byte '%') := by
    funext c
    simp only [Function.comp_apply, lowerByte_beq (c := byte '.') (by simp),
      lowerByte_beq (c := byte ':') (by simp), lowerByte_beq (c := byte '%') (by simp)]
  rw [mark, List.find?_map, hsame, mark]

theorem parseAddr_map_lowerByte (s : Str) :
    parseAddr (s.map lowerByte) = (parseAddr s).map (fun p => (p.1, p.2.map lowerByte)) := by
  have hmark := mark_map_lowerByte s
  rw [mark, mark] at hmark
  have hidx : (fun c => c == byte '%') ∘ lowerByte = (fun c => c == byte '%') :=
    funext (lowerByte_beq (by simp))
  unfold parseAddr
  rw [hmark, List.findIdx?_map, hidx]
  cases s.find? (fun c => c == byte '.' || c == byte ':' || c == byte '%') with
  | none => rfl
  | some c =>
    simp only [Option.map_some, lowerByte_beq (c := byte '.') (by simp),
      lowerByte_beq (c := byte ':') (by simp), parseIPv4_map_lowerByte,
      parseIPv6_map_lowerByte]
    split
    · cases parseIPv4 s <;> rfl
    split
    · cases s.findIdx? (fun c => c == byte '%') with
      | none => cases parseIPv6 s <;> rfl
      | some i =>
        simp only [← List.map_drop, ← List.map_take, List.map_eq_nil_iff,
          parseIPv6_map_lowerByte]
        split
        · rfl
        · cases parseIPv6 (s.take i) <;> rfl
    · rfl

theorem parseIP_map_lowerByte (s : Str) : parseIP (s.map lowerByte) = parseIP s := by
  unfold parseIP
  rw [parseAddr_map_lowerByte]
  cases parseAddr s with
  | none => rfl
  | some p =>
    obtain ⟨ip, zone⟩ := p
    cases zone <;> rfl

/-! ## The texts that are accepted -/

/-- A byte of an address without a zone. -/
def isAddrByte (c : UInt8) : Bool := (unhex c).isSome || c == byte '.' || c == byte ':'

/-- What every text of an address is like. -/
structure AddrText (s : Str) : Prop where
  bytes : ∀ c ∈ s, isAddrByte c = true
  last : s.getLast? ≠ some (byte '.')

theorem isAddrByte_of_unhex (h : (unhex c).isSome = true) : isAddrByte c = true := by
  rw [isAddrByte, h]
  rfl

theorem unhex_isSome_of_isDigit (h : isDigit c = true) : (unhex c).isSome = true := by
  rw [unhex, if_pos h]
  rfl

theorem isAddrByte_of_isDigit (h : isDigit c = true) : isAddrByte c = true :=
  isAddrByte_of_unhex (unhex_isSome_of_isDigit h)

theorem parseOctet_digits {field : Str} (h : (parseOctet field).isSome = true) :
    field ≠ [] ∧ field.all isDigit = true := by
  revert h
  fun_cases parseOctet field
  case case1 hok => exact fun _ => ⟨hok.1, hok.2.1⟩
  case case2 => nofun

theorem parseIPv4_fields (h : parseIPv4 s = some ip) :
    ∀ field ∈ splitByte (byte '.') s, field ≠ [] ∧ field.all isDigit = true := by
  revert h
  fun_cases parseIPv4 s
  case case1 hm =>
    intro _ field hfield
    exact parseOctet_digits ((isSome_mapM_iff _ _).mp (Option.isSome_of_eq_some hm) field hfield)
  case case2 => nofun

theorem parseIPv4_text (h : parseIPv4 s = some ip) : AddrText s := by
  have hfields := parseIPv4_fields h
  constructor
  · intro c hc
    rcases mem_splitByte (c := byte '.') hc with rfl | ⟨field, hfield, hmem⟩
    · rfl
    · exact isAddrByte_of_isDigit (List.all_eq_true.mp (hfields field hfield).2 c hmem)
  · intro hlast
    obtain ⟨t, rfl⟩ := List.getLast?_eq_some_iff.mp hlast
    rw [splitByte_concat] at hfields
    exact (hfields [] (List.mem_append_right _ List.mem_cons_self)).1 rfl

theorem isAddrByte_colon : ∀ c ∈ [byte ':'], isAddrByte c = true := by
  exact List.forall_mem_singleton.mpr rfl

theorem AddrText.append {t : Str} (hs : ∀ c ∈ s, isAddrByte c = true) (ht : AddrText t)
    (hne : t ≠ []) : AddrText (s ++ t) := by
  constructor
  · exact List.forall_mem_append.mpr ⟨hs, ht.bytes⟩
  · rw [List.getLast?_append_of_ne_nil _ hne]
    exact ht.last

theorem digits_front (s : Str) :
    (∀ c ∈ s.takeWhile (fun c => (unhex c).isSome), (unhex c).isSome = true) ∧
      s = s.takeWhile (fun c => (unhex c).isSome) ++
        s.drop (s.takeWhile (fun c => (unhex c).isSome)).length :=
  ⟨fun _ hc => List.mem_takeWhile_imp (p := fun c => (unhex c).isSome) hc,
    (List.prefix_iff_eq_append.mp (List.takeWhile_prefix _)).symm⟩

theorem AddrText.of_tail {t : Str} (hc : (c == byte ':') = true)
    (htail : s.drop (s.takeWhile (fun c => (unhex c).isSome)).length = c :: t) (ht : AddrText t)
    (hne : t ≠ []) : AddrText s := by
  obtain ⟨hdigits, hsplit⟩ := digits_front s
  rw [hsplit, htail, beq_iff_eq.mp hc, List.append_cons]
  refine .append (List.forall_mem_append.mpr ⟨?_, isAddrByte_colon⟩) ht hne
  exact fun c hc => isAddrByte_of_unhex (hdigits c hc)

theorem parseGroups_text {n : Nat} {g g' : Groups} (h : parseGroups n g = some g')
    (hrest : g'.rest = []) : AddrText g.rest := by
  fun_induction parseGroups n g with
  | case1 g =>
    obtain rfl := Option.some.inj h
    rw [hrest]
    exact ⟨by simp, by simp⟩
  | case3 n g digits tail _ htail =>
    obtain ⟨hdigits, hsplit⟩ := digits_front g.rest
    rw [show g.rest.drop _ = [] from htail, List.append_nil] at hsplit
    rw [← hsplit] at hdigits
    refine ⟨fun c hc => isAddrByte_of_unhex (hdigits c hc), ?_⟩
    intro hlast
    exact absurd (hdigits _ (List.mem_of_getLast? hlast)) (by decide)
  | case5 =>
    obtain ⟨v4, hv4, _⟩ := Option.map_eq_some_iff.mp h
    exact parseIPv4_text hv4
  | case8 _ _ _ _ _ _ _ hc _ _ hd _ _ htail =>
    rw [beq_iff_eq.mp hd] at htail
    exact .of_tail hc htail ⟨isAddrByte_colon, by decide⟩ (by simp)
  | case9 _ _ _ _ _ _ _ hc _ _ _ hd _ _ hne htail ih =>
    rw [beq_iff_eq.mp hd] at htail
    exact .of_tail hc htail (.append isAddrByte_colon (ih h) hne) (by simp)
  | case10 _ _ _ _ _ _ _ hc _ _ _ _ htail ih => exact .of_tail hc htail (ih h) (by simp)
  | case2 | case4 | case6 | case7 | case11 => cases h

theorem expand_eq_some {g : Groups} (h : g.expand = some ip) : g.rest = [] ∧ ip.length = 16 := by
  revert h
  fun_cases Groups.expand g
  case case2 hrest _ hlen =>
    rintro ⟨⟩
    exact ⟨not_not.mp hrest, hlen⟩
  case case5 hrest _ _ _ =>
    rintro ⟨⟩
    refine ⟨not_not.mp hrest, ?_⟩
    simp only [List.length_append, List.length_take, List.length_replicate, List.length_drop]
    omega
  all_goals nofun

theorem parseIPv6_spec (h : parseIPv6 s = some ip) : AddrText s ∧ ip.length = 16 := by
  have hgroups : ∀ {g : Groups}, (parseGroups 8 g).bind Groups.expand = some ip →
      AddrText g.rest ∧ ip.length = 16 := by
    intro g h
    obtain ⟨g', hg, hexp⟩ := Option.bind_eq_some_iff.mp h
    obtain ⟨hrest, hlen⟩ := expand_eq_some hexp
    exact ⟨parseGroups_text hg hrest, hlen⟩
  have hfront : ∀ c ∈ lit "::", isAddrByte c = true := List.all_eq_true.mp (by decide)
  revert h
  fun_cases parseIPv6 s
  case case1 hcolons _ hnil =>
    rintro ⟨⟩
    obtain ⟨rest, rfl⟩ := hasPrefix_iff.mp hcolons
    obtain rfl : rest = [] := hnil
    exact ⟨⟨hfront, by decide⟩, by simp⟩
  case case2 hcolons _ hne =>
    intro h
    obtain ⟨rest, rfl⟩ := hasPrefix_iff.mp hcolons
    exact ⟨.append hfront (hgroups h).1 hne, (hgroups h).2⟩
  case case3 => exact hgroups

theorem length_of_parseIPv4 (h : parseIPv4 s = some ip) : ip.length = 4 := by
  revert h
  fun_cases parseIPv4 s
  case case1 =>
    rintro ⟨⟩
    rfl
  case case2 => nofun

theorem parseAddr_cases {zone : Str} (h : parseAddr s = some (ip, zone)) :
    (mark s = some (byte '.') ∧ zone = [] ∧ parseIPv4 s = some ip) ∨
      (mark s = some (byte ':') ∧ ∃ t, parseIPv6 t = some ip ∧
        ((zone = [] ∧ s = t) ∨ (zone ≠ [] ∧ s = t ++ byte '%' :: zone))) := by
  revert h
  fun_cases parseAddr s
  case case2 c hmark hc =>
    intro h
    obtain rfl : c = byte '.' := beq_iff_eq.mp hc
    obtain ⟨v4, hv4, ⟨⟩⟩ := Option.map_eq_some_iff.mp h
    exact Or.inl ⟨hmark, rfl, hv4⟩
  case case3 c hmark _ hc _ =>
    intro h
    obtain rfl : c = byte ':' := beq_iff_eq.mp hc
    obtain ⟨v6, hv6, ⟨⟩⟩ := Option.map_eq_some_iff.mp h
    exact Or.inr ⟨hmark, s, hv6, Or.inl ⟨rfl, rfl⟩⟩
  case case5 c hmark _ hc i hi _ hne =>
    intro h
    obtain rfl : c = byte ':' := beq_iff_eq.mp hc
    obtain ⟨v6, hv6, heq⟩ := Option.map_eq_some_iff.mp h
    obtain ⟨rfl, hzone⟩ := Prod.mk.inj heq
    rw [← hzone]
    obtain ⟨hlt, hget, _⟩ := List.findIdx?_eq_some_iff_getElem.mp hi
    refine Or.inr ⟨hmark, s.take i, hv6, Or.inr ⟨hne, ?_⟩⟩
    have hpercent : s[i] = byte '%' := by simpa using hget
    rw [← hpercent, ← List.drop_eq_getElem_cons hlt, List.take_append_drop]
  all_goals nofun

theorem parseIP_eq_some (h : parseIP s = some ip) :
    ∃ bytes, parseAddr s = some (bytes, []) ∧
      ip = if bytes.length = 4 then v4Prefix ++ bytes else bytes := by
  revert h
  fun_cases parseIP s
  case case1 bytes ha =>
    rintro ⟨⟩
    exact ⟨bytes, ha, rfl⟩
  case case2 => nofun

theorem parseIP_text (h : parseIP s = some ip) : AddrText s := by
  obtain ⟨bytes, ha, _⟩ := parseIP_eq_some h
  rcases parseAddr_cases ha with ⟨_, _, h4⟩ | ⟨_, t, h6, ⟨_, rfl⟩ | ⟨hne, _⟩⟩
  · exact parseIPv4_text h4
  · exact (parseIPv6_spec h6).1
  · exact absurd rfl hne

theorem length_of_parseIP (h : parseIP s = some ip) : ip.length = 16 := by
  obtain ⟨bytes, ha, rfl⟩ := parseIP_eq_some h
  rcases parseAddr_cases ha with ⟨_, _, h4⟩ | ⟨_, t, h6, _⟩
  · rw [if_pos (length_of_parseIPv4 h4), List.length_append, length_of_parseIPv4 h4]
    rfl
  · have hlen := (parseIPv6_spec h6).2
    rw [if_neg (by omega), hlen]

theorem parseIP_eq_none_of_mem (hc : c ∈ s) (hbad : isAddrByte c = false) : parseIP s = none := by
  cases h : parseIP s with
  | none => rfl
  | some ip =>
    have hgood := (parseIP_text h).bytes c hc
    rw [hbad] at hgood
    cases hgood

theorem parseIP_dot (s : Str) : parseIP (s ++ [byte '.']) = none := by
  cases h : parseIP (s ++ [byte '.']) with
  | none => rfl
  | some ip => exact absurd List.getLast?_concat (parseIP_text h).last

theorem isAddrByte_facts :
    ∀ n : Fin 256, 0x80 ≤ UInt8.ofNat n → isAddrByte (UInt8.ofNat n) = false := by
  decide +kernel

theorem isAddrByte_of_high (h : 0x80 ≤ c) : isAddrByte c = false :=
  forall_byte (P := fun c => 0x80 ≤ c → isAddrByte c = false) isAddrByte_facts c h

theorem parseIP_of_not_ascii (h : ¬ IsASCII s) : parseIP s = none := by
  have hex : ∃ c ∈ s, 0x80 ≤ c := by
    simpa [IsASCII] using h
  obtain ⟨c, hc, hhigh⟩ := hex
  exact parseIP_eq_none_of_mem hc (isAddrByte_of_high hhigh)

theorem parseIP_toLower (s : Str) : parseIP (toLower s) = parseIP s := by
  by_cases hs : IsASCII s
  · rw [toLower_of_ascii hs, parseIP_map_lowerByte]
  · obtain ⟨c, hc, hkind⟩ := exists_mem_toLower hs
    rw [parseIP_of_not_ascii hs]
    apply parseIP_eq_none_of_mem hc
    rcases hkind with rfl | rfl | hhigh
    · decide
    · decide
    · exact isAddrByte_of_high hhigh

theorem parseIP_collapse (s : Str) : parseIP (collapse s) = parseIP s := by
  by_cases hs : IsASCII s
  · rw [collapse_of_ascii hs]
  · rw [parseIP_of_not_ascii hs, parseIP_of_not_ascii (fun h => hs (isASCII_of_collapse h))]

theorem parseIP_caseKey (s : Str) : parseIP (caseKey s) = parseIP s := by
  rw [caseKey, parseIP_collapse, parseIP_toLower]

/-! ## The mapped form of an IPv4 address -/

theorem parseIPv4_front {v4 : IP} (h : parseIPv4 s = some v4) :
    ∃ digits t, s = digits ++ byte '.' :: t ∧ digits.all isDigit = true := by
  have hfields := parseIPv4_fields h
  cases hs : splitByte (byte '.') s with
  | nil => exact absurd hs (splitByte_ne_nil _ _)
  | cons f fs =>
    rcases splitByte_eq_cons hs with ⟨rfl, _⟩ | ⟨t, ht, _⟩
    · -- one field is not an address
      cases ho : parseOctet f <;> simp [parseIPv4, hs, ho] at h
    · exact ⟨f, t, ht, (hfields f (hs ▸ List.mem_cons_self)).2⟩

theorem parseIP_of_parseIPv4 {v4 : IP} (h : parseIPv4 s = some v4) :
    parseIP s = some (v4Prefix ++ v4) := by
  have hmark : s.find? (fun c => c == byte '.' || c == byte ':' || c == byte '%') =
      some (byte '.') := by
    obtain ⟨digits, t, rfl, hdigits⟩ := parseIPv4_front h
    have hnone : digits.find? (fun c => c == byte '.' || c == byte ':' || c == byte '%') =
        none := by
      rw [List.find?_eq_none]
      intro c hc hmark
      have hdigit := List.all_eq_true.mp hdigits c hc
      simp only [Bool.or_eq_true, beq_iff_eq] at hmark
      rcases hmark with (rfl | rfl) | rfl <;> exact absurd hdigit (by decide)
    rw [List.find?_append, hnone]
    rfl
  have haddr : parseAddr s = some (v4, []) := by
    unfold parseAddr
    rw [hmark]
    simp [h]
  rw [parseIP, haddr]
  simp [length_of_parseIPv4 h]

theorem parseAddr_head {p : IP × Str} (h : parseAddr s = some p) :
    ∃ c t, s = c :: t ∧ isAddrByte c = true := by
  have hfront : ∀ {t : Str}, AddrText t → t ≠ [] → t <+: s →
      ∃ c t, s = c :: t ∧ isAddrByte c = true := by
    rintro t htext hne ⟨r, rfl⟩
    cases t with
    | nil => exact absurd rfl hne
    | cons c t => exact ⟨c, t ++ r, rfl, htext.bytes c List.mem_cons_self⟩
  have hsix : ∀ {t : Str} {ip : IP}, parseIPv6 t = some ip → t ≠ [] := by
    rintro t ip h6 rfl
    cases h6
  rcases parseAddr_cases h with ⟨_, _, h4⟩ | ⟨_, t, h6, ⟨_, rfl⟩ | ⟨_, rfl⟩⟩
  · obtain ⟨digits, t, rfl, _⟩ := parseIPv4_front h4
    exact hfront (parseIPv4_text h4) (by simp) List.prefix_rfl
  · exact hfront (parseIPv6_spec h6).1 (hsix h6) List.prefix_rfl
  · exact hfront (parseIPv6_spec h6).1 (hsix h6) (List.prefix_append ..)

/-! ## The classes of addresses -/

/-- An address; an IPv4 address in its mapped form is that IPv4 address. -/
inductive Address where
  | v4 (a b c d : UInt8)
  | v6 (bytes : IP)

def address (ip : IP) : Address :=
  match to4 ip with
  | some [a, b, c, d] => .v4 a b c d
  | _ => .v6 ip

namespace Address

/-- `127.0.0.0/8` and `::1`. -/
def IsLoopback : Address → Prop
  | .v4 a _ _ _ => a = 127
  | .v6 bytes => bytes = v6Loopback

/-- `0.0.0.0` and `::`. -/
def IsUnspecified : Address → Prop
  | .v4 a b c d => a = 0 ∧ b = 0 ∧ c = 0 ∧ d = 0
  | .v6 bytes => bytes = List.replicate 16 0

/-- `169.254.0.0/16` and `fe80::/10`. -/
def IsLinkLocalUnicast : Address → Prop
  | .v4 a b _ _ => a = 169 ∧ b = 254
  | .v6 bytes => ∃ b rest, bytes = 0xFE :: b :: rest ∧ 0x80 ≤ b ∧ b ≤ 0xBF

/-- `224.0.0.0/24`, and the IPv6 multicast addresses of link-local scope. -/
def IsLinkLocalMulticast : Address → Prop
  | .v4 a b c _ => a = 224 ∧ b = 0 ∧ c = 0
  | .v6 bytes => ∃ b rest, bytes = 0xFF :: b :: rest ∧ b % 16 = 2

/-- The private addresses of RFC 1918: `10.0.0.0/8`, `172.16.0.0/12`, `192.168.0.0/16`. -/
def IsPrivate : Address → Prop
  | .v4 a b _ _ => a = 10 ∨ (a = 172 ∧ 16 ≤ b ∧ b ≤ 31) ∨ (a = 192 ∧ b = 168)
  | .v6 _ => False

/-- `fc00::/7`. -/
def IsUniqueLocal : Address → Prop
  | .v4 _ _ _ _ => False
  | .v6 bytes => ∃ a rest, bytes = a :: rest ∧ (a = 0xFC ∨ a = 0xFD)

end Address

theorem address_cases (hlen : ip.length = 16) :
    (∃ a b c d, to4 ip = some [a, b, c, d] ∧ address ip = .v4 a b c d) ∨
      (to4 ip = none ∧ address ip = .v6 ip) := by
  unfold address
  have hne : ip.length ≠ 4 := by omega
  by_cases hv4 : v4Prefix.isPrefixOf ip = true
  · have hto4 : to4 ip = some (ip.drop 12) := by
      rw [to4, if_neg hne, if_pos ⟨hlen, hv4⟩]
    have hfour : (ip.drop 12).length = 4 := by
      rw [List.length_drop, hlen]
    obtain ⟨a, b, c, d, h⟩ : ∃ a b c d, ip.drop 12 = [a, b, c, d] := by
      match ip.drop 12, hfour with
      | [a, b, c, d], _ => exact ⟨a, b, c, d, rfl⟩
    rw [h] at hto4
    rw [hto4]
    exact Or.inl ⟨a, b, c, d, rfl, rfl⟩
  · have hto4 : to4 ip = none := by
      rw [to4, if_neg hne, if_neg (fun h => hv4 h.2)]
    rw [hto4]
    exact Or.inr ⟨rfl, rfl⟩

def bits (ip : IP) : Nat := ip.foldl (fun n b => n * 256 + b.toNat) 0

theorem bits_eq_ofDigits (l : IP) : bits l = Nat.ofDigits 256 (l.reverse.map UInt8.toNat) := by
  rw [bits, Nat.ofDigits_eq_foldr, List.foldr_map, List.foldr_reverse]
  congr 1
  funext n b
  rw [Nat.cast_id]
  ring

theorem bits_cons (b : UInt8) (l : IP) : bits (b :: l) = b.toNat * 256 ^ l.length + bits l := by
  rw [bits_eq_ofDigits, bits_eq_ofDigits, List.reverse_cons, List.map_append, Nat.ofDigits_append]
  simp
  ring

theorem toNat_lt_of_mem {l : IP} {n : Nat} (hn : n ∈ l.reverse.map UInt8.toNat) : n < 256 := by
  obtain ⟨b, _, rfl⟩ := List.mem_map.mp hn
  exact b.toNat_lt

theorem bits_lt (l : IP) : bits l < 256 ^ l.length := by
  have hlt := Nat.ofDigits_lt_base_pow_length (b := 256) (by omega)
      (fun _ => toNat_lt_of_mem (l := l))
  rwa [← bits_eq_ofDigits, List.length_map, List.length_reverse] at hlt

theorem bits_injective {l l' : IP} (hlen : l.length = l'.length) (h : bits l = bits l') :
    l = l' := by
  rw [bits_eq_ofDigits, bits_eq_ofDigits] at h
  have hdigits := Nat.ofDigits_inj_of_len_eq (b := 256) (by omega) (by simpa using hlen)
    (fun _ => toNat_lt_of_mem) (fun _ => toNat_lt_of_mem) h
  exact List.reverse_injective (List.map_injective_iff.mpr (fun _ _ => UInt8.toNat_inj.mp) hdigits)

theorem inNetwork_eq (network : IP) (ones : Nat) (ip : IP) :
    inNetwork network ones ip =
      (((to4 ip).getD ip).length == network.length &&
        bits ((to4 ip).getD ip) / 2 ^ (8 * ((to4 ip).getD ip).length - ones) ==
          bits network / 2 ^ (8 * ((to4 ip).getD ip).length - ones)) := rfl

theorem inNetwork_of_length_ne {network : IP} {ones : Nat}
    (h : ((to4 ip).getD ip).length ≠ network.length) : inNetwork network ones ip = false := by
  rw [inNetwork_eq, beq_eq_false_iff_ne.mpr h]
  rfl

theorem inNetwork_v4_iff (network : IP) {a b d : UInt8}
    (hlen : network.length = 4) (hto4 : to4 ip = some [a, b, c, d]) (ones : Nat) :
    inNetwork network ones ip = true ↔
      bits [a, b, c, d] / 2 ^ (32 - ones) = bits network / 2 ^ (32 - ones) := by
  rw [inNetwork_eq, hto4]
  simp [hlen]

theorem bits_div {a b : UInt8} {rest : IP} {n : Nat} (hlen : rest.length = n) (k : Nat) :
    bits (a :: b :: rest) / 2 ^ (8 * n + k) = (a.toNat * 256 + b.toNat) / 2 ^ k := by
  have hpow : (256 : Nat) ^ n = 2 ^ (8 * n) := by
    rw [pow_mul]
    rfl
  have hsum : bits (a :: b :: rest) = bits rest + (a.toNat * 256 + b.toNat) * 2 ^ (8 * n) := by
    rw [bits_cons, bits_cons, List.length_cons, hlen, pow_succ, hpow]
    ring
  have hlt : bits rest < 2 ^ (8 * n) := by
    rw [← hpow, ← hlen]
    exact bits_lt rest
  rw [pow_add, ← Nat.div_div_eq_div_mul, hsum, Nat.add_mul_div_right _ _ (by positivity),
    Nat.div_eq_of_lt hlt, Nat.zero_add]

theorem inNetwork_v6_iff {a b m n : UInt8} {rest : IP} (hto4 : to4 (a :: b :: rest) = none)
    (hlen : rest.length = 14) {ones k : Nat} (hk : ones + k = 16) :
    inNetwork (m :: n :: List.replicate 14 0) ones (a :: b :: rest) = true ↔
      (a.toNat * 256 + b.toNat) / 2 ^ k = (m.toNat * 256 + n.toNat) / 2 ^ k := by
  have hexp : 8 * (a :: b :: rest).length - ones = 8 * 14 + k := by
    simp only [List.length_cons, hlen]
    omega
  rw [inNetwork_eq, hto4, Option.getD_none, hexp, bits_div hlen, bits_div List.length_replicate]
  simp [hlen]

theorem exists_bytes (hlen : ip.length = 16) :
    ∃ a b rest, ip = a :: b :: rest ∧ rest.length = 14 := by
  match ip, hlen with
  | a :: b :: rest, hlen => exact ⟨a, b, rest, rfl, by simpa using hlen⟩

theorem isLoopback_iff (hlen : ip.length = 16) :
    isLoopback ip = true ↔ (address ip).IsLoopback := by
  unfold isLoopback
  rcases address_cases hlen with ⟨a, b, c, d, hto4, haddr⟩ | ⟨hto4, haddr⟩
  · rw [hto4, haddr]
    simp [Address.IsLoopback]
  · rw [hto4, haddr]
    simp [Address.IsLoopback]

theorem isUnspecified_iff (hlen : ip.length = 16) :
    isUnspecified ip = true ↔ (address ip).IsUnspecified := by
  unfold isUnspecified
  rcases address_cases hlen with ⟨a, b, c, d, hto4, haddr⟩ | ⟨hto4, haddr⟩
  · have hne : ip ≠ List.replicate 16 0 := by
      rintro rfl
      rw [show to4 (List.replicate 16 0) = none by decide] at hto4
      cases hto4
    rw [hto4, haddr, beq_eq_false_iff_ne.mpr hne, Bool.or_false]
    simp [Address.IsUnspecified]
  · rw [hto4, haddr]
    simp [Address.IsUnspecified]

theorem isLinkLocalUnicast_iff (hlen : ip.length = 16) :
    isLinkLocalUnicast ip = true ↔ (address ip).IsLinkLocalUnicast := by
  unfold isLinkLocalUnicast
  rcases address_cases hlen with ⟨a, b, c, d, hto4, haddr⟩ | ⟨hto4, haddr⟩
  · rw [hto4, haddr]
    simp [Address.IsLinkLocalUnicast]
  · obtain ⟨a, b, rest, rfl, hrest⟩ := exists_bytes hlen
    have hb : b.toNat < 256 := b.toNat_lt
    have hnum : (a.toNat * 256 + b.toNat) / 2 ^ 6 = (254 * 256 + 128) / 2 ^ 6 ↔
        a.toNat = 254 ∧ 128 ≤ b.toNat ∧ b.toNat ≤ 191 := by omega
    have hclass : (Address.v6 (a :: b :: rest)).IsLinkLocalUnicast ↔
        a = 0xFE ∧ 0x80 ≤ b ∧ b ≤ 0xBF := by simp [Address.IsLinkLocalUnicast]
    rw [hto4, haddr, hclass, ← UInt8.toNat_inj, UInt8.le_iff_toNat_le, UInt8.le_iff_toNat_le]
    exact (inNetwork_v6_iff hto4 hrest (k := 6) rfl).trans hnum

theorem isLinkLocalMulticast_iff (hlen : ip.length = 16) :
    isLinkLocalMulticast ip = true ↔ (address ip).IsLinkLocalMulticast := by
  unfold isLinkLocalMulticast
  rcases address_cases hlen with ⟨a, b, c, d, hto4, haddr⟩ | ⟨hto4, haddr⟩
  · rw [hto4, haddr]
    simp [Address.IsLinkLocalMulticast]
  · rw [hto4, haddr]
    obtain ⟨a, b, rest, rfl, hrest⟩ := exists_bytes hlen
    have hmask : b &&& 0x0F = 0x02 ↔ b % 16 = 2 :=
      forall_byte (P := fun b => b &&& 0x0F = 0x02 ↔ b % 16 = 2) (by decide +kernel) b
    simp [Address.IsLinkLocalMulticast, hmask, hlen]

end Go.Net

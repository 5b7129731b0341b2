/-
# `Protocol.HostSpelling` — one host, several spellings (`url_validator.go`)

`isPrivateHost` is asked about what `url.Hostname` returns, and whoever writes the URL
chooses how the host is spelt.  A text that is an address is judged by its address, so
neither the case of its digits nor the mapped form of an IPv4 address make a difference,
and the answer is the right one (`isPrivateIP_iff`).  A name is judged by its letters, in
lower case.  Two spellings get past it (`dot_and_zone_are_public`): a name with a dot at
its end is the same name, but no longer `localhost` or a name in `.local`; and
`net.ParseIP` does not know zones, so an address with a zone is taken for a name.

`answersHost_iff` says for each way to respell a host when the answer stays the same.
-/
import MiniGoAgent.Go.UrlHost
import MiniGoAgent.Protocol.Host

open Go

namespace MiniGoAgent

open Net (Address)

variable {host : Str} {ip : Net.IP}

/-! ## Addresses -/

/-- The addresses of the machine itself and of its neighbourhood. -/
def IsInternal (x : Address) : Prop :=
  x.IsLoopback ∨ x.IsUnspecified ∨ x.IsLinkLocalUnicast ∨ x.IsLinkLocalMulticast ∨
    x.IsPrivate ∨ x.IsUniqueLocal

theorem privateRanges_v4_iff {a b c d : UInt8} (hto4 : Net.to4 ip = some [a, b, c, d]) :
    privateRanges.any (fun r => Net.inNetwork r.1 r.2 ip) = true ↔
      (Address.v4 a b c d).IsLoopback ∨ (Address.v4 a b c d).IsLinkLocalUnicast ∨
        (Address.v4 a b c d).IsPrivate ∨ (Address.v4 a b c d).IsUniqueLocal := by
  have hlong : ∀ network : Net.IP, network.length = 16 → ∀ ones,
      Net.inNetwork network ones ip = false := by
    intro network hnet ones
    apply Net.inNetwork_of_length_ne
    rw [hto4, hnet]
    simp
  have ha : a.toNat < 256 := a.toNat_lt
  have hb : b.toNat < 256 := b.toNat_lt
  have hc : c.toNat < 256 := c.toNat_lt
  have hd : d.toNat < 256 := d.toNat_lt
  simp only [privateRanges, List.any_cons, List.any_nil, Bool.or_false, Bool.or_eq_true,
    hlong Net.v6Loopback rfl, hlong (0xFC :: List.replicate 15 0) rfl,
    hlong ([0xFE, 0x80] ++ List.replicate 14 0) rfl,
    Net.inNetwork_v4_iff [127, 0, 0, 0] rfl hto4,
    Net.inNetwork_v4_iff [10, 0, 0, 0] rfl hto4,
    Net.inNetwork_v4_iff [172, 16, 0, 0] rfl hto4,
    Net.inNetwork_v4_iff [192, 168, 0, 0] rfl hto4,
    Net.inNetwork_v4_iff [169, 254, 0, 0] rfl hto4]
  simp [Net.bits, Address.IsLoopback, Address.IsLinkLocalUnicast, Address.IsPrivate,
    Address.IsUniqueLocal, ← UInt8.toNat_inj, UInt8.le_iff_toNat_le]
  omega

section LongAddress

variable {ip : Net.IP} (hlen : ip.length = 16) (hto4 : Net.to4 ip = none)
include hlen hto4

theorem inNetwork_v6Loopback_iff :
    Net.inNetwork Net.v6Loopback 128 ip = true ↔ (Address.v6 ip).IsLoopback := by
  rw [Net.inNetwork_eq, hto4, Option.getD_none, hlen]
  simp only [show Net.v6Loopback.length = 16 by rfl, beq_self_eq_true, Bool.true_and,
    Nat.sub_self, pow_zero, Nat.div_one, beq_iff_eq]
  constructor
  · intro h
    exact Net.bits_injective hlen h
  · intro h
    exact congrArg Net.bits h

theorem inNetwork_uniqueLocal_iff :
    Net.inNetwork (0xFC :: List.replicate 15 0) 7 ip = true ↔ (Address.v6 ip).IsUniqueLocal := by
  obtain ⟨a, b, rest, rfl, hrest⟩ := Net.exists_bytes hlen
  have hb : b.toNat < 256 := b.toNat_lt
  have hnum : (a.toNat * 256 + b.toNat) / 2 ^ 9 = (252 * 256 + 0) / 2 ^ 9 ↔
      a.toNat = 252 ∨ a.toNat = 253 := by omega
  have hclass : (Address.v6 (a :: b :: rest)).IsUniqueLocal ↔ a = 0xFC ∨ a = 0xFD := by
    simp [Address.IsUniqueLocal]
  rw [hclass, ← UInt8.toNat_inj, ← UInt8.toNat_inj]
  exact (Net.inNetwork_v6_iff hto4 hrest (k := 9) rfl).trans hnum

theorem privateRanges_v6_iff (haddr : Net.address ip = .v6 ip) :
    privateRanges.any (fun r => Net.inNetwork r.1 r.2 ip) = true ↔
      (Address.v6 ip).IsLoopback ∨ (Address.v6 ip).IsLinkLocalUnicast ∨
        (Address.v6 ip).IsPrivate ∨ (Address.v6 ip).IsUniqueLocal := by
  have hshort : ∀ network : Net.IP, network.length = 4 → ∀ ones,
      Net.inNetwork network ones ip = false := by
    intro network hnet ones
    apply Net.inNetwork_of_length_ne
    rw [hto4, Option.getD_none, hlen, hnet]
    simp
  have hlocal : Net.inNetwork ([0xFE, 0x80] ++ List.replicate 14 0) 10 ip = true ↔
      (Address.v6 ip).IsLinkLocalUnicast := by
    rw [← haddr, ← Net.isLinkLocalUnicast_iff hlen, Net.isLinkLocalUnicast, hto4]
  have hnone : ¬ (Address.v6 ip).IsPrivate := id
  simp only [privateRanges, List.any_cons, List.any_nil, Bool.or_false, Bool.or_eq_true,
    hshort [127, 0, 0, 0] rfl, hshort [10, 0, 0, 0] rfl, hshort [172, 16, 0, 0] rfl,
    hshort [192, 168, 0, 0] rfl, hshort [169, 254, 0, 0] rfl, inNetwork_v6Loopback_iff hlen hto4,
    hlocal, inNetwork_uniqueLocal_iff hlen hto4, hnone, Bool.false_eq_true, false_or]
  exact or_congr_right or_comm

end LongAddress

theorem privateRanges_iff (hlen : ip.length = 16) :
    privateRanges.any (fun r => Net.inNetwork r.1 r.2 ip) = true ↔
      (Net.address ip).IsLoopback ∨ (Net.address ip).IsLinkLocalUnicast ∨
        (Net.address ip).IsPrivate ∨ (Net.address ip).IsUniqueLocal := by
  rcases Net.address_cases hlen with ⟨a, b, c, d, hto4, haddr⟩ | ⟨hto4, haddr⟩
  · rw [haddr]
    exact privateRanges_v4_iff hto4
  · have hiff := privateRanges_v6_iff hlen hto4 haddr
    rwa [← haddr] at hiff

theorem isPrivateIP_iff (hlen : ip.length = 16) :
    isPrivateIP ip = true ↔ IsInternal (Net.address ip) := by
  simp only [isPrivateIP, IsInternal, Bool.or_eq_true, Net.isLoopback_iff hlen,
    Net.isUnspecified_iff hlen, Net.isLinkLocalUnicast_iff hlen, Net.isLinkLocalMulticast_iff hlen,
    privateRanges_iff hlen]
  tauto

theorem isPrivateHost_address (h : Net.parseIP host = some ip) :
    isPrivateHost host = isPrivateIP ip := by
  unfold isPrivateHost
  rw [h]

/-! ## Names -/

/-- A name in one of the two domains of the local network. -/
def EndsLocal (l : Str) : Prop :=
  hasSuffix l (lit ".local") = true ∨ hasSuffix l (lit ".localhost") = true

def IsLocalName (l : Str) : Prop := l = lit "localhost" ∨ EndsLocal l

/-- The number at the front of a text; it is a Go `int`. -/
def leadingNumber (s : Str) : Int :=
  (s.takeWhile isDigit).foldl (fun n c => wrap64 (wrap64 (n * 10) + (c.toNat - 0x30 : Nat))) 0

/-- The names that begin as a private IPv4 address does. -/
def BeginsPrivate (l : Str) : Prop :=
  hasPrefix l (lit "10.") = true ∨ hasPrefix l (lit "192.168.") = true ∨
    (hasPrefix l (lit "172.") = true ∧ 16 ≤ leadingNumber (l.drop 4) ∧
      leadingNumber (l.drop 4) ≤ 31)

theorem takeWhile_isDigit_dot (f t : Str) :
    (f ++ byte '.' :: t).takeWhile isDigit = f.takeWhile isDigit := by
  rw [List.takeWhile_append]
  split
  case isTrue hall =>
    have hdot : (byte '.' :: t).takeWhile isDigit = [] :=
      List.takeWhile_cons_of_neg (by decide)
    rw [hdot, List.append_nil]
    exact ((List.takeWhile_prefix isDigit).eq_of_length hall).symm
  case isFalse => rfl

theorem second172_eq (r : Str) : second172 (lit "172." ++ r) = some (leadingNumber r) := by
  cases hs : splitByte (byte '.') r with
  | nil => exact absurd hs (splitByte_ne_nil _ _)
  | cons f fs =>
    have hsplit : splitByte (byte '.') (lit "172." ++ r) = lit "172" :: f :: fs := by
      have hdot : splitByte (byte '.') (byte '.' :: r) = [] :: f :: fs := by
        rw [splitByte, if_pos (by decide), hs]
      exact splitByte_append (e := lit "172") (by decide) hdot
    have hdigits : f.takeWhile isDigit = r.takeWhile isDigit := by
      rcases splitByte_eq_cons hs with ⟨_, rfl⟩ | ⟨t, rfl, _⟩
      · rfl
      · exact (takeWhile_isDigit_dot f t).symm
    rw [second172, hsplit]
    simp only [hdigits]
    rfl

theorem isPrivateHost_text (hip : Net.parseIP host = none)
    (hinner : (hasPrefix host (lit "[") && hasSuffix host (lit "]")) = true →
      Net.parseIP (host.drop 1).dropLast = none) :
    isPrivateHost host = true ↔ IsLocalName (toLower host) ∨ BeginsPrivate (toLower host) := by
  have hlist : privateHosts.contains (toLower host) = true ↔ toLower host = lit "localhost" := by
    have hno : ∀ a ∈ privateHosts.drop 1, toLower host ≠ a := by
      intro a ha heq
      have hsome : (privateHosts.drop 1).all (fun a => (Net.parseIP a).isSome) = true := by
        decide +kernel
      have hsome' := List.all_eq_true.mp hsome a ha
      rw [← heq, Net.parseIP_toLower, hip] at hsome'
      cases hsome'
    have hcons : privateHosts = lit "localhost" :: privateHosts.drop 1 := rfl
    rw [List.contains_iff_mem, hcons, List.mem_cons]
    exact or_iff_left (fun h => hno _ h rfl)
  have hnone : (if hasPrefix host (lit "[") && hasSuffix host (lit "]") then
      Net.parseIP (host.drop 1).dropLast else none) = none := by
    split
    case isTrue h => exact hinner h
    case isFalse => rfl
  unfold isPrivateHost
  rw [hip]
  simp only [hnone, Bool.or_eq_true, hlist, IsLocalName, EndsLocal, BeginsPrivate, or_assoc]
  cases hpre : hasPrefix (toLower host) (lit "172.") with
  | false => simp
  | true =>
    have hsecond : second172 (toLower host) = some (leadingNumber ((toLower host).drop 4)) := by
      obtain ⟨r, hr⟩ := hasPrefix_iff.mp hpre
      rw [← hr]
      exact second172_eq r
    simp [hsecond]

theorem isPrivateHost_name (hip : Net.parseIP host = none)
    (hbracket : hasPrefix host (lit "[") = false) :
    isPrivateHost host = true ↔ IsLocalName (toLower host) ∨ BeginsPrivate (toLower host) := by
  apply isPrivateHost_text hip
  rw [hbracket]
  exact fun h => nomatch h

/-! ## The case of letters -/

theorem endsLocal_collapse (l : Str) : EndsLocal (collapse l) ↔ EndsLocal l := by
  rw [EndsLocal, EndsLocal, hasSuffix_collapse (by decide), hasSuffix_collapse (by decide)]

theorem isLocalName_collapse (l : Str) : IsLocalName (collapse l) ↔ IsLocalName l := by
  rw [IsLocalName, IsLocalName, collapse_eq_iff (by decide), endsLocal_collapse]

theorem beginsPrivate_collapse (l : Str) : BeginsPrivate (collapse l) ↔ BeginsPrivate l := by
  rw [BeginsPrivate, BeginsPrivate, hasPrefix_collapse (by decide), hasPrefix_collapse (by decide),
    hasPrefix_collapse (by decide)]
  refine or_congr_right (or_congr_right (and_congr_right ?_))
  intro hpre
  obtain ⟨r, rfl⟩ := hasPrefix_iff.mp hpre
  have hdrop : ∀ r : Str, (lit "172." ++ r).drop 4 = r := fun _ => rfl
  rw [collapse_ascii_append (by decide), hdrop, hdrop, leadingNumber, takeWhile_isDigit_collapse,
    leadingNumber]

theorem hasPrefix_bracket_cons (c : UInt8) (t : Str) :
    hasPrefix (c :: t) (lit "[") = (byte '[' == c) := by
  simp [hasPrefix, show lit "[" = [byte '['] by decide, List.isPrefixOf]

theorem hasPrefix_bracket_append {s : Str} (hne : s ≠ []) (t : Str) :
    hasPrefix (s ++ t) (lit "[") = hasPrefix s (lit "[") := by
  cases s with
  | nil => exact absurd rfl hne
  | cons c s => rw [List.cons_append, hasPrefix_bracket_cons, hasPrefix_bracket_cons]

theorem hasPrefix_bracket_toLower (s : Str) :
    hasPrefix (toLower s) (lit "[") = hasPrefix s (lit "[") := by
  have hbyte : ∀ c : UInt8, (byte '[' == lowerByte c) = (byte '[' == c) :=
    forall_byte (P := fun c => (byte '[' == lowerByte c) = (byte '[' == c)) (by decide +kernel)
  fun_cases toLower s with
  | case1 | case2 | case3 => rfl
  | case4 c rest _ _ =>
    rw [hasPrefix_bracket_cons, hasPrefix_bracket_cons]
    exact hbyte c

theorem hasPrefix_bracket_caseKey (s : Str) :
    hasPrefix (caseKey s) (lit "[") = hasPrefix s (lit "[") := by
  rw [caseKey, hasPrefix_collapse (by decide), hasPrefix_bracket_toLower]

theorem isPrivateHost_of_caseKey {other : Str} (hkey : caseKey other = caseKey host)
    (hbracket : hasPrefix host (lit "[") = false) : isPrivateHost other = isPrivateHost host := by
  have hbracket' : hasPrefix other (lit "[") = false := by
    rw [← hasPrefix_bracket_caseKey, hkey, hasPrefix_bracket_caseKey, hbracket]
  have hsame : Net.parseIP other = Net.parseIP host := by
    rw [← Net.parseIP_caseKey other, hkey, Net.parseIP_caseKey]
  cases hip : Net.parseIP host with
  | some ip => rw [isPrivateHost_address hip, isPrivateHost_address (hsame.trans hip)]
  | none =>
    rw [Bool.eq_iff_iff, isPrivateHost_name hip hbracket,
      isPrivateHost_name (hsame.trans hip) hbracket', ← isLocalName_collapse (toLower other),
      ← beginsPrivate_collapse (toLower other), ← isLocalName_collapse (toLower host),
      ← beginsPrivate_collapse (toLower host)]
    exact Iff.of_eq (congrArg (fun k => IsLocalName k ∨ BeginsPrivate k) hkey)

/-! ## Dots, brackets and zones -/

theorem IsLocalName.last {l : Str} (h : IsLocalName l) :
    l.getLast? = some (byte 'l') ∨ l.getLast? = some (byte 't') := by
  rcases h with rfl | h | h
  · exact Or.inr (by decide)
  · obtain ⟨t, rfl⟩ := hasSuffix_iff.mp h
    rw [List.getLast?_append_of_ne_nil _ (by decide)]
    exact Or.inl (by decide)
  · obtain ⟨t, rfl⟩ := hasSuffix_iff.mp h
    rw [List.getLast?_append_of_ne_nil _ (by decide)]
    exact Or.inr (by decide)

theorem not_isLocalName_concat {c : UInt8} (hc : c = byte '.' ∨ c = byte ']') (l : Str) :
    ¬ IsLocalName (l ++ [c]) := by
  intro h
  have hlast := h.last
  rw [List.getLast?_concat] at hlast
  rcases hc with rfl | rfl <;> exact absurd hlast (by decide)

theorem hasPrefix_concat (l p : Str) (c : UInt8) :
    hasPrefix (l ++ [c]) (p ++ [c]) = true ↔ hasPrefix l (p ++ [c]) = true ∨ l = p := by
  rw [hasPrefix_iff, hasPrefix_iff, List.prefix_concat_iff, List.append_left_inj]
  constructor
  · rintro (h | h)
    · exact Or.inr h.symm
    · exact Or.inl h
  · rintro (h | h)
    · exact Or.inr h
    · exact Or.inl h.symm

theorem beginsPrivate_dot (l : Str) : BeginsPrivate (l ++ [byte '.']) ↔
    BeginsPrivate l ∨ l = lit "10" ∨ l = lit "192.168" := by
  have hten : hasPrefix (l ++ [byte '.']) (lit "10.") = true ↔
      hasPrefix l (lit "10.") = true ∨ l = lit "10" := hasPrefix_concat l (lit "10") _
  have hhome : hasPrefix (l ++ [byte '.']) (lit "192.168.") = true ↔
      hasPrefix l (lit "192.168.") = true ∨ l = lit "192.168" :=
    hasPrefix_concat l (lit "192.168") _
  have hmiddle : (hasPrefix (l ++ [byte '.']) (lit "172.") = true ∧
      16 ≤ leadingNumber ((l ++ [byte '.']).drop 4) ∧
      leadingNumber ((l ++ [byte '.']).drop 4) ≤ 31) ↔
      hasPrefix l (lit "172.") = true ∧ 16 ≤ leadingNumber (l.drop 4) ∧
        leadingNumber (l.drop 4) ≤ 31 := by
    have hbare : ¬ (l = lit "172" ∧ 16 ≤ leadingNumber ((l ++ [byte '.']).drop 4) ∧
        leadingNumber ((l ++ [byte '.']).drop 4) ≤ 31) := by
      rintro ⟨rfl, hrange⟩
      exact absurd hrange.1 (by decide)
    rw [show lit "172." = lit "172" ++ [byte '.'] by decide, hasPrefix_concat, or_and_right,
      or_iff_left hbare]
    refine and_congr_right ?_
    intro hpre
    obtain ⟨r, rfl⟩ := hasPrefix_iff.mp hpre
    have hdrop : ∀ r : Str, (lit "172" ++ [byte '.'] ++ r).drop 4 = r := fun _ => rfl
    rw [List.append_assoc, hdrop, hdrop, leadingNumber, takeWhile_isDigit_dot, leadingNumber]
  rw [BeginsPrivate, BeginsPrivate, hten, hhome, hmiddle]
  simp only [or_assoc, or_comm, or_left_comm]

theorem beginsPrivate_front {l : Str} (h : BeginsPrivate l) :
    (∃ c t, l = c :: t ∧ isDigit c = true) ∧ Net.mark l = some (byte '.') := by
  rcases h with h | h | ⟨h, _⟩
  all_goals
    obtain ⟨r, rfl⟩ := hasPrefix_iff.mp h
    exact ⟨⟨byte '1', _, rfl, by decide⟩, rfl⟩

theorem not_beginsPrivate_bracket (l : Str) : ¬ BeginsPrivate (byte '[' :: l) := by
  intro h
  obtain ⟨⟨c, t, heq, hc⟩, _⟩ := beginsPrivate_front h
  rw [← (List.cons.inj heq).1] at hc
  exact absurd hc (by decide)

theorem endsLocal_zone (l z : Str) : EndsLocal (l ++ byte '%' :: z) ↔ EndsLocal z := by
  have hsuffix : ∀ p : Str, byte '%' ∉ p →
      (hasSuffix (l ++ byte '%' :: z) p = true ↔ hasSuffix z p = true) := by
    intro p hp
    rw [hasSuffix_iff, hasSuffix_iff]
    constructor
    · rintro ⟨t, ht⟩
      rcases List.append_eq_append_iff.mp ht with ⟨a, _, hpa⟩ | ⟨a, _, hpa⟩
      · rw [hpa] at hp
        exact absurd (List.mem_append_right _ List.mem_cons_self) hp
      · cases a with
        | nil =>
          rw [List.nil_append] at hpa
          rw [← hpa] at hp
          exact absurd List.mem_cons_self hp
        | cons c a => exact ⟨a, (List.cons.inj hpa).2.symm⟩
    · intro h
      exact h.trans ((List.suffix_cons _ _).trans (List.suffix_append _ _))
  rw [EndsLocal, EndsLocal, hsuffix _ (by decide), hsuffix _ (by decide)]

/-! ## Respelling a host -/

/-- A way to write a host differently. -/
inductive Respelling where
  /-- the case of letters is changed -/
  | letterCase (other : Str)
  /-- a dot is put behind a name -/
  | trailingDot
  | brackets
  /-- a zone is put behind an IPv6 address -/
  | zone (name : Str)
  /-- an IPv4 address is written as the IPv6 address that it is mapped to -/
  | mapped (other : Str)

/-- A name, as opposed to an address, without the dot of the root. -/
structure IsName (host : Str) : Prop where
  nonempty : host ≠ []
  noAddress : Net.parseAddr host = none
  noDot : host.getLast? ≠ some (byte '.')

namespace Respelling

/-- The hosts that can be respelt so. -/
def Applies (host : Str) : Respelling → Prop
  | letterCase other => caseKey other = caseKey host
  | trailingDot => IsName host
  | brackets => True
  | zone name => name ≠ [] ∧ ∃ ip, Net.parseAddr host = some (ip, []) ∧ ip.length = 16
  | mapped other => ∃ v4, Net.parseIPv4 host = some v4 ∧
      Net.parseIP other = some (Net.v4Prefix ++ v4)

def apply (host : Str) : Respelling → Str
  | letterCase other => other
  | trailingDot => host ++ [byte '.']
  | brackets => byte '[' :: (host ++ [byte ']'])
  | zone name => host ++ byte '%' :: name
  | mapped other => other

def Harmless (host : Str) : Respelling → Prop
  | letterCase _ => True
  | trailingDot => BeginsPrivate (toLower host) ∨
      (¬ IsLocalName (toLower host) ∧ toLower host ≠ lit "10" ∧ toLower host ≠ lit "192.168")
  | brackets => (Net.parseIP host).isSome = true ∨
      (¬ IsLocalName (toLower host) ∧ ¬ BeginsPrivate (toLower host))
  | zone name => ∀ ip, Net.parseIP host = some ip →
      (IsInternal (Net.address ip) ↔ EndsLocal (toLower name))
  | mapped _ => True

end Respelling

/-- The answer is about the host: a respelling does not change it, and for an address it
says whether the address is internal. -/
structure AnswersHost (host : Str) (r : Respelling) : Prop where
  spelling : r.Applies host → isPrivateHost (r.apply host) = isPrivateHost host
  address : ∀ ip, Net.parseIP host = some ip →
    (isPrivateHost host = true ↔ IsInternal (Net.address ip))

theorem parseIP_of_parseAddr_none (h : Net.parseAddr host = none) : Net.parseIP host = none := by
  rw [Net.parseIP, h]

section

variable {host : Str} (hbracket : hasPrefix host (lit "[") = false)
include hbracket

theorem trailingDot_iff (hname : IsName host) :
    isPrivateHost (host ++ [byte '.']) = isPrivateHost host ↔
      Respelling.trailingDot.Harmless host := by
  have hip := parseIP_of_parseAddr_none hname.noAddress
  have hbracket' : hasPrefix (host ++ [byte '.']) (lit "[") = false := by
    rw [hasPrefix_bracket_append hname.nonempty, hbracket]
  have hlower : toLower (host ++ [byte '.']) = toLower host ++ [byte '.'] :=
    toLower_append_ascii host (by decide) []
  have hdot : isPrivateHost (host ++ [byte '.']) = true ↔
      BeginsPrivate (toLower host) ∨ toLower host = lit "10" ∨ toLower host = lit "192.168" := by
    rw [isPrivateHost_name (Net.parseIP_dot host) hbracket', hlower, beginsPrivate_dot]
    exact or_iff_right (not_isLocalName_concat (Or.inl rfl) _)
  have hnumber : toLower host = lit "10" ∨ toLower host = lit "192.168" →
      ¬ IsLocalName (toLower host) := by
    rintro (h | h) hlocal <;> rw [h] at hlocal <;> exact absurd hlocal.last (by decide)
  rw [Bool.eq_iff_iff, hdot, isPrivateHost_name hip hbracket, Respelling.Harmless]
  tauto

theorem brackets_iff :
    isPrivateHost (byte '[' :: (host ++ [byte ']'])) = isPrivateHost host ↔
      Respelling.brackets.Harmless host := by
  have hno : Net.parseIP (byte '[' :: (host ++ [byte ']'])) = none :=
    Net.parseIP_eq_none_of_mem List.mem_cons_self (by decide)
  have hinner : ((byte '[' :: (host ++ [byte ']'])).drop 1).dropLast = host := by
    rw [List.drop_one, List.tail_cons, List.dropLast_concat]
  have hin : (hasPrefix (byte '[' :: (host ++ [byte ']'])) (lit "[") &&
      hasSuffix (byte '[' :: (host ++ [byte ']'])) (lit "]")) = true := by
    rw [hasPrefix_bracket_cons, Bool.and_eq_true, hasSuffix_iff, ← List.cons_append]
    exact ⟨rfl, List.suffix_append ..⟩
  rw [Respelling.Harmless]
  cases hip : Net.parseIP host with
  | some ip =>
    have hsame : isPrivateHost (byte '[' :: (host ++ [byte ']'])) = isPrivateIP ip := by
      unfold isPrivateHost
      rw [hno]
      simp only [hin, hinner, hip, if_true]
    simp [hsame, isPrivateHost_address hip]
  | none =>
    have hlower : toLower (byte '[' :: (host ++ [byte ']'])) =
        byte '[' :: (toLower host ++ [byte ']']) := by
      rw [toLower_cons_of_ascii (by decide), toLower_append_ascii host (by decide) []]
      rfl
    have hfalse : isPrivateHost (byte '[' :: (host ++ [byte ']'])) = false := by
      rw [← Bool.not_eq_true, isPrivateHost_text hno (fun _ => by rw [hinner, hip]), hlower]
      rintro (h | h)
      · exact not_isLocalName_concat (Or.inr rfl) (byte '[' :: toLower host) h
      · exact not_beginsPrivate_bracket _ h
    rw [hfalse, eq_comm, ← Bool.not_eq_true, isPrivateHost_name hip hbracket, not_or]
    simp

end

theorem isASCII_of_parseIP (hip : Net.parseIP host = some ip) : IsASCII host := by
  intro c hc
  by_contra hhigh
  have hbad := Net.isAddrByte_of_high (UInt8.not_lt.mp hhigh)
  rw [(Net.parseIP_text hip).bytes c hc] at hbad
  cases hbad

theorem isPrivateHost_zone_iff (name : Str) (haddr : Net.parseAddr host = some (ip, []))
    (hip : Net.parseIP host = some ip) (hlen : ip.length = 16) :
    isPrivateHost (host ++ byte '%' :: name) = true ↔ EndsLocal (toLower name) := by
  have hno : Net.parseIP (host ++ byte '%' :: name) = none :=
    Net.parseIP_eq_none_of_mem (List.mem_append_right _ List.mem_cons_self) (by decide)
  have hbracket : hasPrefix (host ++ byte '%' :: name) (lit "[") = false := by
    obtain ⟨c, t, rfl, hc⟩ := Net.parseAddr_head haddr
    rw [List.cons_append, hasPrefix_bracket_cons, beq_eq_false_iff_ne]
    rintro rfl
    exact absurd hc (by decide)
  have hlower : toLower (host ++ byte '%' :: name) = toLower host ++ byte '%' :: toLower name :=
    toLower_append_ascii host (by decide) name
  have hmark : Net.mark (toLower host ++ byte '%' :: toLower name) = some (byte ':') := by
    have hcolon : Net.mark host = some (byte ':') := by
      rcases Net.parseAddr_cases haddr with ⟨_, _, h4⟩ | ⟨hcolon, _⟩
      · have hfour := Net.length_of_parseIPv4 h4
        omega
      · exact hcolon
    have hlow := Net.mark_map_lowerByte host
    rw [← toLower_of_ascii (isASCII_of_parseIP hip), hcolon, Net.mark] at hlow
    rw [Net.mark, List.find?_append, hlow]
    rfl
  rw [isPrivateHost_name hno hbracket, hlower, IsLocalName, endsLocal_zone]
  constructor
  · rintro ((h | h) | h)
    · have hpercent : byte '%' ∈ lit "localhost" := by
        rw [← h]
        exact List.mem_append_right _ List.mem_cons_self
      exact absurd hpercent (by decide)
    · exact h
    · have hdot := (beginsPrivate_front h).2
      rw [hmark] at hdot
      exact absurd hdot (by decide)
  · intro h
    exact Or.inl (Or.inr h)

theorem zone_iff (name : Str) (haddr : Net.parseAddr host = some (ip, [])) (hlen : ip.length = 16) :
    isPrivateHost (host ++ byte '%' :: name) = isPrivateHost host ↔
      (Respelling.zone name).Harmless host := by
  have hip : Net.parseIP host = some ip := by
    rw [Net.parseIP, haddr]
    simp [hlen]
  rw [Bool.eq_iff_iff, isPrivateHost_zone_iff name haddr hip hlen, isPrivateHost_address hip,
    isPrivateIP_iff (Net.length_of_parseIP hip), Respelling.Harmless]
  constructor
  · intro h ip' hip'
    obtain rfl := Option.some.inj (hip.symm.trans hip')
    exact h.symm
  · intro h
    exact (h ip hip).symm

/-- For every host a URL can have, and every way to respell it: the answer is about the
host exactly if the respelling is harmless. -/
theorem answersHost_iff {raw : Str} {u : Url.URL} (hu : Url.parse raw = some u) (r : Respelling) :
    AnswersHost u.hostname r ↔ (r.Applies u.hostname → r.Harmless u.hostname) := by
  have hbracket := Url.hostname_head hu
  have haddress : ∀ ip, Net.parseIP u.hostname = some ip →
      (isPrivateHost u.hostname = true ↔ IsInternal (Net.address ip)) := by
    intro ip hip
    rw [isPrivateHost_address hip, isPrivateIP_iff (Net.length_of_parseIP hip)]
  have hspelling : r.Applies u.hostname →
      (isPrivateHost (r.apply u.hostname) = isPrivateHost u.hostname ↔ r.Harmless u.hostname) := by
    intro happ
    cases r with
    | letterCase other => exact iff_of_true (isPrivateHost_of_caseKey happ hbracket) trivial
    | trailingDot => exact trailingDot_iff hbracket happ
    | brackets => exact brackets_iff hbracket
    | zone name =>
      obtain ⟨_, ip, haddr, hlen⟩ := happ
      exact zone_iff name haddr hlen
    | mapped other =>
      obtain ⟨v4, hv4, hother⟩ := happ
      refine iff_of_true ?_ trivial
      show isPrivateHost other = _
      rw [isPrivateHost_address hother, isPrivateHost_address (Net.parseIP_of_parseIPv4 hv4)]
  constructor
  · intro h happ
    exact (hspelling happ).mp (h.spelling happ)
  · intro h
    exact { spelling := fun happ => (hspelling happ).mpr (h happ), address := haddress }

/-- A public name and the dot of the root. -/
theorem answersHost_public : AnswersHost (lit "example.com") .trailingDot := by
  have hu : Url.parse (lit "https://example.com") =
      some { scheme := lit "https", host := lit "example.com" } := by decide +kernel
  refine (answersHost_iff hu .trailingDot).mpr ?_
  intro _
  refine Or.inr ⟨?_, by decide, by decide⟩
  exact fun hlocal => absurd hlocal.last (by decide)

/-- A dot behind `localhost`, or a zone behind a link-local address, gets a URL past the
check. -/
theorem dot_and_zone_are_public :
    (((Url.parse (lit "http://localhost.")).map Url.URL.hostname = some (lit "localhost.") ∧
        isPrivateHost (lit "localhost") = true ∧ isPrivateHost (lit "localhost.") = false ∧
        validateBaseURL [] (lit "http://localhost.") = none) ∧
      ¬ AnswersHost (lit "localhost") .trailingDot) ∧
    ((Url.parse (lit "http://[fe80::1%25eth0]")).map Url.URL.hostname =
          some (lit "fe80::1%eth0") ∧
        isPrivateHost (lit "fe80::1") = true ∧ isPrivateHost (lit "fe80::1%eth0") = false ∧
        validateBaseURL [] (lit "http://[fe80::1%25eth0]") = none) ∧
      ¬ AnswersHost (lit "fe80::1") (.zone (lit "eth0")) := by
  have hlocal : isPrivateHost (lit "localhost") = true ∧
      isPrivateHost (lit "localhost.") = false := by decide +kernel
  have hlink : isPrivateHost (lit "fe80::1") = true ∧
      isPrivateHost (lit "fe80::1%eth0") = false := by decide +kernel
  refine ⟨⟨⟨by decide +kernel, hlocal.1, hlocal.2, by decide +kernel⟩, ?_⟩,
    ⟨by decide +kernel, hlink.1, hlink.2, by decide +kernel⟩, ?_⟩
  · intro h
    have hname : IsName (lit "localhost") :=
      { nonempty := by decide, noAddress := by decide +kernel, noDot := by decide }
    have hsame := h.spelling hname
    rw [hlocal.1] at hsame
    exact absurd hsame (by decide +kernel)
  · intro h
    have haddr : Net.parseAddr (lit "fe80::1") =
        some ([0xFE, 0x80] ++ List.replicate 13 0 ++ [1], []) := by decide +kernel
    have hsame := h.spelling ⟨by decide, _, haddr, rfl⟩
    rw [hlink.1] at hsame
    exact absurd hsame (by decide +kernel)

end MiniGoAgent

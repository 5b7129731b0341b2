/-
# `Go.Url` — `url.Parse` as far as the scheme and the host go

The parser cuts off the fragment, the scheme and the query, takes the
authority between `//` and the next slash, and checks the percent escapes of
everything but the query.  Only the scheme and the host of the result are
kept; the rest of the text matters because it can make the whole parse fail.
-/
import MiniGoAgent.Go.Net

namespace Go.Url

/-- The parts of a parsed URL the callers read; both are empty when absent. -/
structure URL where
  scheme : Str := []
  host : Str := []
  deriving DecidableEq, Repr

/-! ## Percent escapes -/

/-- Where an escape stands decides what it may encode. -/
inductive Mode where
  | path
  | userPassword
  | host
  | zone
  | fragment
  deriving DecidableEq, Repr

def isAlnum (c : UInt8) : Bool :=
  isDigit c || (0x41 ≤ c && c ≤ 0x5A) || (0x61 ≤ c && c ≤ 0x7A)

/-- `shouldEscape` in the host and zone modes. -/
def shouldEscapeHost (c : UInt8) : Bool :=
  !(isAlnum c || (lit "!$&'()*+,;=:[]<>\"-_.~").contains c)

/-- `unescape`: `none` on a malformed escape, or on one the mode forbids. -/
def unescape (mode : Mode) : Str → Option Str
  | [] => some []
  | c :: rest =>
    if c == byte '%' then
      match rest with
      | a :: b :: rest =>
        match unhex a, unhex b with
        | some h, some l =>
          let v := (h * 16 + l).toUInt8
          if (mode == .host && h < 8 && v != byte '%') ||
              (mode == .zone && v != byte '%' && v != 0x20 && shouldEscapeHost v) then none
          else (unescape mode rest).map (v :: ·)
        | _, _ => none
      | _ => none
    else if (mode == .host || mode == .zone) && c < 0x80 && shouldEscapeHost c then none
    else (unescape mode rest).map (c :: ·)

/-! ## The authority -/

def validOptionalPort (port : Str) : Bool :=
  match port with
  | [] => true
  | c :: digits => c == byte ':' && digits.all isDigit

/-- `parseHost`: a bracketed IPv6 address or a name, and an optional port. -/
def parseHost (host : Str) : Option Str :=
  match lastIndexByte host (byte '[') with
  | some 0 =>
    match lastIndexByte host (byte ']') with
    | none => none
    | some close =>
      let colonPort := host.drop (close + 1)
      let inner := (host.take close).drop 1
      if !validOptionalPort colonPort then none
      else
        let name :=
          match cut inner (lit "%25") with
          | some (hostPart, _) =>
            match unescape .host hostPart, unescape .zone (inner.drop hostPart.length) with
            | some h, some z => some (h ++ z)
            | _, _ => none
          | none => unescape .host inner
        match name, unescape .host colonPort with
        | some n, some p =>
          match Net.parseAddr n with
          | some (ip, _) =>
            if ip.length = 16 then some (lit "[" ++ n ++ lit "]" ++ p) else none
          | none => none
        | _, _ => none
  | some _ => none
  | none =>
    match host.findIdx? (· == byte ':') with
    | some i => if validOptionalPort (host.drop i) then unescape .host host else none
    | none => unescape .host host

def validUserinfo (s : Str) : Bool :=
  s.all (fun c => isAlnum c || (lit "-._:~!$&'()*+,;=%@").contains c)

/-- `parseAuthority`: the host behind the user information. -/
def parseAuthority (authority : Str) : Option Str :=
  match lastIndexByte authority (byte '@') with
  | none => parseHost authority
  | some i =>
    let userinfo := authority.take i
    match parseHost (authority.drop (i + 1)) with
    | none => none
    | some h =>
      if !validUserinfo userinfo then none
      else
        let parts :=
          match cut userinfo (lit ":") with
          | some (user, password) => [user, password]
          | none => [userinfo]
        if parts.all (fun p => (unescape .userPassword p).isSome) then some h else none

/-! ## The whole URL -/

/-- A byte that cannot stand in a scheme. -/
def endsScheme (c : UInt8) : Bool := !(isAlnum c || (lit "+-.").contains c)

/-- `getScheme`: the scheme and what follows its colon; `none` for a leading
colon. -/
def getScheme (raw : Str) : Option (Str × Str) :=
  match raw.findIdx? endsScheme with
  | none => some ([], raw)
  | some i =>
    if raw[i]? ≠ some (byte ':') then some ([], raw)
    else if i = 0 then none
    else if (raw.head?.map (fun c => isDigit c || (lit "+-.").contains c)).getD false then
      some ([], raw)
    else some (raw.take i, raw.drop (i + 1))

/-- The text before the first `c`, and the text behind it if there is one. -/
def cutByte (c : UInt8) (s : Str) : Str × Str :=
  (s.takeWhile (· != c), (s.dropWhile (· != c)).drop 1)

/-- The text behind `//`: the authority up to the next slash, then the path. -/
def parseHostPath (scheme s : Str) : Option URL :=
  match parseAuthority (s.takeWhile (· != byte '/')),
      unescape .path (s.dropWhile (· != byte '/')) with
  | some host, some _ => some { scheme := toLower scheme, host }
  | _, _ => none

/-- The part of `parse` behind the scheme, on the text before the query. -/
def parseRest (scheme rest : Str) : Option URL :=
  if !hasPrefix rest (lit "/") then
    if scheme ≠ [] then some { scheme := toLower scheme }
    else if ((cutByte (byte '/') rest).1).contains (byte ':') then none
    else (unescape .path rest).map (fun _ => {})
  else if hasPrefix rest (lit "//") && (scheme ≠ [] || !hasPrefix rest (lit "///")) then
    parseHostPath scheme (rest.drop 2)
  else (unescape .path rest).map (fun _ => { scheme := toLower scheme })

/-- A control character: `stringContainsCTLByte`. -/
def isCTL (c : UInt8) : Bool := c < 0x20 || c == 0x7F

/-- `parse`: everything but the fragment. -/
def parseNoFragment (raw : Str) : Option URL :=
  if raw.any isCTL then none
  else if raw == lit "*" then some {}
  else
    match getScheme raw with
    | none => none
    | some (scheme, rest) => parseRest scheme (cutByte (byte '?') rest).1

def parse (raw : Str) : Option URL :=
  let (u, frag) := cutByte (byte '#') raw
  (parseNoFragment u).bind (fun url =>
    if frag = [] then some url else (unescape .fragment frag).map (fun _ => url))

/-- `URL.Hostname`: the host without its port and brackets. -/
def URL.hostname (u : URL) : Str :=
  let host :=
    match lastIndexByte u.host (byte ':') with
    | some i => if validOptionalPort (u.host.drop i) then u.host.take i else u.host
    | none => u.host
  if hasPrefix host (lit "[") && hasSuffix host (lit "]") then (host.drop 1).dropLast else host

example : parse (lit "https://user@Example.com:8080/v1?x#y") =
    some { scheme := lit "https", host := lit "Example.com:8080" } := by decide +kernel

example : ((parse (lit "http://[::1]:80/")).map URL.hostname) = some (lit "::1") := by
  decide +kernel

/-! ## Appending a path

`tail` starts with a slash and holds no byte the parser treats specially, so
that it can only become part of the path (or of the query or the fragment,
when the URL has one). -/

structure PathTail (tail : Str) : Prop where
  slash : ∃ t, tail = byte '/' :: t ∧ t.head? ≠ some (byte '/')
  plain : ∀ c ∈ tail, c ≠ byte '%' ∧ c ≠ byte '#' ∧ c ≠ byte '?' ∧ isCTL c = false

variable {raw rest scheme : Str} {c : UInt8} {u : URL}

theorem takeWhile_bne_of_not_mem {s : Str} (h : c ∉ s) : s.takeWhile (· != c) = s := by
  rw [List.takeWhile_eq_self_iff]
  intro a ha
  simp only [bne_iff_ne, ne_eq]
  rintro rfl
  exact h ha

theorem cutByte_of_not_mem {s : Str} (h : c ∉ s) : cutByte c s = (s, []) := by
  have hdrop : s.dropWhile (· != c) = [] := by
    rw [List.dropWhile_eq_nil_iff]
    intro a ha
    simp only [bne_iff_ne, ne_eq]
    rintro rfl
    exact h ha
  simp [cutByte, takeWhile_bne_of_not_mem h, hdrop]

theorem cutByte_append_of_mem {s : Str} (t : Str) (h : c ∈ s) :
    cutByte c (s ++ t) = ((cutByte c s).1, (cutByte c s).2 ++ t) := by
  induction s with
  | nil => simp at h
  | cons a s ih =>
    by_cases ha : a = c
    · subst ha
      simp [cutByte]
    · have hmem : c ∈ s := by
        rcases List.mem_cons.mp h with h | h
        · exact absurd h.symm ha
        · exact h
      have hs := ih hmem
      simp only [cutByte, Prod.mk.injEq] at hs
      simp [cutByte, ha, hs.1, hs.2]

theorem map_const_congr {α α' β : Type} {x : Option α} {y : Option α'} (h : x.isSome = y.isSome)
    (b : β) : x.map (fun _ => b) = y.map (fun _ => b) := by
  cases x <;> cases y <;> first | rfl | cases h

theorem parseHostPath_eq (scheme s : Str) :
    parseHostPath scheme s = (parseAuthority (s.takeWhile (· != byte '/'))).bind (fun host =>
      (unescape .path (s.dropWhile (· != byte '/'))).map (fun _ =>
        { scheme := toLower scheme, host })) := by
  rw [parseHostPath]
  cases parseAuthority (s.takeWhile (· != byte '/')) <;>
    cases unescape .path (s.dropWhile (· != byte '/')) <;> rfl

theorem parse_eq (raw : Str) :
    parse raw = (parseNoFragment (cutByte (byte '#') raw).1).bind (fun url =>
      (unescape .fragment (cutByte (byte '#') raw).2).map (fun _ => url)) := by
  refine congrArg (Option.bind _) (funext ?_)
  intro url
  split
  case isTrue hnone =>
    rw [show (cutByte (byte '#') raw).2 = [] from hnone]
    rfl
  case isFalse => rfl

theorem parseRest_cases (h : parseRest scheme rest = some u) :
    u.scheme = toLower scheme ∧ (u.host = [] ∨ hasPrefix rest (lit "//") = true ∧
      ∃ authority, parseAuthority authority = some u.host) := by
  revert h
  fun_cases parseRest scheme rest
  case case1 =>
    rintro ⟨⟩
    exact ⟨rfl, Or.inl rfl⟩
  case case2 => nofun
  case case4 hslashes =>
    intro h
    rw [parseHostPath_eq] at h
    obtain ⟨host, hhost, h⟩ := Option.bind_eq_some_iff.mp h
    obtain ⟨_, _, rfl⟩ := Option.map_eq_some_iff.mp h
    exact ⟨rfl, Or.inr ⟨(Bool.and_eq_true_iff.mp hslashes).1, _, hhost⟩⟩
  case case3 hscheme _ =>
    intro h
    obtain ⟨_, _, rfl⟩ := Option.map_eq_some_iff.mp h
    rw [not_not.mp hscheme]
    exact ⟨rfl, Or.inl rfl⟩
  case case5 =>
    intro h
    obtain ⟨_, _, rfl⟩ := Option.map_eq_some_iff.mp h
    exact ⟨rfl, Or.inl rfl⟩

section
variable {tail : Str} (ht : PathTail tail)
include ht

theorem isSome_unescape_append {mode : Mode} (hhost : mode ≠ .host) (hzone : mode ≠ .zone)
    (s : Str) : (unescape mode (s ++ tail)).isSome = (unescape mode s).isSome := by
  have hcons : ∀ (c : UInt8) (rest : Str), c ≠ byte '%' →
      (unescape mode (c :: rest)).isSome = (unescape mode rest).isSome := by
    intro c rest hc
    rcases rest with _ | ⟨a, _ | ⟨b, rest⟩⟩ <;> simp [unescape, hc, hhost, hzone]
  have hplain : ∀ t : Str, (∀ c ∈ t, c ≠ byte '%') → (unescape mode t).isSome = true := by
    intro t
    induction t with
    | nil => intro _; rfl
    | cons c t ih =>
      intro hc
      rw [hcons c t (hc c List.mem_cons_self)]
      exact ih (fun c hc' => hc c (List.mem_cons_of_mem _ hc'))
  obtain ⟨t, rfl, _⟩ := ht.slash
  have htail := hplain (byte '/' :: t) (fun c hc => (ht.plain c hc).1)
  have hslash : unhex (byte '/') = none := by decide
  fun_induction unescape mode s with
  | case1 => exact htail
  | case2 | case6 => simp_all
  | case3 c hc a b rest h hb hl v hbad ih => simp_all [unescape]
  | case4 c hc a b rest hbad =>
    simp only [List.cons_append, unescape, hc]
    split <;> simp_all
  | case5 c rest hc hbad =>
    match rest, hbad with
    | [], _ =>
      cases t with
      | nil | cons => simp_all [unescape]
    | [a], _ => simp_all [unescape]
    | a :: b :: rest, hbad => exact absurd rfl (hbad a b rest)
  | case7 c rest hc hbad ih =>
    have hne : c ≠ byte '%' := by simpa using hc
    rw [List.cons_append, hcons c _ hne, ih, Option.isSome_map]

theorem getScheme_append (s : Str) :
    getScheme (s ++ tail) = (getScheme s).map (fun p => (p.1, p.2 ++ tail)) := by
  obtain ⟨t, rfl, _⟩ := ht.slash
  unfold getScheme
  rw [List.findIdx?_append]
  cases hi : s.findIdx? endsScheme with
  | none =>
    have hfirst : (byte '/' :: t).findIdx? endsScheme = some 0 := by
      rw [List.findIdx?_cons, show endsScheme (byte '/') = true by decide]
      rfl
    simp [hfirst, show byte '/' ≠ byte ':' by decide]
  | some i =>
    have hlt : i < s.length := by
      have := List.findIdx?_eq_some_iff_getElem.mp hi
      exact this.1
    have hget : (s ++ byte '/' :: t)[i]? = s[i]? := List.getElem?_append_left hlt
    have htake : (s ++ byte '/' :: t).take i = s.take i :=
      List.take_append_of_le_length (Nat.le_of_lt hlt)
    have hdrop : (s ++ byte '/' :: t).drop (i + 1) = s.drop (i + 1) ++ byte '/' :: t :=
      List.drop_append_of_le_length hlt
    have hhead : (s ++ byte '/' :: t).head? = s.head? := by
      cases s with
      | nil => simp at hlt
      | cons a s => rfl
    simp only [Option.some_or, hget, htake, hdrop, hhead]
    split
    · rfl
    · split
      · rfl
      · split <;> rfl

theorem takeWhile_slash_append (s : Str) :
    (s ++ tail).takeWhile (· != byte '/') = s.takeWhile (· != byte '/') := by
  obtain ⟨t, rfl, _⟩ := ht.slash
  induction s with
  | nil => simp
  | cons a s ih =>
    rw [List.cons_append, List.takeWhile_cons, List.takeWhile_cons, ih]

theorem dropWhile_slash_append (s : Str) :
    (s ++ tail).dropWhile (· != byte '/') = s.dropWhile (· != byte '/') ++ tail := by
  obtain ⟨t, rfl, _⟩ := ht.slash
  induction s with
  | nil => simp
  | cons a s ih =>
    rw [List.cons_append, List.dropWhile_cons, List.dropWhile_cons, ih]
    split <;> rfl

omit ht in
theorem hasPrefix_slashes :
    hasPrefix rest (lit "//") = true ↔ ∃ r, rest = byte '/' :: byte '/' :: r := by
  rw [hasPrefix_iff, show lit "//" = [byte '/', byte '/'] by decide]
  constructor
  · rintro ⟨r, rfl⟩
    exact ⟨r, rfl⟩
  · rintro ⟨r, rfl⟩
    exact ⟨r, rfl⟩

theorem hasPrefix_slashes_append (hend : rest.getLast? ≠ some (byte '/')) :
    hasPrefix (rest ++ tail) (lit "//") = true → hasPrefix rest (lit "//") = true := by
  intro h
  obtain ⟨r, hr⟩ := hasPrefix_slashes.mp h
  obtain ⟨t, rfl, hnot⟩ := ht.slash
  match rest, hend with
  | [], _ =>
    rw [List.nil_append, List.cons.injEq] at hr
    rw [hr.2] at hnot
    exact absurd rfl hnot
  | [a], hend =>
    rw [List.cons_append, List.cons.injEq] at hr
    rw [hr.1] at hend
    exact absurd rfl hend
  | a :: b :: rest, _ =>
    rw [List.cons_append, List.cons_append, List.cons.injEq, List.cons.injEq] at hr
    exact hasPrefix_slashes.mpr ⟨rest, by rw [hr.1, hr.2.1]⟩

theorem parseHostPath_append (scheme s : Str) :
    parseHostPath scheme (s ++ tail) = parseHostPath scheme s := by
  have hesc := isSome_unescape_append ht (show Mode.path ≠ .host by simp) (by simp)
    (s.dropWhile (· != byte '/'))
  rw [parseHostPath_eq, parseHostPath_eq, takeWhile_slash_append ht, dropWhile_slash_append ht]
  simp only [map_const_congr hesc]

theorem parseRest_append (hend : rest.getLast? ≠ some (byte '/')) (hu : u.host ≠ []) :
    parseRest scheme (rest ++ tail) = some u ↔ parseRest scheme rest = some u := by
  by_cases hslashes : hasPrefix rest (lit "//") = true
  · obtain ⟨r, rfl⟩ := hasPrefix_slashes.mp hslashes
    match r, hend with
    | [], hend => exact absurd rfl hend
    | c :: r, _ =>
      have hthree : ∀ t : Str, hasPrefix (byte '/' :: byte '/' :: c :: t) (lit "///") =
          (byte '/' == c) := by
        intro t
        simp [hasPrefix, show lit "///" = [byte '/', byte '/', byte '/'] by decide,
          List.isPrefixOf]
      have hone : ∀ t : Str, hasPrefix (byte '/' :: t) (lit "/") = true := by
        intro t
        simp [hasPrefix, show lit "/" = [byte '/'] by decide]
      have htwo : ∀ t : Str, hasPrefix (byte '/' :: byte '/' :: t) (lit "//") = true :=
        fun t => hasPrefix_slashes.mpr ⟨t, rfl⟩
      simp only [parseRest, List.cons_append, hone, htwo, hthree, Bool.not_true,
        Bool.false_eq_true, if_false, Bool.true_and, List.drop_succ_cons, List.drop_zero]
      split
      · rw [← List.cons_append, parseHostPath_append ht]
      · -- a third slash without a scheme: no host on either side
        constructor
        · intro h
          obtain ⟨_, _, rfl⟩ := Option.map_eq_some_iff.mp h
          exact absurd rfl hu
        · intro h
          obtain ⟨_, _, rfl⟩ := Option.map_eq_some_iff.mp h
          exact absurd rfl hu
  · have hno : ∀ {rest : Str}, parseRest scheme rest = some u →
        hasPrefix rest (lit "//") = true := fun h => ((parseRest_cases h).2.resolve_left hu).1
    constructor
    · intro h
      exact absurd (hasPrefix_slashes_append ht hend (hno h)) hslashes
    · intro h
      exact absurd (hno h) hslashes

omit ht in
theorem getScheme_suffix (h : getScheme raw = some (scheme, rest)) : rest <:+ raw := by
  revert h
  fun_cases getScheme raw
  case case3 => nofun
  case case5 =>
    rintro ⟨⟩
    exact List.drop_suffix ..
  all_goals
    rintro ⟨⟩
    exact List.suffix_rfl

omit ht in
theorem getLast?_ne_of_suffix (h : rest <:+ raw)
    (hend : raw.getLast? ≠ some c) : rest.getLast? ≠ some c := by
  obtain ⟨front, rfl⟩ := h
  intro hlast
  rw [List.getLast?_append, hlast] at hend
  exact hend rfl

theorem parseRest_cutByte_append (hend : rest.getLast? ≠ some (byte '/')) (hu : u.host ≠ []) :
    parseRest scheme (cutByte (byte '?') (rest ++ tail)).1 = some u ↔
      parseRest scheme (cutByte (byte '?') rest).1 = some u := by
  by_cases hq : byte '?' ∈ rest
  · rw [cutByte_append_of_mem tail hq]
  · have hq' : byte '?' ∉ rest ++ tail := by
      rw [List.mem_append]
      rintro (h | h)
      · exact hq h
      · exact (ht.plain _ h).2.2.1 rfl
    rw [cutByte_of_not_mem hq, cutByte_of_not_mem hq']
    exact parseRest_append ht hend hu

theorem parseNoFragment_append (hend : raw.getLast? ≠ some (byte '/')) (hu : u.host ≠ []) :
    parseNoFragment (raw ++ tail) = some u ↔ parseNoFragment raw = some u := by
  have hctl : (raw ++ tail).any isCTL = raw.any isCTL := by
    have htail : tail.any isCTL = false := by
      rw [List.any_eq_false]
      intro c hc
      simp [(ht.plain c hc).2.2.2]
    rw [List.any_append, htail, Bool.or_false]
  have hstar : (raw ++ tail == lit "*") = false := by
    obtain ⟨t, rfl, _⟩ := ht.slash
    rw [beq_eq_false_iff_ne, show lit "*" = [byte '*'] by decide]
    intro h
    cases raw with
    | nil =>
      rw [List.nil_append, List.cons.injEq] at h
      exact absurd h.1 (by decide)
    | cons a raw => simp at h
  unfold parseNoFragment
  rw [hctl, hstar, getScheme_append ht]
  split
  · rfl
  · by_cases hraw : raw = lit "*"
    · -- `*` has no host, and behind a `*` there is no scheme
      subst hraw
      rw [show getScheme (lit "*") = some ([], lit "*") by decide]
      simp only [Bool.false_eq_true, if_false, Option.map_some]
      rw [parseRest_cutByte_append ht hend hu,
        show parseRest [] (cutByte (byte '?') (lit "*")).1 = some {} by decide]
      rfl
    · have hne : (raw == lit "*") = false := beq_eq_false_iff_ne.mpr hraw
      rw [hne]
      simp only [Bool.false_eq_true, if_false]
      cases hs : getScheme raw with
      | none => rfl
      | some p =>
        obtain ⟨scheme, rest⟩ := p
        have hrest := getLast?_ne_of_suffix (getScheme_suffix hs) hend
        simp only [Option.map_some]
        exact parseRest_cutByte_append ht hrest hu

theorem parse_append (hend : raw.getLast? ≠ some (byte '/')) (hu : u.host ≠ []) :
    parse (raw ++ tail) = some u ↔ parse raw = some u := by
  rw [parse_eq, parse_eq]
  by_cases hf : byte '#' ∈ raw
  · -- the tail ends up in the fragment
    rw [cutByte_append_of_mem tail hf]
    have hesc := isSome_unescape_append ht (show Mode.fragment ≠ .host by simp) (by simp)
      (cutByte (byte '#') raw).2
    simp only [map_const_congr hesc]
  · have hf' : byte '#' ∉ raw ++ tail := by
      rw [List.mem_append]
      rintro (h | h)
      · exact hf h
      · exact (ht.plain _ h).2.1 rfl
    rw [cutByte_of_not_mem hf, cutByte_of_not_mem hf']
    simp only [unescape, Option.map_some]
    rw [Option.bind_fun_some, Option.bind_fun_some]
    exact parseNoFragment_append ht hend hu

end

/-! ## The scheme -/

/-- A name in front of a colon is the scheme. -/
structure SchemeName (name : Str) : Prop where
  bytes : ∀ c ∈ name, endsScheme c = false
  letter : ∃ c t, name = c :: t ∧ (isDigit c || (lit "+-.").contains c) = false

theorem getScheme_of_name {name : Str} (hname : SchemeName name) (rest : Str) :
    getScheme (name ++ byte ':' :: rest) = some (name, rest) := by
  have hnone : name.findIdx? endsScheme = none := by
    rw [List.findIdx?_eq_none_iff]
    exact hname.bytes
  have hcolon : (byte ':' :: rest).findIdx? endsScheme = some 0 := by
    rw [List.findIdx?_cons, show endsScheme (byte ':') = true by decide]
    rfl
  obtain ⟨c, t, rfl, hc⟩ := hname.letter
  unfold getScheme
  rw [List.findIdx?_append, hnone, hcolon]
  simpa using hc

theorem parse_scheme {name : Str} (hname : SchemeName name)
    (h : parse (name ++ byte ':' :: rest) = some u) : u.scheme = toLower name := by
  have hfront : ∃ r, (name ++ byte ':' :: rest).takeWhile (· != byte '#') =
      name ++ byte ':' :: r := by
    have hhash : ∀ c ∈ name, (c != byte '#') = true := by
      intro c hc
      rw [bne_iff_ne]
      rintro rfl
      exact absurd (hname.bytes _ hc) (by decide)
    refine ⟨rest.takeWhile (· != byte '#'), ?_⟩
    rw [List.takeWhile_append_of_pos hhash, List.takeWhile_cons_of_pos (by decide)]
  obtain ⟨r, hr⟩ := hfront
  rw [parse_eq] at h
  obtain ⟨v, hv, hu⟩ := Option.bind_eq_some_iff.mp h
  obtain ⟨_, _, rfl⟩ := Option.map_eq_some_iff.mp hu
  rw [cutByte, hr, parseNoFragment, getScheme_of_name hname] at hv
  split at hv
  · cases hv
  · split at hv
    case isTrue hstar =>
      obtain ⟨c, t, rfl, _⟩ := hname.letter
      rw [show lit "*" = [byte '*'] by decide] at hstar
      simp at hstar
    case isFalse => exact (parseRest_cases hv).1

end Go.Url

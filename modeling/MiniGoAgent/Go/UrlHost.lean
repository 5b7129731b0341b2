/-
# `Go.UrlHost` — what `URL.Hostname` returns

The host of a parsed URL is empty, or `parseHost` has accepted it: an IPv6 address in
brackets, or a text without brackets, each with an optional port.  `Hostname` cuts off the
port and the brackets, so what it returns does not begin with one (`hostname_head`).
-/
import MiniGoAgent.Go.NetText
import MiniGoAgent.Go.Url

namespace Go.Url

variable {s : Str} {c : UInt8} {u : URL}

theorem parseAuthority_host {authority host : Str} (h : parseAuthority authority = some host) :
    ∃ s, parseHost s = some host := by
  revert h
  fun_cases parseAuthority authority
  case case1 => exact fun h => ⟨_, h⟩
  case case4 hhost _ _ _ =>
    rintro ⟨⟩
    exact ⟨_, hhost⟩
  all_goals nofun

theorem parse_host {raw : Str} (h : parse raw = some u) :
    u.host = [] ∨ ∃ s, parseHost s = some u.host := by
  rw [parse_eq] at h
  obtain ⟨v, hv, hu⟩ := Option.bind_eq_some_iff.mp h
  obtain ⟨_, _, rfl⟩ := Option.map_eq_some_iff.mp hu
  revert hv
  fun_cases parseNoFragment (cutByte (byte '#') raw).1
  case case2 =>
    rintro ⟨⟩
    exact Or.inl rfl
  case case4 =>
    intro hv
    rcases (parseRest_cases hv).2 with hnone | ⟨_, _, hhost⟩
    · exact Or.inl hnone
    · exact Or.inr (parseAuthority_host hhost)
  all_goals nofun

/-! ## Hosts without brackets -/

theorem unhex_lt {n : Nat} (h : unhex c = some n) : n < 16 := by
  have hall : ∀ m : Fin 256, (unhex (UInt8.ofNat m)).all (fun n => decide (n < 16)) = true := by
    decide +kernel
  have hc := forall_byte (P := fun c => (unhex c).all (fun n => decide (n < 16)) = true) hall c
  rw [h] at hc
  simpa using hc

theorem not_mem_unescape {t : Str} (h : unescape .host s = some t) (hs : byte '[' ∉ s) :
    byte '[' ∉ t := by
  fun_induction unescape .host s generalizing t with
  | case1 =>
    cases h
    exact hs
  | case2 | case4 | case5 | case6 => cases h
  | case3 c hc a b rest hi lo hlo hhi v hok =>
    rename_i ih
    obtain ⟨t', ht', rfl⟩ := Option.map_eq_some_iff.mp h
    simp only [List.mem_cons, not_or] at hs
    rw [List.mem_cons, not_or]
    refine ⟨?_, ih ht' hs.2.2.2⟩
    intro hv
    have hlt := unhex_lt hhi
    have hlt' := unhex_lt hlo
    have hnum : (hi * 16 + lo) % 256 = 0x5B := by
      have hval := congrArg UInt8.toNat hv
      simpa [v, byte] using hval.symm
    have hfive : hi < 8 := by omega
    have hne : (v != byte '%') = true := by
      rw [← hv]
      decide
    exact hok (by simp [hfive, hne])
  | case7 c rest hc hok ih =>
    obtain ⟨t', ht', rfl⟩ := Option.map_eq_some_iff.mp h
    rw [List.mem_cons, not_or] at hs ⊢
    exact ⟨hs.1, ih ht' hs.2⟩

/-! ## The last place of a byte -/

theorem not_mem_of_lastIndexByte (h : lastIndexByte s c = none) : c ∉ s := by
  rw [lastIndexByte, Option.map_eq_none_iff, List.findIdx?_eq_none_iff] at h
  intro hc
  have hne := h c (List.mem_reverse.mpr hc)
  simp at hne

theorem lastIndexByte_append {a b : Str} (h : c ∉ b) :
    lastIndexByte (a ++ c :: b) c = some a.length := by
  have hnone : b.reverse.findIdx? (fun x => x == c) = none := by
    rw [List.findIdx?_eq_none_iff]
    intro x hx
    rw [beq_eq_false_iff_ne]
    rintro rfl
    exact h (List.mem_reverse.mp hx)
  rw [lastIndexByte, List.reverse_append, List.reverse_cons, List.append_assoc,
    List.findIdx?_append, hnone]
  simp only [List.singleton_append, List.findIdx?_cons, beq_self_eq_true, if_true,
    List.length_append, List.length_cons]
  simp

theorem lt_of_lastIndexByte {i : Nat} (h : lastIndexByte s c = some i) : i < s.length := by
  rw [lastIndexByte] at h
  obtain ⟨j, hj, rfl⟩ := Option.map_eq_some_iff.mp h
  have hlt := (List.findIdx?_eq_some_iff_getElem.mp hj).1
  rw [List.length_reverse] at hlt
  omega

/-! ## Hosts in brackets -/

theorem validOptionalPort_bracket (t : Str) : validOptionalPort (t ++ [byte ']']) = false := by
  cases t with
  | nil => rfl
  | cons c t => simp [validOptionalPort, show isDigit (byte ']') = false by decide]

theorem colon_not_mem_of_digits {digits : Str} (h : digits.all isDigit = true) :
    byte ':' ∉ digits := by
  intro hc
  exact absurd (List.all_eq_true.mp h _ hc) (by decide)

/-- `stripPort`, which `Hostname` begins with. -/
def stripPort (host : Str) : Str :=
  match lastIndexByte host (byte ':') with
  | some i => if validOptionalPort (host.drop i) then host.take i else host
  | none => host

theorem hostname_eq (u : URL) : u.hostname =
    if hasPrefix (stripPort u.host) (lit "[") && hasSuffix (stripPort u.host) (lit "]") then
      ((stripPort u.host).drop 1).dropLast
    else stripPort u.host := rfl

theorem stripPort_front (host : Str) : stripPort host <+: host := by
  fun_cases stripPort host
  case case1 => exact List.take_prefix _ _
  all_goals exact List.prefix_rfl

theorem stripPort_brackets {n p : Str} (hp : validOptionalPort p = true) :
    stripPort (byte '[' :: (n ++ [byte ']']) ++ p) = byte '[' :: (n ++ [byte ']']) := by
  cases p with
  | nil =>
    rw [List.append_nil, ← List.cons_append]
    unfold stripPort
    cases hi : lastIndexByte (byte '[' :: n ++ [byte ']']) (byte ':') with
    | none => rfl
    | some i =>
      have hlt := lt_of_lastIndexByte hi
      rw [List.length_append, List.length_singleton] at hlt
      simp only [List.drop_append_of_le_length (Nat.le_of_lt_succ hlt),
        validOptionalPort_bracket, Bool.false_eq_true, if_false]
  | cons c digits =>
    simp only [validOptionalPort, Bool.and_eq_true, beq_iff_eq] at hp
    obtain ⟨rfl, hdigits⟩ := hp
    have hvalid : validOptionalPort (byte ':' :: digits) = true := by
      simp [validOptionalPort, hdigits]
    unfold stripPort
    rw [lastIndexByte_append (colon_not_mem_of_digits hdigits)]
    simp only [List.drop_left, List.take_left, hvalid, if_true]

theorem hostname_brackets {n p : Str} (hu : u.host = byte '[' :: (n ++ [byte ']']) ++ p)
    (hp : validOptionalPort p = true) : u.hostname = n := by
  have hstrip : stripPort u.host = byte '[' :: (n ++ [byte ']']) := by
    rw [hu, stripPort_brackets hp]
  have hsuffix : hasSuffix (byte '[' :: (n ++ [byte ']'])) (lit "]") = true := by
    rw [hasSuffix_iff, ← List.cons_append]
    exact List.suffix_append ..
  rw [hostname_eq, hstrip, hsuffix]
  simp [hasPrefix, show lit "[" = [byte '['] by decide]

/-! ## What `parseHost` accepts -/

theorem unescape_eq_self {t : Str} (h : unescape .host s = some t) (hs : byte '%' ∉ s) : t = s := by
  fun_induction unescape .host s generalizing t with
  | case1 => exact (Option.some.inj h).symm
  | case2 | case4 | case5 | case6 => cases h
  | case3 c hc => exact absurd (beq_iff_eq.mp hc ▸ List.mem_cons_self) hs
  | case7 c s _ _ ih =>
    obtain ⟨t', ht', rfl⟩ := Option.map_eq_some_iff.mp h
    rw [ih ht' (fun hmem => hs (List.mem_cons_of_mem c hmem))]

theorem percent_not_mem_port {port : Str} (h : validOptionalPort port = true) :
    byte '%' ∉ port := by
  cases port with
  | nil => exact List.not_mem_nil
  | cons c digits =>
    simp only [validOptionalPort, Bool.and_eq_true, beq_iff_eq] at h
    obtain ⟨rfl, hdigits⟩ := h
    rw [List.mem_cons, not_or]
    refine ⟨by decide, ?_⟩
    intro hc
    exact absurd (List.all_eq_true.mp hdigits _ hc) (by decide)

theorem parseHost_cases {host : Str} (h : parseHost s = some host) :
    byte '[' ∉ host ∨ ∃ n p, host = byte '[' :: (n ++ [byte ']']) ++ p ∧
      (Net.parseAddr n).isSome = true ∧ validOptionalPort p = true := by
  revert h
  fun_cases parseHost s
  case case3 colonPort _ hport _ n p hp _ _ _ haddr _ =>
    rintro ⟨⟩
    have hvalid : validOptionalPort colonPort = true := by simpa using hport
    obtain rfl : p = colonPort := unescape_eq_self hp (percent_not_mem_port hvalid)
    refine Or.inr ⟨n, _, ?_, Option.isSome_of_eq_some haddr, hvalid⟩
    rw [show lit "[" = [byte '['] by decide, show lit "]" = [byte ']'] by decide]
    simp
  case case8 hnone _ _ _ | case10 hnone _ =>
    exact fun h => Or.inl (not_mem_unescape h (not_mem_of_lastIndexByte hnone))
  all_goals nofun

theorem hostname_head {raw : Str} (h : parse raw = some u) :
    hasPrefix u.hostname (lit "[") = false := by
  rw [← Bool.not_eq_true, hasPrefix_iff, show lit "[" = [byte '['] by decide]
  have hplain : byte '[' ∉ u.host → ¬ [byte '['] <+: u.hostname := by
    intro hnot hpre
    have hstrip : byte '[' ∉ stripPort u.host :=
      fun hmem => hnot ((stripPort_front u.host).subset hmem)
    have hno : hasPrefix (stripPort u.host) (lit "[") = false := by
      rw [← Bool.not_eq_true, hasPrefix_iff, show lit "[" = [byte '['] by decide]
      intro hpre'
      exact hstrip (hpre'.subset List.mem_cons_self)
    rw [hostname_eq, hno] at hpre
    exact hstrip (hpre.subset List.mem_cons_self)
  rcases parse_host h with hnil | ⟨s, hs⟩
  · apply hplain
    rw [hnil]
    exact List.not_mem_nil
  · rcases parseHost_cases hs with hnot | ⟨n, p, hhost, haddr, hport⟩
    · exact hplain hnot
    · rw [hostname_brackets hhost hport]
      obtain ⟨addr, ha⟩ := Option.isSome_iff_exists.mp haddr
      obtain ⟨c, t, rfl, hc⟩ := Net.parseAddr_head ha
      rintro ⟨r, hr⟩
      rw [List.singleton_append, List.cons.injEq] at hr
      rw [← hr.1] at hc
      exact absurd hc (by decide)

end Go.Url

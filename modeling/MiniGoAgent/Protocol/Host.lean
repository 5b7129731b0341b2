/-
# `Protocol.Host` — which endpoint a URL names (`host.go`, `url_validator.go`, `vendor_policy.go`)

`detectVendor` reads the vendor off the host of the base URL.
`validateBaseURL` refuses a URL that is not http(s), has no host, or names a
private host.  The value of `ALLOW_PRIVATE_URLS` is a parameter, since the
source reads it at every call.

A request is sent to the configured URL with `/chat/completions` behind it; the check
of the one is the check of the other (`validateBaseURL_append`).
-/
import MiniGoAgent.Go.Url
import MiniGoAgent.Protocol.Types

open Go

namespace MiniGoAgent

/-! ## Vendors -/

def matchesVendorHost (baseURL apex : Str) (canonicals : List Str) : Bool :=
  match Url.parse baseURL with
  | none => false
  | some u =>
    let host := toLower u.hostname
    canonicals.contains host || hasSuffix host (lit "." ++ apex)

def isDeepSeek (baseURL : Str) : Bool :=
  matchesVendorHost baseURL (lit "deepseek.com") [lit "api.deepseek.com"]

def isMiniMax (baseURL : Str) : Bool :=
  matchesVendorHost baseURL (lit "minimaxi.com") [lit "api.minimaxi.com"]

def isMiMo (baseURL : Str) : Bool :=
  matchesVendorHost baseURL (lit "xiaomimimo.com") [lit "api.xiaomimimo.com"]

def isZhipu (baseURL : Str) : Bool :=
  matchesVendorHost baseURL (lit "bigmodel.cn") [lit "open.bigmodel.cn"] ||
    matchesVendorHost baseURL (lit "z.ai") [lit "api.z.ai"]

def isLongCat (baseURL : Str) : Bool :=
  matchesVendorHost baseURL (lit "longcat.chat") [lit "api.longcat.chat"]

def isOllamaCloud (baseURL : Str) : Bool :=
  matchesVendorHost baseURL (lit "ollama.com") [lit "ollama.com"]

def isStepFun (baseURL : Str) : Bool :=
  matchesVendorHost baseURL (lit "stepfun.com") [lit "api.stepfun.com"]

def isQwen (baseURL : Str) : Bool :=
  matchesVendorHost baseURL (lit "aliyuncs.com") [lit "dashscope.aliyuncs.com"]

def detectVendor (baseURL : Str) : Vendor :=
  if isDeepSeek baseURL then .deepSeek
  else if isMiniMax baseURL then .miniMax
  else if isMiMo baseURL then .miMo
  else if isZhipu baseURL then .zhipu
  else if isLongCat baseURL then .longCat
  else if isOllamaCloud baseURL then .ollamaCloud
  else if isStepFun baseURL then .stepFun
  else if isQwen baseURL then .qwen
  else .unspecified

inductive ReasoningPolicy where
  | none
  | effort
  | thinking
  deriving DecidableEq, Repr

def isThinkingVendor : Vendor → Bool
  | .deepSeek | .zhipu | .miniMax | .longCat | .miMo | .stepFun | .qwen => true
  | _ => false

def resolveReasoningPolicy (v : Vendor) : ReasoningPolicy :=
  if isThinkingVendor v then .thinking else .effort

/-! ## Private hosts -/

/-- The networks of `isPrivateIP`, with the length of their masks. -/
def privateRanges : List (Net.IP × Nat) :=
  [([127, 0, 0, 0], 8), ([10, 0, 0, 0], 8), ([172, 16, 0, 0], 12), ([192, 168, 0, 0], 16),
   ([169, 254, 0, 0], 16), (Net.v6Loopback, 128), (0xFC :: List.replicate 15 0, 7),
   ([0xFE, 0x80] ++ List.replicate 14 0, 10)]

def isPrivateIP (ip : Net.IP) : Bool :=
  Net.isLoopback ip || Net.isUnspecified ip || Net.isLinkLocalUnicast ip ||
    Net.isLinkLocalMulticast ip || privateRanges.any (fun r => Net.inNetwork r.1 r.2 ip)

/-- The names and literals `isPrivateHost` compares with. -/
def privateHosts : List Str :=
  [lit "localhost", lit "127.0.0.1", lit "0.0.0.0", lit "::1", lit "0.0.0.0",
   lit "169.254.0.1"]

/-- The second part of a `172.` name read as a number, up to its first byte
that is no digit; the sum is a Go `int`. -/
def second172 (lower : Str) : Option Int :=
  match splitByte (byte '.') lower with
  | _ :: part :: _ =>
    some ((part.takeWhile isDigit).foldl
      (fun n c => wrap64 (wrap64 (n * 10) + (c.toNat - 0x30 : Nat))) 0)
  | _ => none

def isPrivateHost (host : Str) : Bool :=
  let ip :=
    match Net.parseIP host with
    | some ip => some ip
    | none =>
      if hasPrefix host (lit "[") && hasSuffix host (lit "]") then
        Net.parseIP (host.drop 1).dropLast
      else none
  match ip with
  | some ip => isPrivateIP ip
  | none =>
    let lower := toLower host
    privateHosts.contains lower ||
      (hasSuffix lower (lit ".local") || hasSuffix lower (lit ".localhost")) ||
      (hasPrefix lower (lit "10.") || hasPrefix lower (lit "192.168.")) ||
      (hasPrefix lower (lit "172.") &&
        match second172 lower with
        | some n => 16 ≤ n && n ≤ 31
        | none => false)

/-! ## Validation -/

/-- The reason of a `URLValidationError`. -/
inductive URLReason where
  | parseError
  | unsupportedScheme (scheme : Str)
  | missingHost
  | privateURL
  deriving DecidableEq, Repr

/-- `ValidateBaseURL` under a value of `ALLOW_PRIVATE_URLS`; `none` is a nil
error. -/
def validateBaseURL (allowPrivate raw : Str) : Option URLReason :=
  if raw = [] then none
  else
    match Url.parse raw with
    | none => some .parseError
    | some u =>
      let scheme := toLower u.scheme
      if scheme ≠ lit "http" ∧ scheme ≠ lit "https" then some (.unsupportedScheme u.scheme)
      else if u.hostname = [] then some .missingHost
      else if allowPrivate ≠ lit "true" ∧ isPrivateHost u.hostname = true then
        some .privateURL
      else none

/-- The parsed URLs `validateBaseURL` lets through. -/
def Acceptable (allowPrivate : Str) (u : Url.URL) : Prop :=
  (toLower u.scheme = lit "http" ∨ toLower u.scheme = lit "https") ∧ u.hostname ≠ [] ∧
    (allowPrivate = lit "true" ∨ isPrivateHost u.hostname = false)

theorem validateBaseURL_iff {allowPrivate raw : Str} (hne : raw ≠ []) :
    validateBaseURL allowPrivate raw = none ↔
      ∃ u, Url.parse raw = some u ∧ Acceptable allowPrivate u := by
  unfold validateBaseURL
  rw [if_neg hne]
  cases hp : Url.parse raw with
  | none => simp
  | some u =>
    simp only [Option.some.injEq, exists_eq_left', Acceptable]
    constructor
    · intro h
      split at h
      · cases h
      case isFalse hs =>
        split at h
        · cases h
        case isFalse hh =>
          split at h
          · cases h
          case isFalse hpriv =>
            refine ⟨?_, hh, ?_⟩
            · by_contra hno
              exact hs (not_or.mp hno)
            · by_contra hno
              obtain ⟨h₁, h₂⟩ := not_or.mp hno
              exact hpriv ⟨h₁, by simpa using h₂⟩
    · rintro ⟨hs, hh, hpriv⟩
      have hs' : ¬ (toLower u.scheme ≠ lit "http" ∧ toLower u.scheme ≠ lit "https") := by
        rintro ⟨h₁, h₂⟩
        exact hs.elim h₁ h₂
      have hpriv' : ¬ (allowPrivate ≠ lit "true" ∧ isPrivateHost u.hostname = true) := by
        rintro ⟨h₁, h₂⟩
        rcases hpriv with h | h
        · exact h₁ h
        · rw [h] at h₂
          cases h₂
      rw [if_neg hs', if_neg hh, if_neg hpriv']

theorem Acceptable.host_ne {allowPrivate : Str} {u : Url.URL}
    (h : Acceptable allowPrivate u) : u.host ≠ [] := by
  intro hnil
  refine h.2.1 ?_
  simp only [Url.URL.hostname, hnil]
  decide

def chatCompletions : Str := lit "/chat/completions"

theorem pathTail_chatCompletions : Url.PathTail chatCompletions where
  slash := ⟨lit "chat/completions", by decide, by decide⟩
  plain := by decide +kernel

theorem validateBaseURL_append {allowPrivate base : Str} (hend : base.getLast? ≠ some (byte '/')) :
    validateBaseURL allowPrivate (base ++ chatCompletions) = none ↔
      base ≠ [] ∧ validateBaseURL allowPrivate base = none := by
  have hne : base ++ chatCompletions ≠ [] := by
    intro h
    exact absurd (List.append_eq_nil_iff.mp h).2 (by decide)
  by_cases hb : base = []
  · subst hb
    have hrel : Url.parse chatCompletions = some {} := by decide +kernel
    rw [validateBaseURL_iff hne, List.nil_append, hrel]
    constructor
    · rintro ⟨u, hu, hacc⟩
      rw [Option.some.injEq] at hu
      subst hu
      exact absurd rfl hacc.host_ne
    · rintro ⟨h, _⟩
      exact absurd rfl h
  · rw [validateBaseURL_iff hne, validateBaseURL_iff hb]
    constructor
    · rintro ⟨u, hu, hacc⟩
      exact ⟨hb, u,
        (Url.parse_append pathTail_chatCompletions hend hacc.host_ne).mp hu, hacc⟩
    · rintro ⟨_, u, hu, hacc⟩
      exact ⟨u, (Url.parse_append pathTail_chatCompletions hend hacc.host_ne).mpr hu, hacc⟩

theorem getLast?_trimRight_slash (s : Str) :
    (trimRight s (lit "/")).getLast? ≠ some (byte '/') := by
  intro h
  have hmem : trimRight s (lit "/") ≠ [] := by
    intro hnil
    rw [hnil] at h
    cases h
  have hlast := List.rdropWhile_last_not (fun c => (lit "/").contains c) s hmem
  rw [List.getLast?_eq_some_getLast hmem, Option.some.injEq] at h
  have hslash : (lit "/").contains (byte '/') = true := by decide
  rw [← h] at hslash
  exact hlast hslash

end MiniGoAgent

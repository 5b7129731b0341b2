/-
# `Protocol.OpenAI` — the OpenAI value (`openai.go`, `failover.go`)

One `OpenAI` value serves every call of the process.  It is mutable state:
failover rewrites the endpoint, an authentication error moves on to the next
key, and the usage of a stream waits in `lastUsage` until it is recorded.

The fields kept are the ones these functions read: the HTTP client, the
logger, the timeouts and the request options are left out, and of the
telemetry only its two thresholds are kept.
-/
import MiniGoAgent.Protocol.Host

open Go

namespace MiniGoAgent

/-! ## Failover -/

structure FailoverConfig where
  maxRetries : Int := 0
  shouldFailoverFn : Option (Str → Str → Option Err → Bool) := none
  getFailoverModelFn : Option (Str → Str → Option (Str × Str)) := none

namespace FailoverConfig

def shouldFailover (c : FailoverConfig) (model vendor : Str) (err : Option Err) : Bool :=
  match c.shouldFailoverFn with
  | none => true
  | some f => f model vendor err

/-- `getFailoverModel`; `none` is `ok == false`. -/
def getFailoverModel (c : FailoverConfig) (model vendor : Str) :
    Option (Str × Str) :=
  match c.getFailoverModelFn with
  | none => none
  | some f => f model vendor

/-- The method `maxRetries`: two unless set. -/
def retries (c : FailoverConfig) : Int := if c.maxRetries ≤ 0 then 2 else c.maxRetries

end FailoverConfig

/-- The failover `NewOpenAI` sets up for a configured fallback. -/
def fallbackTo (model baseURL : Str) : FailoverConfig where
  maxRetries := 2
  shouldFailoverFn := some (fun _ _ _ => true)
  getFailoverModelFn := some (fun _ _ => some (model, baseURL))

/-! ## Construction -/

structure Config where
  apiKey : Str := []
  apiKeys : List Str := []
  baseURL : Str := []
  model : Str := []
  maxReconnect : Int := 0
  contextWarnPct : Int := 0
  contextCompressPct : Int := 0
  fallbackModel : Str := []
  fallbackBaseURL : Str := []

structure OpenAI where
  apiKey : Str := []
  apiKeys : List Str := []
  keyIndex : Nat := 0
  baseURL : Str := []
  model : Str := []
  vendor : Vendor := .unspecified
  policy : ReasoningPolicy := .none
  maxReconnect : Int := 0
  warnPct : Int := 0
  comprPct : Int := 0
  lastUsage : Option Usage := none
  failover : FailoverConfig := {}

def newOpenAI (allowPrivate : Str) (cfg : Config) : Except URLReason OpenAI :=
  let baseURL := trimRight cfg.baseURL (lit "/")
  match validateBaseURL allowPrivate baseURL with
  | some reason => .error reason
  | none =>
    let vendor := detectVendor baseURL
    .ok {
      apiKey := cfg.apiKey
      apiKeys := if cfg.apiKeys.isEmpty ∧ cfg.apiKey ≠ [] then [cfg.apiKey] else cfg.apiKeys
      baseURL := baseURL ++ chatCompletions
      model := cfg.model
      vendor := vendor
      policy := resolveReasoningPolicy vendor
      maxReconnect := if cfg.maxReconnect ≤ 0 then 3 else cfg.maxReconnect
      warnPct := cfg.contextWarnPct
      comprPct := cfg.contextCompressPct
      failover :=
        if cfg.fallbackModel ≠ [] ∧ cfg.fallbackBaseURL ≠ [] then
          fallbackTo cfg.fallbackModel cfg.fallbackBaseURL
        else {} }

namespace OpenAI

def applyFailover (o : OpenAI) (model baseURL : Str) : OpenAI :=
  let vendor := detectVendor baseURL
  { o with
    baseURL := trimRight baseURL (lit "/") ++ chatCompletions
    model := model
    vendor := vendor
    policy := resolveReasoningPolicy vendor }

def currentKey (o : OpenAI) : Str := o.apiKeys.getD o.keyIndex o.apiKey

/-- `rotateKey`; the second component is its answer. -/
def rotateKey (o : OpenAI) : OpenAI × Bool :=
  if o.apiKeys.length ≤ 1 then (o, false)
  else ({ o with keyIndex := (o.keyIndex + 1) % o.apiKeys.length }, true)

end OpenAI

def modelContextWindow (model : Str) : Int :=
  let table : List (Str × Int) :=
    [(lit "gpt-4", 8192), (lit "gpt-4-32k", 32768), (lit "gpt-4-turbo", 128000),
     (lit "gpt-4o", 128000), (lit "gpt-4o-mini", 128000), (lit "claude-3-haiku", 200000),
     (lit "claude-3-sonnet", 200000), (lit "claude-3-opus", 200000),
     (lit "claude-3-5-haiku", 200000), (lit "claude-3-5-sonnet", 200000),
     (lit "deepseek-chat", 65536), (lit "deepseek-reasoner", 65536), (lit "step-2-16k", 16384),
     (lit "step-1-128k", 131072), (lit "qwen-turbo", 8192), (lit "qwen-plus", 32768),
     (lit "qwq-32b-preview", 32768)]
  match table.find? (fun e => e.1 == model) with
  | some e => e.2
  | none =>
    if contains model (lit "128k") || contains model (lit "128K") then 128000
    else if contains model (lit "200k") || contains model (lit "200K") then 200000
    else if contains model (lit "step") || contains model (lit "Step") then 128000
    else if contains model (lit "qwen") || contains model (lit "Qwen") then 32768
    else 524288

end MiniGoAgent

/-
# `Go.Http` — which hosts a GET of `http.Client` asks

`NewRequest` parses the URL, and `Client.Do` sends the request and follows the redirects
of the answers.  The default policy lets it send ten requests.  A request is refused
before there is a connection if its scheme is not http(s) or it has no host.

The network is a parameter: what it answers to the request that comes after `n` others,
and under which name a host is dialled.  A `Location` is given as the URL it resolves to;
one that does not parse is a failed request, and so is every error of the connection.

`mem_get_hosts_iff` says which hosts are asked, in terms of the redirects alone: those of
the URLs `Web.hop` leads to.
-/
import MiniGoAgent.Go.Url

namespace Go.Http

open Url (URL)

/-- A response, as far as the callers read it. -/
structure Response where
  status : Nat
  contentType : Str := []
  /-- what `io.ReadAll` makes of the body -/
  body : Except Str Str

inductive Reply where
  | failed (err : Str)
  | redirect (location : URL)
  | answered (resp : Response)

structure Web where
  /-- the host as it is dialled: its IDNA form, if it has one -/
  toASCII : Str → Str
  /-- the answer to the request that follows `n` others -/
  reply : Nat → Reply

inductive GetError where
  | badURL (raw : Str)
  | unsupportedScheme (scheme : Str)
  | noHost
  | stopped
  | failed (err : Str)
  deriving DecidableEq, Repr

/-- What a GET has done: the hosts that were asked, in order, and the response. -/
structure Got where
  hosts : List Str
  response : Except GetError Response

/-- The checks of `Transport.RoundTrip` before there is a connection. -/
def refusal (u : URL) : Option GetError :=
  if u.scheme ≠ lit "http" ∧ u.scheme ≠ lit "https" then some (.unsupportedScheme u.scheme)
  else if u.host = [] then some .noHost
  else none

def removeEmptyPort (host : Str) : Str :=
  if hasSuffix host (lit ":") then host.dropLast else host

def firstURL (u : URL) : URL := { u with host := removeEmptyPort u.host }

/-- How many requests `defaultCheckRedirect` allows. -/
def maxRequests : Nat := 10

/-- The loop of `Client.do`: `left` requests are still allowed, `via` have been sent. -/
def Web.send (web : Web) : Nat → Nat → URL → Got
  | 0, _, _ => { hosts := [], response := .error .stopped }
  | left + 1, via, u =>
    match refusal u with
    | some err => { hosts := [], response := .error err }
    | none =>
      let host := web.toASCII u.hostname
      match web.reply via with
      | .failed err => { hosts := [host], response := .error (.failed err) }
      | .answered resp => { hosts := [host], response := .ok resp }
      | .redirect v =>
        let got := web.send left (via + 1) v
        { got with hosts := host :: got.hosts }

/-- `http.NewRequestWithContext` for a GET, and `Client.Do`. -/
def Web.get (web : Web) (raw : Str) : Got :=
  match Url.parse raw with
  | none => { hosts := [], response := .error (.badURL raw) }
  | some u => web.send maxRequests 0 (firstURL u)

/-! ## The hosts that are asked -/

/-- The URL `n` redirects behind `u`, when `via` requests came before. -/
def Web.hop (web : Web) (via : Nat) (u : URL) : Nat → Option URL
  | 0 => some u
  | n + 1 =>
    match refusal u, web.reply via with
    | none, .redirect v => web.hop (via + 1) v n
    | _, _ => none

theorem mem_send_hosts_iff (web : Web) (host : Str) (left via : Nat) (u : URL) :
    host ∈ (web.send left via u).hosts ↔
      ∃ n < left, ∃ v, web.hop via u n = some v ∧ refusal v = none ∧
        host = web.toASCII v.hostname := by
  induction left generalizing via u with
  | zero => simp [Web.send]
  | succ left ih =>
    have hsplit : (∃ n < left + 1, ∃ v, web.hop via u n = some v ∧ refusal v = none ∧
          host = web.toASCII v.hostname) ↔
        (refusal u = none ∧ host = web.toASCII u.hostname) ∨
          ∃ n < left, ∃ v, web.hop via u (n + 1) = some v ∧ refusal v = none ∧
            host = web.toASCII v.hostname := by
      constructor
      · rintro ⟨n, hn, v, hv, hok, hhost⟩
        cases n with
        | zero =>
          obtain rfl : u = v := Option.some.inj hv
          exact Or.inl ⟨hok, hhost⟩
        | succ n => exact Or.inr ⟨n, Nat.lt_of_succ_lt_succ hn, v, hv, hok, hhost⟩
      · rintro (⟨hok, hhost⟩ | ⟨n, hn, v, hv, hok, hhost⟩)
        · exact ⟨0, Nat.succ_pos _, u, rfl, hok, hhost⟩
        · exact ⟨n + 1, Nat.succ_lt_succ hn, v, hv, hok, hhost⟩
    rw [hsplit]
    cases hr : refusal u with
    | some err => simp [Web.send, Web.hop, hr]
    | none =>
      cases hw : web.reply via with
      | failed | answered => simp [Web.send, Web.hop, hr, hw]
      | redirect v =>
        have htail := ih (via + 1) v
        simp only [Web.send, Web.hop, hr, hw, List.mem_cons, htail, true_and]

theorem send_hosts_ne_nil_iff (web : Web) (left via : Nat) (u : URL) :
    (web.send (left + 1) via u).hosts ≠ [] ↔ refusal u = none := by
  cases hr : refusal u with
  | some err => simp [Web.send, hr]
  | none =>
    cases hw : web.reply via with
    | failed | answered | redirect => simp [Web.send, hr, hw]

theorem mem_get_hosts_iff (web : Web) (host raw : Str) :
    host ∈ (web.get raw).hosts ↔
      ∃ u, Url.parse raw = some u ∧ ∃ n < maxRequests, ∃ v,
        web.hop 0 (firstURL u) n = some v ∧ refusal v = none ∧
          host = web.toASCII v.hostname := by
  unfold Web.get
  cases Url.parse raw with
  | none => simp
  | some u => simp only [mem_send_hosts_iff, Option.some.injEq, exists_eq_left']

theorem get_hosts_ne_nil_iff (web : Web) (raw : Str) :
    (web.get raw).hosts ≠ [] ↔ ∃ u, Url.parse raw = some u ∧ refusal (firstURL u) = none := by
  unfold Web.get
  cases Url.parse raw with
  | none => simp
  | some u =>
    simp only [Option.some.injEq, exists_eq_left']
    exact send_hosts_ne_nil_iff web 9 0 (firstURL u)

/-! ## Data URLs -/

def base64Symbol (n : Nat) : UInt8 :=
  ((lit "ABCDEFGHIJKLMNOPQRSTUVWXYZabcdefghijklmnopqrstuvwxyz0123456789+/")[n]?).getD 0

/-- `base64.StdEncoding.EncodeToString`. -/
def base64 : Str → Str
  | [] => []
  | [a] =>
    [base64Symbol (a.toNat / 4), base64Symbol (a.toNat % 4 * 16), byte '=', byte '=']
  | [a, b] =>
    [base64Symbol (a.toNat / 4), base64Symbol (a.toNat % 4 * 16 + b.toNat / 16),
      base64Symbol (b.toNat % 16 * 4), byte '=']
  | a :: b :: c :: rest =>
    base64Symbol (a.toNat / 4) :: base64Symbol (a.toNat % 4 * 16 + b.toNat / 16) ::
      base64Symbol (b.toNat % 16 * 4 + c.toNat / 64) :: base64Symbol (c.toNat % 64) ::
      base64 rest

example : base64 (lit "Go!?") = lit "R28hPw==" := by decide +kernel

def dataURL (mime data : Str) : Str :=
  lit "data:" ++ mime ++ lit ";base64," ++ base64 data

end Go.Http

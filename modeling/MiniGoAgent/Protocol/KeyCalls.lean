/-
# `Protocol.KeyCalls` — calls as moves of the key machine

Run without others in between, `streamWithFailover` and `chatWithFailover` are
runs of `keyMachine`: they send the keys the machine sends, and leave the current
key where it does.  `requests_of_run` says which keys a run sends, however the calls
are interleaved.

The invariant is `Tracks`, between the variables of a call and a state of the
machine.  An attempt of a stream is followed by one `send` and one `answer` for
every request of `SendWithRetry`; if the last answer is an `AuthError`, the call is
in front of `rotate`, which is what `sendFailed` does.
-/
import MiniGoAgent.Protocol.KeyRing
import MiniGoAgent.Protocol.Endpoint

open Go

namespace MiniGoAgent

variable {c : Call} {w : KeyWorld} {i : Nat} {o v : OpenAI}

/-! ## Keys sent -/

def Event.requestKey : Event → Option Str
  | .request _ r => some r.key
  | _ => none

def Call.keys (c : Call) : List Str := c.trace.filterMap Event.requestKey

theorem Grows.keys {c' : Call} (h : Grows (fun e => e.requestKey = none) c c') :
    c'.keys = c.keys := by
  obtain ⟨l, hl, hnone⟩ := h
  rw [Call.keys, hl, List.filterMap_append, List.filterMap_eq_nil_iff.mpr hnone, List.append_nil]
  rfl

theorem Call.keys_request (c : Call) (tag : Nat) (r : HttpRequest) :
    (c.log (.request tag r)).keys = c.keys ++ [r.key] := List.filterMap_append

def KeyWorld.keysOf (w : KeyWorld) (i : Nat) : List Str :=
  (w.requests.filter (fun r => r.1 == i)).map Prod.snd

/-! ## Moves of one call -/

/-- The moves of call `i` take one state to the other. -/
def Moves (o : OpenAI) (i : Nat) (w w' : KeyWorld) : Prop :=
  ∃ l : List KeyMove, (keyMachine o).run w (l.map (fun m => (i, m))) = some w'

namespace Moves

variable {o : OpenAI} {i : Nat} {w w' w'' : KeyWorld}

theorem refl (w : KeyWorld) : Moves o i w w := ⟨[], rfl⟩

theorem trans (h : Moves o i w w') (h' : Moves o i w' w'') : Moves o i w w'' := by
  obtain ⟨l, hl⟩ := h
  obtain ⟨l', hl'⟩ := h'
  refine ⟨l ++ l', ?_⟩
  rw [List.map_append, Machine.run_append, hl, Option.bind_some, hl']

theorem step {m : KeyMove} (h : (keyMachine o).step w (i, m) = some w') : Moves o i w w' := by
  refine ⟨[m], ?_⟩
  rw [List.map_singleton, Machine.run_cons _ h]
  rfl

end Moves

/-- The call on the value, with what it has done so far, is where the machine is; the
usage kept in the value is no matter of the machine. -/
structure Tracks (i : Nat) (caller : Caller) (v : OpenAI) (c : Call) (phase : KeyPhase)
    (w : KeyWorld) : Prop where
  place : w.calls i = some ⟨caller, phase⟩
  value : ∃ u, w.o = { v with lastUsage := u }
  keys : w.keysOf i = c.keys

/-- The machine can follow the call to the end of a step. -/
def Follows (o : OpenAI) (i : Nat) (caller : Caller) (w : KeyWorld) (v : OpenAI) (c : Call) :
    Prop :=
  ∃ w', Moves o i w w' ∧ Tracks i caller v c .idle w'

section Tracks

variable {o v v' : OpenAI} {i : Nat} {caller : Caller} {c c' : Call} {phase : KeyPhase}
  {w w' : KeyWorld}

theorem Tracks.same (h : Tracks i caller v c phase w) (hv : ∃ u, v' = { v with lastUsage := u })
    (hc : Grows (fun e => e.requestKey = none) c c') : Tracks i caller v' c' phase w := by
  obtain ⟨u, hu⟩ := h.value
  obtain ⟨u', rfl⟩ := hv
  exact ⟨h.place, ⟨u, hu⟩, h.keys.trans hc.keys.symm⟩

theorem Follows.trans (h : Follows o i caller w v c)
    (hnext : ∀ w', Tracks i caller v c .idle w' → Follows o i caller w' v' c') :
    Follows o i caller w v' c' := by
  obtain ⟨w', hmoves, htracks⟩ := h
  obtain ⟨w'', hmoves', htracks'⟩ := hnext w' htracks
  exact ⟨w'', hmoves.trans hmoves', htracks'⟩

theorem Follows.same (h : Follows o i caller w v c) (hv : ∃ u, v' = { v with lastUsage := u })
    (hc : Grows (fun e => e.requestKey = none) c c') : Follows o i caller w v' c' :=
  h.trans fun w' htracks => ⟨w', .refl w', htracks.same hv hc⟩

theorem Tracks.pass (h : Tracks i caller v c .idle w) (status : Option Nat)
    (hc : c'.keys = c.keys ++ [v.currentKey]) :
    ∃ w', Moves o i w w' ∧
      Tracks i caller v c' (KeyCall.answered caller w.o.keyIndex status).phase w' := by
  obtain ⟨u, hu⟩ := h.value
  have hkey : w.o.currentKey = v.currentKey := by rw [hu]; rfl
  have hsend : (keyMachine o).step w (i, .send) = some
      { w.put i (some ⟨caller, .sent w.o.keyIndex⟩) with
        requests := w.requests ++ [(i, w.o.currentKey)] } := by
    simp only [keyMachine, h.place]
  have hanswer : ∀ sent : KeyWorld, sent.calls i = some ⟨caller, .sent w.o.keyIndex⟩ →
      (keyMachine o).step sent (i, .answer status) =
        some ((sent.answered w.o.keyIndex status).put i
          (some (.answered caller w.o.keyIndex status))) := by
    intro sent hsent
    simp only [keyMachine, hsent]
  refine ⟨_, (Moves.step hsend).trans (.step (hanswer _ calls_put_self)), ?_, ⟨u, hu⟩, ?_⟩
  · rw [calls_put_self]
    cases caller <;> rfl
  · have hrequests : KeyWorld.keysOf { w with requests := w.requests ++ [(i, w.o.currentKey)] } i =
        w.keysOf i ++ [w.o.currentKey] := by
      simp [KeyWorld.keysOf]
    exact hrequests.trans (by rw [h.keys, hkey, hc])

theorem Tracks.failover (h : Tracks i caller v c .idle w) (target : Str × Str) :
    Follows o i caller w (v.applyFailover target.1 target.2) c := by
  obtain ⟨u, hu⟩ := h.value
  have hstep : (keyMachine o).step w (i, .failover target.1 target.2) =
      some { w with o := w.o.applyFailover target.1 target.2 } := by
    simp only [keyMachine, h.place]
  exact ⟨_, .step hstep, h.place, ⟨u, by rw [hu]; rfl⟩, h.keys⟩

theorem Tracks.rotate {key : Nat} (h : Tracks i caller v c (.refused key) w) :
    Follows o i caller w v.rotateKey.1 c := by
  obtain ⟨u, hu⟩ := h.value
  have hstep : (keyMachine o).step w (i, .rotate) =
      some (w.rotated.put i (some ⟨caller, .idle⟩)) := by
    simp only [keyMachine, h.place]
  refine ⟨_, .step hstep, calls_put_self, ⟨u, ?_⟩, h.keys⟩
  show w.o.rotateKey.1 = _
  rw [hu]
  simp only [OpenAI.rotateKey]
  split <;> rfl

theorem Follows.start (hfree : w.calls i = none) (hunsent : w.keysOf i = [])
    (hvalue : ∃ u, w.o = { v with lastUsage := u }) (hc : c.keys = []) :
    Follows o i caller w v c := by
  have hstep : (keyMachine o).step w (i, .start caller) =
      some (w.put i (some ⟨caller, .idle⟩)) := by
    simp only [keyMachine, hfree]
  exact ⟨_, .step hstep, calls_put_self, hvalue, hunsent.trans hc.symm⟩

theorem Follows.leave (h : Follows o i caller w v c) :
    ∃ w', Moves o i w w' ∧ w'.calls i = none ∧ (∃ u, w'.o = { v with lastUsage := u }) ∧
      w'.keysOf i = c.keys := by
  obtain ⟨w', hmoves, htracks⟩ := h
  have hstep : (keyMachine o).step w' (i, .leave) = some (w'.put i none) := by
    simp only [keyMachine, htracks.place]
  exact ⟨_, hmoves.trans (.step hstep), calls_put_self, htracks.value, htracks.keys⟩

end Tracks

/-! ## `SendWithRetry` -/

/-- No error of the transport is an `AuthError`. -/
def HttpTry.Plain (t : HttpTry) : Prop :=
  ∀ err, t.outcome = .transport err ∨ t.outcome = .buildError err → err.asAuthError = false

def Env.Plain (env : Env) : Prop := ∀ attempt pass, (env.tries attempt pass).Plain

def authOf : Except Err Body → Bool
  | .error err => err.asAuthError
  | .ok _ => false

def Pass.auth : Pass → Bool
  | .done r => authOf r
  | .retry _ => false

theorem asAuthError_wrap (text : Str) (err : Err) :
    (Err.wrap text err).asAuthError = err.asAuthError := by
  simp [Err.asAuthError, Err.chain]

theorem sendOnce_pass (env : Env) (tag : Nat) (vendor : Vendor) (req : HttpRequest) {t : HttpTry}
    (hplain : t.Plain) (c : Call) :
    ((sendOnce env tag vendor req t c).1.keys = c.keys ∧
        (sendOnce env tag vendor req t c).2.auth = false) ∨
      ∃ status, (sendOnce env tag vendor req t c).1.keys = c.keys ++ [req.key] ∧
        (sendOnce env tag vendor req t c).2.auth = refuses status := by
  have hsent : (c.log (.request tag req)).keys = c.keys ++ [req.key] := c.keys_request tag req
  have hlog : ∀ (b : Bool) (e : Event), e.requestKey = none →
      ((c.log (.request tag req)).logIf b e).keys = c.keys ++ [req.key] := by
    intro b e he
    exact (Grows.logIf (Q := fun e => e.requestKey = none) b he).keys.trans hsent
  have hnot : ∀ {status : Nat}, ¬ (status = 401 ∨ status = 403) →
      false = refuses (some status) := by
    intro status h
    simpa [refuses] using h
  fun_cases sendOnce env tag vendor req t c
  case case1 | case2 => exact Or.inl ⟨rfl, rfl⟩
  case case3 err hout =>
    exact Or.inl ⟨rfl, (asAuthError_wrap (lit "build request: ") err).trans
      (hplain err (Or.inr hout))⟩
  case case4 => exact Or.inr ⟨none, hlog _ _ rfl, rfl⟩
  case case5 err hout _ _ _ =>
    exact Or.inr ⟨none, hsent, (asAuthError_wrap (lit "request failed: ") err).trans
      (hplain err (Or.inl hout))⟩
  case case6 => exact Or.inr ⟨some 200, hlog _ _ rfl, rfl⟩
  case case7 status _ _ _ _ _ hrefused =>
    refine Or.inr ⟨some status, hlog _ _ rfl, ?_⟩
    simp [Pass.auth, authOf, Err.asAuthError, Err.chain, refuses, hrefused]
  case case8 status _ _ _ _ _ hother _ _ =>
    exact Or.inr ⟨some status, hlog _ _ rfl, hnot hother⟩
  case case9 status _ _ _ _ _ hother _ _ =>
    exact Or.inr ⟨some status, hsent, hnot hother⟩

theorem not_auth_of_retry {env : Env} {tag : Nat} {vendor : Vendor} {req : HttpRequest}
    {t : HttpTry} (hplain : t.Plain) {err : Err}
    (h : (sendOnce env tag vendor req t c).2 = .retry err) : err.asAuthError = false := by
  revert h
  fun_cases sendOnce env tag vendor req t c
  case case4 cause hout _ _ _ =>
    intro h
    rw [← Pass.retry.inj h]
    exact (asAuthError_wrap (lit "request failed: ") cause).trans (hplain cause (Or.inl hout))
  case case8 =>
    intro h
    rw [← Pass.retry.inj h]
    rfl
  all_goals
    intro h
    cases h

theorem sendLoop_tracks {env : Env} (hplain : env.Plain) (tag : Nat)
    (vendor : Vendor) (req : HttpRequest) (hreq : req.key = v.currentKey) (left pass : Nat)
    (c : Call) (h : Tracks i .stream v c .idle w) :
    ∃ w' key, Moves o i w w' ∧
      Tracks i .stream v (sendLoop env tag vendor req left pass c).1
        (if authOf (sendLoop env tag vendor req left pass c).2 then .refused key
          else .idle) w' := by
  have hpass : ∀ (pass : Nat) (c c' : Call) (p : Pass) (w : KeyWorld),
      Tracks i .stream v c .idle w →
      sendOnce env tag vendor req (env.tries tag pass) (if 0 < pass then c.next else c) = (c', p) →
        ∃ w' key, Moves o i w w' ∧
          Tracks i .stream v c' (if p.auth then .refused key else .idle) w' := by
    intro pass c c' p w h heq
    have hwaited : (if 0 < pass then c.next else c).keys = c.keys := by
      split <;> rfl
    rcases sendOnce_pass env tag vendor req (hplain tag pass)
      (if 0 < pass then c.next else c) with ⟨hkeys, hauth⟩ | ⟨status, hkeys, hauth⟩
    · rw [heq, hwaited] at hkeys
      rw [heq] at hauth
      refine ⟨w, 0, .refl w, h.place.trans ?_, h.value, h.keys.trans hkeys.symm⟩
      rw [hauth]
      rfl
    · rw [heq, hwaited, hreq] at hkeys
      rw [heq] at hauth
      obtain ⟨w', hmoves, htracks⟩ := h.pass (o := o) status hkeys
      refine ⟨w', w.o.keyIndex, hmoves, ?_⟩
      rw [hauth]
      exact htracks
  fun_induction sendLoop env tag vendor req left pass c generalizing w with
  | case1 _ _ c _ =>
    refine ⟨w, 0, .refl w, h.place.trans ?_, h.value, h.keys⟩
    have hctx : authOf (.error env.ctx.err) = false := by
      simp only [authOf, Ctx.err]
      split <;> rfl
    rw [hctx]
    rfl
  | case2 _ pass c _ c' r heq => exact hpass pass c c' _ w h heq
  | case3 pass c _ c' err heq =>
    have hnot : authOf (.error err) = false :=
      not_auth_of_retry (hplain tag pass) (congrArg Prod.snd heq)
    rw [hnot]
    exact hpass pass c c' _ w h heq
  | case4 pass c _ c' err heq _ ih =>
    obtain ⟨w', _, hmoves, htracks⟩ := hpass pass c c' _ w h heq
    obtain ⟨w'', key, hmoves', htracks'⟩ := ih htracks
    exact ⟨w'', key, hmoves.trans hmoves', htracks'⟩

/-! ## Streams -/

section Stream

variable {env : Env} {o : OpenAI} {i : Nat} {s : StreamCall} {w : KeyWorld}

theorem Event.Aside.requestKey {e : Event} (h : e.Aside) : e.requestKey = none := by
  cases e with
  | request _ _ => cases h
  | _ => rfl

theorem Follows.sent (hplain : env.Plain) (h : Follows o i .stream w s.o s.call) (attempt : Nat) :
    ∃ w' key, Moves o i w w' ∧
      Tracks i .stream s.o (sendWithRetry env attempt s.o s.call).1
        (if authOf (sendWithRetry env attempt s.o s.call).2 then .refused key else .idle) w' := by
  obtain ⟨w', hmoves, htracks⟩ := h
  obtain ⟨w'', key, hmoves', hsent⟩ := sendLoop_tracks (o := o) hplain attempt s.o.vendor
    s.o.httpRequest rfl maxRetries 0 s.call htracks
  exact ⟨w'', key, hmoves.trans hmoves', hsent⟩

theorem follows_rule (hplain : env.Plain) (o : OpenAI) (i : Nat) (w : KeyWorld) (n : Nat) :
    CallRule env n (fun _ s => Follows o i .stream w s.o s.call)
      (fun s => Follows o i .stream w s.o s.call) where
  aside h ho hc := h.same ⟨_, ho⟩ (hc.mono fun _ => Event.Aside.requestKey)
  returned h ho hc := h.same ⟨_, ho⟩ (hc.mono fun _ => Event.Aside.requestKey)
  abort h := h
  record h err := by
    cases err with
    | some err => exact h.same ⟨none, rfl⟩ (.refl _)
    | none => exact h.same ⟨none, rfl⟩ (.log rfl)
  next h := h
  failover h _ _ := h.trans fun _ htracks => htracks.failover _
  failed {k s call err} _ _ h hsend := by
    obtain ⟨w', key, hmoves, hsent⟩ := h.sent hplain k
    rw [hsend] at hsent
    cases hauth : err.asAuthError with
    | false =>
      rw [authOf, hauth] at hsent
      exact ⟨w', hmoves, hsent⟩
    | true =>
      rw [authOf, hauth] at hsent
      obtain ⟨w'', hmoves', h'⟩ := hsent.rotate (o := o)
      exact ⟨w'', hmoves.trans hmoves', h'⟩
  read {k s call body} _ _ h hsend := by
    obtain ⟨w', key, hmoves, hsent⟩ := h.sent hplain k
    rw [hsend] at hsent
    exact Follows.same ⟨w', hmoves, hsent⟩ ⟨_, readStream_note env.ctx k body s.o call⟩
      ((readStream_aside env.ctx k body s.o call).mono fun _ => Event.Aside.requestKey)

/-- **A stream is a run of the machine.**  From any state in which its number is free, the
moves of the one call send the keys `streamWithFailover` sends and leave the value it
leaves, but for the usage. -/
theorem streamWithFailover_keyMoves (hplain : env.Plain)
    (hfree : w.calls i = none) (hunsent : w.keysOf i = [])
    (hvalue : ∃ u, w.o = { v with lastUsage := u }) :
    ∃ w', Moves o i w w' ∧ w'.calls i = none ∧
      (∃ u, w'.o = { (streamWithFailover env v).o with lastUsage := u }) ∧
      w'.keysOf i = (streamWithFailover env v).call.keys :=
  ((follows_rule hplain o i w v.rounds).streamWithFailover
    (fun _ => .start hfree hunsent hvalue rfl)).leave

def unauthorized : Env where
  ctx := .background
  tries _ _ := { outcome := .response 401 [] {} }

theorem streamWithFailover_keyMoves_unauthorized :
    ∃ w', Moves twoKeys 0 (keyMachine twoKeys).init w' ∧
      w'.keysOf 0 = (streamWithFailover unauthorized twoKeys).call.keys := by
  have hplain : unauthorized.Plain := by
    rintro _ _ _ (h | h) <;> cases h
  obtain ⟨w', hmoves, _, _, hkeys⟩ := streamWithFailover_keyMoves (o := twoKeys) (v := twoKeys)
    (i := 0) (w := (keyMachine twoKeys).init) hplain rfl rfl ⟨none, rfl⟩
  exact ⟨w', hmoves, hkeys⟩

end Stream

/-! ## Chats -/

theorem chatDirect_followed (outcome : ChatOutcome) (attempt : Nat) (h : Follows o i .chat w v c) :
    Follows o i .chat w v (chatDirect outcome attempt v c).1 := by
  have hsent : Follows o i .chat w v (c.log (.request attempt v.httpRequest)) :=
    h.trans fun _ htracks => htracks.pass none (c.keys_request attempt v.httpRequest)
  cases outcome with
  | buildError err => exact h
  | failed err => exact hsent
  | ok resp => exact hsent.same ⟨_, rfl⟩ (.log rfl)

/-- **A chat is a run of the machine**, in the same sense; it leaves the current key. -/
theorem chatWithFailover_keyMoves (outcomes : Nat → ChatOutcome) (hfree : w.calls i = none)
    (hunsent : w.keysOf i = []) (hvalue : ∃ u, w.o = { v with lastUsage := u }) :
    ∃ w', Moves o i w w' ∧ w'.calls i = none ∧ w'.o.keyIndex = w.o.keyIndex ∧
      (∃ u, w'.o = { (chatWithFailover outcomes v).1 with lastUsage := u }) ∧
      w'.keysOf i = (chatWithFailover outcomes v).2.1.keys := by
  have hwhole : Follows o i .chat w (chatWithFailover outcomes v).1
      (chatWithFailover outcomes v).2.1 ∧
        (chatWithFailover outcomes v).1.keyIndex = v.keyIndex := by
    refine chatLoop_rule outcomes
      (I := fun v' c => Follows o i .chat w v' c ∧ v'.keyIndex = v.keyIndex) ?_ ?_ _ 0 v
      (.other []) {} ⟨.start hfree hunsent hvalue rfl, rfl⟩
    · rintro v' c _ target ⟨hv, hindex⟩ _ _
      exact ⟨hv.trans fun _ htracks => htracks.failover target, hindex⟩
    · rintro attempt v' c ⟨hv, hindex⟩
      exact ⟨chatDirect_followed (outcomes attempt) attempt hv, hindex⟩
  obtain ⟨hfollows, hindex⟩ := hwhole
  obtain ⟨w', hmoves, hleft, ⟨u, hu⟩, hkeys⟩ := hfollows.leave
  obtain ⟨u', hu'⟩ := hvalue
  exact ⟨w', hmoves, hleft, by rw [hu, hu']; exact hindex, ⟨u, hu⟩, hkeys⟩

theorem chatWithFailover_keyMoves_failed :
    ∃ w', Moves twoKeys 0 (keyMachine twoKeys).init w' ∧
      w'.o.keyIndex = (keyMachine twoKeys).init.o.keyIndex ∧
      w'.keysOf 0 = (chatWithFailover (fun _ => .failed .eof) twoKeys).2.1.keys := by
  obtain ⟨w', hmoves, _, hindex, _, hkeys⟩ := chatWithFailover_keyMoves (o := twoKeys)
    (v := twoKeys) (i := 0) (w := (keyMachine twoKeys).init) (fun _ => .failed .eof) rfl rfl
    ⟨none, rfl⟩
  exact ⟨w', hmoves, hindex, hkeys⟩

/-! ## The keys of a run -/

/-- The key that is current behind `n` rotations. -/
def OpenAI.keyAfter (o : OpenAI) (n : Nat) : Str :=
  o.apiKeys.getD (n % max 1 o.apiKeys.length) o.apiKey

/-- What is sent behind `n` rotations: every send takes the key the rotations in front of it
have come to. -/
def sentKeys (o : OpenAI) : Nat → List (Nat × KeyMove) → List (Nat × Str)
  | _, [] => []
  | n, (i, .send) :: l => (i, o.keyAfter n) :: sentKeys o n l
  | n, (_, .rotate) :: l => sentKeys o (n + 1) l
  | n, _ :: l => sentKeys o n l

/-- The value has the keys of `o`, `n` rotations on. -/
structure AtKey (o : OpenAI) (n : Nat) (v : OpenAI) : Prop where
  keys : v.apiKeys = o.apiKeys
  single : v.apiKey = o.apiKey
  index : v.keyIndex = n % max 1 o.apiKeys.length

section Keys

variable {o v : OpenAI} {n : Nat} {w w' : KeyWorld} {l : List (Nat × KeyMove)}

theorem AtKey.currentKey (h : AtKey o n v) : v.currentKey = o.keyAfter n := by
  rw [OpenAI.currentKey, h.keys, h.single, h.index, OpenAI.keyAfter]

theorem AtKey.rotateKey (h : AtKey o n v) : AtKey o (n + 1) v.rotateKey.1 := by
  obtain ⟨hkeys, hsingle, hindex⟩ := h
  by_cases hone : o.apiKeys.length ≤ 1
  · rw [OpenAI.rotateKey, hkeys, if_pos hone]
    rw [Nat.max_eq_left hone, Nat.mod_one] at hindex
    exact ⟨hkeys, hsingle, by rw [hindex, Nat.max_eq_left hone, Nat.mod_one]⟩
  · rw [OpenAI.rotateKey, if_neg (hkeys ▸ hone)]
    refine ⟨hkeys, hsingle, ?_⟩
    rw [Nat.max_eq_right (by omega)] at hindex ⊢
    rw [hindex, hkeys, Nat.mod_add_mod]

theorem requests_of_atKey (hrun : (keyMachine o).run w l = some w') (h : AtKey o n w.o) :
    w'.requests = w.requests ++ sentKeys o n l := by
  induction l generalizing n w with
  | nil =>
    cases hrun
    rw [sentKeys, List.append_nil]
  | cons e l ih =>
    obtain ⟨w₁, hstep, hrest⟩ := Option.bind_eq_some_iff.mp hrun
    cases keyStep_of_step hstep with
    | send hi =>
      rw [ih hrest ⟨h.keys, h.single, h.index⟩, sentKeys, ← h.currentKey, List.append_assoc]
      rfl
    | rotate hi => exact (ih hrest h.rotateKey :)
    | failover model baseURL hi =>
      have hsame : AtKey o n (w.o.applyFailover model baseURL) := ⟨h.keys, h.single, h.index⟩
      exact (ih hrest hsame :)
    | start | answer | leave => exact (ih hrest h :)

/-- **The keys that are sent.**  However the calls on a value are interleaved, each request
carries the key that the rotations in front of it have come to, one place of the list on
for each and round its end. -/
theorem requests_of_run
    (hrun : (keyMachine o).run (keyMachine o).init l = some w) : w.requests = sentKeys o 0 l :=
  requests_of_atKey hrun ⟨rfl, rfl, (Nat.zero_mod _).symm⟩

theorem requests_of_run_twoKeys :
    ∃ l w, (keyMachine twoKeys).run (keyMachine twoKeys).init l = some w ∧
      sentKeys twoKeys 0 l = [(0, lit "a"), (1, lit "b")] ∧ w.requests = sentKeys twoKeys 0 l :=
  ⟨[(0, .start .stream), (1, .start .chat), (0, .send), (0, .answer (some 401)), (0, .rotate),
    (1, .send)], _, rfl, rfl, requests_of_run rfl⟩

end Keys

end MiniGoAgent

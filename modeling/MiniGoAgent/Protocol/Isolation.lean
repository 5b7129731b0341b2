/-
# `Protocol.Isolation` — requests and the breaker of their vendor

Requests leave by two doors.  `SendWithRetry` asks the breaker of the vendor it
was called with, builds the request from the `OpenAI` value and sends it;
`chatDirect` builds and sends, and neither asks nor reports.

`trafficMachine` interleaves these steps for any number of calls on shared
values, with the breakers' other users: the health checker, the health manager
and the end of a stream.  How often a call goes round its own loops is left
open, and so is the answer of every server.  What `SendWithRetry` reports of an
answer is what `sendOnce` logs.

`Isolated` says of a send that its vendor's breaker is not open, or the timeout
has passed; `isolated_iff` says when all sends of a run are.
-/
import MiniGoAgent.Protocol.Breaker
import MiniGoAgent.Protocol.Failover

open Go

namespace MiniGoAgent

variable {o : OpenAI} {op : BreakerOp}

/-! ## The machine -/

inductive Passage where
  /-- `chatDirect` has built its request -/
  | chat (target : Vendor)
  /-- `SendWithRetry`, in front of the breaker -/
  | retrying (value : Nat) (vendor : Vendor)
  /-- the breaker has said yes, or there is none; `openings` are the moments at
  which it has opened since -/
  | cleared (value : Nat) (vendor : Vendor) (openings : List Int)
  /-- `newReq` has built the request -/
  | built (value : Nat) (vendor : Vendor) (openings : List Int) (target : Vendor)
  /-- the answer is to come -/
  | sent (value : Nat) (vendor : Vendor)
  deriving DecidableEq, Repr

namespace Passage

/-- The vendor of the endpoint a request is built for. -/
def target : Passage → Option Vendor
  | .chat target => some target
  | .built _ _ _ target => some target
  | _ => none

/-- The breaker that has been asked, and when it has opened since. -/
def window : Passage → Option (Vendor × List Int)
  | .cleared _ vendor openings => some (vendor, openings)
  | .built _ vendor openings _ => some (vendor, openings)
  | _ => none

/-- The breaker of `v` opens at `t`. -/
def opening (v : Vendor) (t : Int) : Passage → Passage
  | .cleared value vendor openings =>
    .cleared value vendor (if vendor = v then t :: openings else openings)
  | .built value vendor openings target =>
    .built value vendor (if vendor = v then t :: openings else openings) target
  | p => p

end Passage

def CircuitBreaker.opens (cb : CircuitBreaker) (op : BreakerOp) : Bool :=
  cb.state != .opened && (cb.apply op).state == .opened

structure Traffic where
  values : Nat → OpenAI
  /-- `vendorCircuitBreaker` -/
  breakers : Vendor → Option CircuitBreaker
  /-- the moments at which the breaker of a vendor has opened -/
  openings : Vendor → List Int := fun _ => []
  passages : Nat → Option Passage := fun _ => none
  now : Option Int := none

namespace Traffic

def put (s : Traffic) (id : Nat) (p : Option Passage) : Traffic :=
  { s with passages := Function.update s.passages id p }

def stamp (s : Traffic) (now : Int) : Traffic := { s with now := some now }

/-- An operation on the breaker of a vendor, if it has one. -/
def operate (s : Traffic) (v : Vendor) (op : BreakerOp) : Traffic :=
  match s.breakers v with
  | none => s.stamp op.now
  | some cb =>
    { s with
      breakers := Function.update s.breakers v (some (cb.apply op))
      openings := Function.update s.openings v
        (if cb.opens op then op.now :: s.openings v else s.openings v)
      passages := fun i => (s.passages i).map (fun p =>
        if cb.opens op then p.opening v op.now else p)
      now := some op.now }

/-- What the breaker of a vendor answers to `Check(nil)`. -/
def answers (s : Traffic) (v : Vendor) (now : Int) : Bool :=
  match s.breakers v with
  | none => true
  | some cb => (cb.check now none).2

/-- The breaker is open and its timeout has not passed. -/
def blocked (s : Traffic) (v : Vendor) (now : Int) : Bool :=
  match s.breakers v with
  | none => false
  | some cb => cb.state == .opened && decide (now - cb.lastFailure < cb.options.timeout)

end Traffic

inductive TrafficEvent where
  /-- `chatDirect` on a value builds its request -/
  | chat (id value : Nat)
  /-- `streamWithFailover` on a value calls `SendWithRetry` -/
  | retry (id value : Nat)
  /-- `Check(nil)` -/
  | ask (id : Nat) (now : Int)
  /-- `newReq` -/
  | build (id : Nat)
  /-- `client.Do` -/
  | send (id : Nat) (now : Int)
  /-- the answer to a request of `SendWithRetry`, and its report -/
  | answer (id : Nat) (now : Int) (outcome : HttpOutcome)
  /-- no request can be built, or the context is done -/
  | leave (id : Nat)
  /-- `recordSuccess`, `recordFailure` and `GetStatus`, or the end of a stream -/
  | operate (vendor : Vendor) (op : BreakerOp)
  /-- a call on the value fails over behind an error -/
  | failover (value : Nat) (err : Err)

def TrafficEvent.now : TrafficEvent → Option Int
  | .ask _ now | .send _ now | .answer _ now _ => some now
  | .operate _ op => some op.now
  | _ => none

/-- The operation on a breaker an event of a call stands for. -/
def Event.breakerOp (now : Int) : Event → Option (Vendor × BreakerOp)
  | .breakerFailure v err => some (v, .check now (some err))
  | .breakerSuccess v => some (v, .success now)
  | _ => none

namespace Traffic

/-- The pass of `SendWithRetry` that a request of `vendor` belongs to. -/
def pass (s : Traffic) (value : Nat) (vendor : Vendor) (outcome : HttpOutcome) : Call × Pass :=
  sendOnce { ctx := .background, tries := fun _ _ => { outcome }, registered := fun v =>
    (s.breakers v).isSome } 0 vendor (s.values value).httpRequest { outcome } {}

def step (s : Traffic) : TrafficEvent → Option Traffic
  | .chat id value =>
    match s.passages id with
    | none => some (s.put id (some (.chat (s.values value).vendor)))
    | some _ => none
  | .retry id value =>
    match s.passages id with
    | none => some (s.put id (some (.retrying value (s.values value).vendor)))
    | some _ => none
  | .ask id now =>
    match s.passages id with
    | some (.retrying value vendor) =>
      some ((s.operate vendor (.check now none)).put id
        (if s.answers vendor now then some (.cleared value vendor []) else none))
    | _ => none
  | .build id =>
    match s.passages id with
    | some (.cleared value vendor openings) =>
      some (s.put id (some (.built value vendor openings (s.values value).vendor)))
    | _ => none
  | .send id now =>
    match s.passages id with
    | some (.chat _) => some ((s.put id none).stamp now)
    | some (.built value vendor _ _) => some ((s.put id (some (.sent value vendor))).stamp now)
    | _ => none
  | .answer id now outcome =>
    match s.passages id with
    | some (.sent value vendor) =>
      let reported := ((s.pass value vendor outcome).1.trace.filterMap
        (Event.breakerOp now)).foldl (fun s report => s.operate report.1 report.2) (s.stamp now)
      some (reported.put id
        (match (s.pass value vendor outcome).2 with
        | .retry _ => some (.retrying value vendor)
        | .done _ => none))
    | _ => none
  | .leave id => some (s.put id none)
  | .operate v op => some (s.operate v op)
  | .failover value err =>
    let o := s.values value
    if o.failover.shouldFailover o.model o.vendor.string (some err) = false then none
    else (o.failover.getFailoverModel o.model o.vendor.string).map (fun target =>
      { s with values := Function.update s.values value (o.applyFailover target.1 target.2) })

end Traffic

/-- Calls on `values` and everything else that touches the breakers, in the order
of the clock. -/
def trafficMachine (opts : Vendor → Option BreakerOptions) (values : Nat → OpenAI) :
    Machine Traffic TrafficEvent where
  init := { values, breakers := fun v => (opts v).map newCircuitBreaker }
  step s e := if ∀ t ∈ s.now, ∀ now ∈ e.now, t ≤ now then s.step e else none

/-! ## Isolation, and when it holds -/

/-- A request goes out only if its vendor's breaker is not open, or the timeout
has passed. -/
def Isolated (s : Traffic) : TrafficEvent → Prop
  | .send id now => ∀ p ∈ s.passages id, ∀ v ∈ p.target, s.blocked v now = false
  | _ => True

/-- Every opening in `openings` of the breaker of `v` lies the timeout back. -/
def Traffic.Past (s : Traffic) (v : Vendor) (openings : List Int) (now : Int) : Prop :=
  ∀ cb ∈ s.breakers v, ∀ t ∈ openings, cb.options.timeout ≤ now - t

/-- For a request of `chatDirect`, or of a value that has changed its vendor behind
the question, every opening of the vendor's breaker so far lies the timeout
back; for every other request, every opening behind the question. -/
def Passage.Waited (s : Traffic) (now : Int) : Passage → Prop
  | .chat target => s.Past target (s.openings target) now
  | .built _ vendor openings target =>
    s.Past target (if target = vendor then openings else s.openings target) now
  | _ => True

def Waited (s : Traffic) : TrafficEvent → Prop
  | .send id now => ∀ p ∈ s.passages id, p.Waited s now
  | _ => True

/-! ## The calls as runs -/

def TrafficEvent.isSend : TrafficEvent → Bool
  | .send _ _ => true
  | _ => false

/-- The machine is where a call of `chatWithFailover` on the value `k` goes on
with `o`, under the number `id`. -/
structure ChatAt (k id : Nat) (now : Int) (o : OpenAI) (s : Traffic) : Prop where
  value : s.values k = o
  free : s.passages id = none
  clock : ∀ t ∈ s.now, t ≤ now

/-- A run from `s` that sends what the call logs between `c` and `c'`, behind which
the call goes on with `o`; it does not touch a breaker. -/
def ChatRuns (M : Machine Traffic TrafficEvent) (k id : Nat) (now : Int) (s : Traffic)
    (c c' : Call) (o : OpenAI) : Prop :=
  ∃ events s', M.run s events = some s' ∧ s'.breakers = s.breakers ∧
    c'.requests.length = c.requests.length + events.countP TrafficEvent.isSend ∧
    ChatAt k id now o s'

section Chat

variable {opts : Vendor → Option BreakerOptions} {values : Nat → OpenAI} {k id : Nat} {now : Int}

theorem ChatRuns.nil {s : Traffic} (h : ChatAt k id now o s) (c : Call) :
    ChatRuns (trafficMachine opts values) k id now s c c o := ⟨[], s, rfl, rfl, rfl, h⟩

theorem ChatRuns.trans {o o' : OpenAI} {s : Traffic} {c c' c'' : Call}
    (h : ChatRuns (trafficMachine opts values) k id now s c c' o)
    (hnext : ∀ s', ChatAt k id now o s' →
      ChatRuns (trafficMachine opts values) k id now s' c' c'' o') :
    ChatRuns (trafficMachine opts values) k id now s c c'' o' := by
  obtain ⟨events, t, hrun, hbreakers, hcount, ht⟩ := h
  obtain ⟨events', t', hrun', hbreakers', hcount', ht'⟩ := hnext t ht
  refine ⟨events ++ events', t', ?_, hbreakers'.trans hbreakers, ?_, ht'⟩
  · rw [Machine.run_append, hrun, Option.bind_some, hrun']
  · rw [List.countP_append, hcount', hcount, Nat.add_assoc]

theorem chatRuns_failover {s : Traffic} (h : ChatAt k id now o s) {lastErr : Err}
    {target : Str × Str}
    (hshould : o.failover.shouldFailover o.model o.vendor.string (some lastErr) ≠ false)
    (hget : o.failover.getFailoverModel o.model o.vendor.string = some target) (c : Call) :
    ChatRuns (trafficMachine opts values) k id now s c c
      (o.applyFailover target.1 target.2) := by
  obtain ⟨rfl, hfree, hclock⟩ := h
  have hstep : (trafficMachine opts values).step s (.failover k lastErr) = some { s with
      values := Function.update s.values k ((s.values k).applyFailover target.1 target.2) } := by
    simp [trafficMachine, TrafficEvent.now, Traffic.step, hshould, hget]
  refine ⟨[.failover k lastErr], _, (Machine.run_cons _ hstep []).trans rfl, rfl, rfl, ?_⟩
  exact ⟨Function.update_self .., hfree, hclock⟩

theorem chatRuns_direct {s : Traffic} (h : ChatAt k id now o s)
    (outcome : ChatOutcome) (attempt : Nat) (c : Call) :
    ChatRuns (trafficMachine opts values) k id now s c (chatDirect outcome attempt o c).1 o := by
  have hsend : ∀ c' : Call, c'.requests.length = c.requests.length + 1 →
      ChatRuns (trafficMachine opts values) k id now s c c' o := by
    intro c' hc'
    obtain ⟨rfl, hfree, hclock⟩ := h
    have hbuild : (trafficMachine opts values).step s (.chat id k) =
        some (s.put id (some (.chat (s.values k).vendor))) := by
      simp [trafficMachine, TrafficEvent.now, Traffic.step, hfree]
    have hout : (trafficMachine opts values).step (s.put id (some (.chat (s.values k).vendor)))
        (.send id now) = some (((s.put id (some (.chat (s.values k).vendor))).put id none).stamp
          now) := by
      simp only [trafficMachine, Traffic.step, Traffic.put, Function.update_self]
      refine if_pos ?_
      intro t ht n hn
      cases hn
      exact hclock t ht
    refine ⟨[.chat id k, .send id now],
      ((s.put id (some (.chat (s.values k).vendor))).put id none).stamp now, ?_, rfl, hc', ?_⟩
    · rw [Machine.run_cons _ hbuild, Machine.run_cons _ hout]
      rfl
    · refine ⟨rfl, Function.update_self .., ?_⟩
      intro t ht
      cases ht
      exact Int.le_refl _
  cases outcome with
  | buildError err => exact .nil h c
  | failed | ok => exact hsend _ (by simp [chatDirect, Call.requests, Call.log])

/-- **A chat is a run of the machine**: it sends what the call logs, leaves the value the
call leaves, and touches no breaker. -/
theorem chatWithFailover_runs (outcomes : Nat → ChatOutcome) {s : Traffic}
    (h : ChatAt k id now o s) :
    ChatRuns (trafficMachine opts values) k id now s {} (chatWithFailover outcomes o).2.1
      (chatWithFailover outcomes o).1 := by
  refine chatLoop_rule outcomes (I := fun o c => ChatRuns (trafficMachine opts values) k id now s
    {} c o) ?_ ?_ _ 0 o (.other []) {} (.nil h {})
  · intro o c lastErr target hruns hshould hget
    exact hruns.trans fun _ hs' => chatRuns_failover hs' hshould hget c
  · intro attempt o c hruns
    exact hruns.trans fun _ hs' => chatRuns_direct hs' (outcomes attempt) attempt c

def backedUp : OpenAI :=
  { vendor := .qwen, failover := fallbackTo (lit "m") (lit "https://api.deepseek.com") }

/-- The first request fails and both that follow the failover, past the breakers of both
vendors. -/
theorem chatWithFailover_runs_failed :
    (chatWithFailover (fun _ => .failed .eof) backedUp).2.1.requests.length = 3 ∧
      ChatRuns (trafficMachine (fun _ => some { timeout := 300 }) (fun _ => backedUp)) 0 0 0
        (trafficMachine (fun _ => some { timeout := 300 }) (fun _ => backedUp)).init {}
        (chatWithFailover (fun _ => .failed .eof) backedUp).2.1
        (chatWithFailover (fun _ => .failed .eof) backedUp).1 :=
  ⟨by decide +kernel, chatWithFailover_runs _ ⟨rfl, rfl, fun _ h => by cases h⟩⟩

end Chat

/-! ## A breaker that is watched -/

theorem options_apply (cb : CircuitBreaker) (op : BreakerOp) :
    (cb.apply op).options = cb.options := by
  cases op with
  | success now =>
    cases hstate : cb.state with
    | closed | opened | halfOpen => simp [CircuitBreaker.apply, CircuitBreaker.success, hstate]
  | check now err =>
    obtain ⟨cb', answer, hcheck, hchecks⟩ := exists_checks cb now err
    rw [CircuitBreaker.apply, hcheck]
    cases hchecks <;> rfl

theorem lastFailure_of_open {cb : CircuitBreaker} (hopen : cb.state = .opened)
    (h : (cb.apply op).state = .opened) : (cb.apply op).lastFailure = cb.lastFailure := by
  cases op with
  | success now => simp [CircuitBreaker.apply, CircuitBreaker.success, hopen]
  | check now err =>
    obtain ⟨cb', answer, hcheck, hchecks⟩ := exists_checks cb now err
    rw [CircuitBreaker.apply, hcheck] at h ⊢
    cases hchecks with
    | passes hnot => exact absurd hopen hnot
    | counts hstate | trips hstate | reopens hstate =>
      cases hopen.symm.trans hstate
    | waits _ _ => rfl
    | probes _ _ => cases h

variable {now : Int}

theorem state_of_yes {cb : CircuitBreaker} (h : (cb.check now none).2 = true) :
    (cb.check now none).1.state ≠ .opened := by
  obtain ⟨cb', answer, hcheck, hchecks⟩ := exists_checks cb now none
  rw [hcheck] at h ⊢
  cases hchecks with
  | passes hnot => exact hnot
  | waits _ _ => cases h
  | probes _ _ => simp

/-- `openings` are the moments the breaker has opened at since it was watched:
each of them is in force until the timeout has passed, and if the breaker is
open now it has opened at one of them. -/
structure Watched (now : Option Int) (cb : CircuitBreaker) (openings : List Int) : Prop where
  since : ∀ t ∈ openings, OpenSince cb.options.timeout t ⟨cb, now⟩
  listed : cb.state = .opened → cb.lastFailure ∈ openings

namespace Watched

variable {now : Option Int} {cb : CircuitBreaker} {openings : List Int}

theorem start (h : cb.state ≠ .opened) : Watched now cb [] :=
  ⟨fun _ ht => absurd ht List.not_mem_nil, fun hopen => absurd hopen h⟩

theorem later (h : Watched now cb openings) {n : Int} (hclock : ∀ t ∈ now, t ≤ n) :
    Watched (some n) cb openings := by
  refine ⟨?_, h.listed⟩
  intro t ht
  rcases h.since t ht with hopen | ⟨m, hm, helapsed⟩
  · exact Or.inl hopen
  · have hle := hclock m hm
    refine Or.inr ⟨n, rfl, ?_⟩
    omega

theorem operate (h : Watched now cb openings) (hclock : ∀ t ∈ now, t ≤ op.now) :
    Watched (some op.now) (cb.apply op)
      (if cb.opens op then op.now :: openings else openings) := by
  have hstep : (breakerMachine cb.options).step ⟨cb, now⟩ op =
      some ⟨cb.apply op, some op.now⟩ := if_pos hclock
  have hold : ∀ t ∈ openings, OpenSince (cb.apply op).options.timeout t
      ⟨cb.apply op, some op.now⟩ := by
    intro t ht
    rw [options_apply]
    exact openSince_step rfl (h.since t ht) hstep
  by_cases hopens : cb.opens op = true
  · rw [if_pos hopens]
    rw [CircuitBreaker.opens, Bool.and_eq_true, bne_iff_ne, beq_iff_eq] at hopens
    have hlast := lastFailure_of_opens hopens.1 hopens.2
    constructor
    · exact List.forall_mem_cons.mpr ⟨Or.inl ⟨hopens.2, Int.le_of_eq hlast.symm⟩, hold⟩
    · intro _
      rw [hlast]
      exact List.mem_cons_self
  · rw [if_neg hopens]
    refine ⟨hold, ?_⟩
    intro hopen
    have hbefore : cb.state = .opened := by
      rw [CircuitBreaker.opens, Bool.and_eq_true, bne_iff_ne, beq_iff_eq] at hopens
      by_contra hnot
      exact hopens ⟨hnot, hopen⟩
    rw [lastFailure_of_open hbefore hopen]
    exact h.listed hbefore

theorem blocked_iff (h : Watched now cb openings) {n : Int} (hclock : ∀ t ∈ now, t ≤ n) :
    (cb.state = .opened ∧ n - cb.lastFailure < cb.options.timeout) ↔
      ∃ t ∈ openings, n - t < cb.options.timeout := by
  constructor
  · rintro ⟨hopen, hrecent⟩
    exact ⟨cb.lastFailure, h.listed hopen, hrecent⟩
  · rintro ⟨t, ht, hrecent⟩
    rcases h.since t ht with ⟨hopen, hafter⟩ | ⟨m, hm, helapsed⟩
    · have hafter' : t ≤ cb.lastFailure := hafter
      exact ⟨hopen, by omega⟩
    · have hle := hclock m hm
      omega

end Watched

/-! ## Windows -/

/-- All breakers are watched from the start, and between the question and the send
the one that was asked is watched since then. -/
structure Windows (s : Traffic) : Prop where
  always : ∀ v cb, s.breakers v = some cb → Watched s.now cb (s.openings v)
  asked : ∀ id p vendor openings cb, s.passages id = some p →
    p.window = some (vendor, openings) → s.breakers vendor = some cb → Watched s.now cb openings

theorem windows_stamp {s : Traffic} (h : Windows s) (hclock : ∀ t ∈ s.now, t ≤ now) :
    Windows (s.stamp now) := by
  constructor
  · intro v cb hcb
    exact (h.always v cb hcb).later hclock
  · intro id p vendor openings cb hp hwindow hcb
    exact (h.asked id p vendor openings cb hp hwindow hcb).later hclock

theorem windows_put {s : Traffic} (h : Windows s) (id : Nat) {q : Option Passage}
    (hq : ∀ p ∈ q, ∀ vendor openings cb, p.window = some (vendor, openings) →
      s.breakers vendor = some cb → Watched s.now cb openings) : Windows (s.put id q) := by
  refine ⟨h.always, ?_⟩
  intro id' p vendor openings cb hp hwindow hcb
  rcases update_eq_some hp with ⟨_, hp⟩ | ⟨_, hp⟩
  · exact hq p hp vendor openings cb hwindow hcb
  · exact h.asked id' p vendor openings cb hp hwindow hcb

theorem window_opening {v : Vendor} {t : Int} {p : Passage} {vendor : Vendor}
    {openings : List Int} (h : (p.opening v t).window = some (vendor, openings)) :
    ∃ before, p.window = some (vendor, before) ∧
      openings = if vendor = v then t :: before else before := by
  cases p with
  | cleared _ _ before | built _ _ before =>
    obtain ⟨rfl, rfl⟩ := Prod.mk.inj (Option.some.inj h)
    exact ⟨before, rfl, rfl⟩
  | chat | retrying | sent => cases h

theorem watched_operate {s : Traffic} {v vendor : Vendor} {cb cb' : CircuitBreaker}
    {before : List Int} (hclock : ∀ t ∈ s.now, t ≤ op.now) (hv : s.breakers v = some cb)
    (hcb' : Function.update s.breakers v (some (cb.apply op)) vendor = some cb')
    (h : ∀ cb₀, s.breakers vendor = some cb₀ → Watched s.now cb₀ before) :
    Watched (some op.now) cb'
      (if vendor = v ∧ cb.opens op = true then op.now :: before else before) := by
  by_cases hsame : vendor = v
  · subst hsame
    rw [Function.update_self] at hcb'
    cases hcb'
    simpa using (h cb hv).operate hclock
  · rw [Function.update_of_ne hsame] at hcb'
    rw [if_neg (fun hand => hsame hand.1)]
    exact (h cb' hcb').later hclock

theorem windows_operate {s : Traffic} (h : Windows s) (v : Vendor)
    (hclock : ∀ t ∈ s.now, t ≤ op.now) : Windows (s.operate v op) := by
  unfold Traffic.operate
  cases hv : s.breakers v with
  | none => exact windows_stamp h hclock
  | some cb =>
    constructor
    · intro vendor cb' hcb'
      have hwatched := watched_operate hclock hv hcb' (h.always vendor)
      by_cases hsame : vendor = v
      · subst hsame
        simpa using hwatched
      · simpa [Function.update_of_ne hsame, hsame] using hwatched
    · intro id p vendor openings cb' hp hwindow hcb'
      obtain ⟨p₀, hp₀, rfl⟩ := Option.map_eq_some_iff.mp hp
      obtain ⟨before, hbefore, rfl⟩ : ∃ before, p₀.window = some (vendor, before) ∧
          openings = if vendor = v ∧ cb.opens op = true then op.now :: before else before := by
        by_cases hopens : cb.opens op = true
        · rw [if_pos hopens] at hwindow
          obtain ⟨before, hbefore, hopenings⟩ := window_opening hwindow
          exact ⟨before, hbefore, by simp [hopenings, hopens]⟩
        · rw [if_neg hopens] at hwindow
          exact ⟨openings, hwindow, by simp [hopens]⟩
      exact watched_operate hclock hv hcb'
        (fun cb₀ hcb₀ => h.asked id p₀ vendor before cb₀ hp₀ hbefore hcb₀)

theorem now_operate (s : Traffic) (v : Vendor) (op : BreakerOp) :
    (s.operate v op).now = some op.now := by
  unfold Traffic.operate
  cases s.breakers v <;> rfl

theorem now_of_breakerOp {e : Event} {report : Vendor × BreakerOp}
    (h : e.breakerOp now = some report) : report.2.now = now := by
  cases e with
  | breakerFailure | breakerSuccess =>
    cases h
    rfl
  | request | chunk | telemetry | onErrorHooks => cases h

theorem windows_reports (reports : List (Vendor × BreakerOp))
    (hnow : ∀ report ∈ reports, report.2.now = now) {s : Traffic} (h : Windows s)
    (hs : s.now = some now) :
    Windows (reports.foldl (fun s report => s.operate report.1 report.2) s) := by
  induction reports generalizing s with
  | nil => exact h
  | cons report rest ih =>
    have hhere := hnow report List.mem_cons_self
    rw [List.foldl_cons]
    refine ih (fun r hr => hnow r (List.mem_cons_of_mem _ hr)) ?_ ?_
    · refine windows_operate h report.1 ?_
      intro t ht
      rw [hs] at ht
      cases ht
      exact Int.le_of_eq hhere.symm
    · rw [now_operate, hhere]

theorem windows_put_outside {s : Traffic} (h : Windows s) (id : Nat) {q : Option Passage}
    (hq : ∀ p ∈ q, p.window = none) : Windows (s.put id q) := by
  refine windows_put h id ?_
  intro p hp vendor openings cb hwindow _
  rw [hq p hp] at hwindow
  cases hwindow

theorem windows_ask {s : Traffic} (h : Windows s) (id value : Nat) (vendor : Vendor)
    (hclock : ∀ t ∈ s.now, t ≤ now) :
    Windows ((s.operate vendor (.check now none)).put id
      (if s.answers vendor now then some (.cleared value vendor []) else none)) := by
  have hasked : Windows (s.operate vendor (.check now none)) := windows_operate h vendor hclock
  refine windows_put hasked id ?_
  intro p hp v openings cb' hwindow hcb'
  by_cases hyes : s.answers vendor now = true
  · rw [if_pos hyes] at hp
    cases hp
    obtain ⟨rfl, rfl⟩ := Prod.mk.inj (Option.some.inj hwindow)
    refine Watched.start ?_
    cases hv : s.breakers vendor with
    | none =>
      rw [Traffic.operate, hv] at hcb'
      cases hv.symm.trans hcb'
    | some cb =>
      rw [Traffic.answers, hv] at hyes
      rw [Traffic.operate, hv] at hcb'
      have hget : Function.update s.breakers vendor (some (cb.apply (.check now none))) vendor =
          some cb' := hcb'
      rw [Function.update_self] at hget
      cases hget
      exact state_of_yes hyes
  · rw [if_neg hyes] at hp
    cases hp

theorem windows_step {opts : Vendor → Option BreakerOptions} {values : Nat → OpenAI}
    {s s' : Traffic} {e : TrafficEvent} (h : Windows s)
    (hstep : (trafficMachine opts values).step s e = some s') : Windows s' := by
  obtain ⟨hclock, hstep⟩ : (∀ t ∈ s.now, ∀ now ∈ e.now, t ≤ now) ∧ s.step e = some s' := by
    simpa only [trafficMachine, Option.ite_none_right_eq_some] using hstep
  revert hclock hstep
  fun_cases Traffic.step s e
  all_goals intro hclock hstep; try cases hstep
  case case1 | case3 => exact windows_put_outside h _ (by simp [Passage.window])
  case case5 now value vendor _ =>
    exact windows_ask h _ value vendor (fun t ht => hclock t ht now rfl)
  case case7 id value vendor openings hp =>
    refine windows_put h id ?_
    intro p hp' v openings' cb hwindow hcb
    cases hp'
    exact h.asked id _ v openings' cb hp hwindow hcb
  case case9 now _ _ | case10 now _ _ _ _ _ =>
    exact windows_stamp (windows_put_outside h _ (by simp [Passage.window]))
      (fun t ht => hclock t ht now rfl)
  case case12 id now outcome value vendor hp reported =>
    refine windows_put_outside (@windows_reports now _ ?_ _
      (windows_stamp h (fun t ht => hclock t ht now rfl)) rfl) id ?_
    · intro report hreport
      obtain ⟨e, _, he⟩ := List.mem_filterMap.mp hreport
      exact now_of_breakerOp he
    · intro p hp'
      cases hpass : (s.pass value vendor outcome).2 with
      | retry err =>
        rw [hpass] at hp'
        cases hp'
        rfl
      | done r =>
        rw [hpass] at hp'
        cases hp'
  case case14 => exact windows_put_outside h _ (by simp)
  case case15 v op => exact windows_operate h v (fun t ht => hclock t ht op.now rfl)
  case case17 =>
    obtain ⟨target, _, rfl⟩ := Option.map_eq_some_iff.mp hstep
    exact ⟨h.always, h.asked⟩

/-! ## The sends -/

theorem blocked_eq_false_iff {s : Traffic} {v : Vendor} {openings : List Int}
    (hclock : ∀ t ∈ s.now, t ≤ now) (h : ∀ cb, s.breakers v = some cb → Watched s.now cb openings) :
    s.blocked v now = false ↔ s.Past v openings now := by
  unfold Traffic.blocked Traffic.Past
  cases hcb : s.breakers v with
  | none => simp
  | some cb =>
    have hwatched := (h cb hcb).blocked_iff hclock
    rw [← not_iff_not] at hwatched
    simpa using hwatched

theorem isolated_iff_waited {s : Traffic} (h : Windows s) {e : TrafficEvent}
    (hclock : ∀ t ∈ s.now, ∀ now ∈ e.now, t ≤ now) : Isolated s e ↔ Waited s e := by
  cases e with
  | send id now =>
    have hnow : ∀ t ∈ s.now, t ≤ now := fun t ht => hclock t ht now rfl
    refine forall_congr' fun p => imp_congr_right fun hp => ?_
    cases p with
    | chat target =>
      have htarget := blocked_eq_false_iff hnow (h.always target)
      simpa [Passage.target, Passage.Waited] using htarget
    | built value vendor openings target =>
      have htarget : s.blocked target now = false ↔
          s.Past target (if target = vendor then openings else s.openings target) now := by
        refine blocked_eq_false_iff hnow ?_
        intro cb hcb
        by_cases hsame : target = vendor
        · rw [if_pos hsame]
          exact h.asked id _ target openings cb hp (by simp [Passage.window, hsame]) hcb
        · rw [if_neg hsame]
          exact h.always target cb hcb
      simpa [Passage.target, Passage.Waited] using htarget
    | retrying | cleared | sent => simp [Passage.target, Passage.Waited]
  | _ => exact Iff.rfl

/-- **Isolation, over all runs.**  No request of the calls goes out while the
breaker of its vendor is open and its timeout has not passed exactly if every
request has `Waited`. -/
theorem isolated_iff (opts : Vendor → Option BreakerOptions) (values : Nat → OpenAI)
    {events : List TrafficEvent}
    (hrun : ((trafficMachine opts values).run (trafficMachine opts values).init events).isSome
      = true) :
    (trafficMachine opts values).Along Isolated (trafficMachine opts values).init events ↔
      (trafficMachine opts values).Along Waited (trafficMachine opts values).init events := by
  refine (trafficMachine opts values).along_congr (J := Windows) ?_ ?_ ?_ hrun
  · intro s e s' h hstep
    exact windows_step h hstep
  · intro s e s' h hstep
    have hclock : (∀ t ∈ s.now, ∀ now ∈ e.now, t ≤ now) ∧ s.step e = some s' := by
      simpa only [trafficMachine, Option.ite_none_right_eq_some] using hstep
    exact isolated_iff_waited h hclock.1
  · constructor
    · intro v cb hcb
      obtain ⟨o, _, rfl⟩ := Option.map_eq_some_iff.mp hcb
      exact Watched.start (by simp [newCircuitBreaker])
    · intro id p vendor openings cb hp
      cases hp

def breakerFor (v : Vendor) (opts : BreakerOptions) (v' : Vendor) : Option BreakerOptions :=
  if v' = v then some opts else none

/-- A breaker that opens at the first failure. -/
def touchy : Machine Traffic TrafficEvent :=
  trafficMachine (breakerFor .deepSeek { timeout := 300, failureThreshold := 1 })
    (fun _ => { vendor := .deepSeek })

/-- A stream whose request is refused is followed by one that is held back: all
requests are isolated. -/
theorem isolated_iff_stream :
    touchy.Along Isolated touchy.init
      [.retry 0 0, .ask 0 0, .build 0, .send 0 0, .answer 0 1 (.response 503 [] {}), .ask 0 2] := by
  refine (isolated_iff _ _ rfl).mpr ?_
  refine ⟨trivial, ?_⟩
  rintro s₁ ⟨⟩
  refine ⟨trivial, ?_⟩
  rintro s₂ ⟨⟩
  refine ⟨trivial, ?_⟩
  rintro s₃ ⟨⟩
  refine ⟨?_, ?_⟩
  · rintro p ⟨⟩
    intro cb _ t ht
    cases ht
  · rintro s₄ ⟨⟩
    refine ⟨trivial, ?_⟩
    rintro s₅ ⟨⟩
    refine ⟨trivial, ?_⟩
    rintro s₆ ⟨⟩
    exact trivial

/-- A refused stream has opened the breaker, and `Chat` sends all the same. -/
theorem chat_passes_open_breaker :
    ∃ s, touchy.run touchy.init
        [.retry 0 0, .ask 0 0, .build 0, .send 0 0, .answer 0 1 (.response 503 [] {}),
          .chat 1 0] = some s ∧
      (touchy.step s (.send 1 2)).isSome = true ∧
      ¬ Isolated s (.send 1 2) := by
  refine ⟨_, rfl, rfl, ?_⟩
  intro h
  exact absurd (h (.chat .deepSeek) rfl .deepSeek rfl) (by decide)

end MiniGoAgent

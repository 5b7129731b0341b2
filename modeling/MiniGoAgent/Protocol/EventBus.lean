/-
# `Protocol.EventBus` — the bus between the calls and their processors (`stream.go`)

Any number of goroutines call `Publish`, `TryPublish`, `Subscribe` and `Stop`
on one bus, which runs a loop of its own and one for every subscriber.  `busMachine`
takes their steps one at a time in any order: `BusPc` says where a call is,
`RunPc` where the loop `run` is.  A step is what the others cannot see the inside
of — taking or leaving the lock, reading or setting `stopped`, one operation on
a channel.  What a call does to the map of subscribers it does with the lock in
its hands, and is one step.

A send on a closed channel and a second `close` panic: `panicked`.  Ghosts are
`accepted`, the chunks that got into `publisher`, in order, and `settled`, those
of them that `run` is done with.

Process may itself call the bus; such calls are among the others.
-/
import MiniGoAgent.Go.Machine
import MiniGoAgent.Go.Sync
import MiniGoAgent.Protocol.Types

open Go

namespace MiniGoAgent

/-! ## The bus -/

/-- Who can hold the lock: a call, or the loop `run`. -/
inductive Party where
  | call (t : Nat)
  | run
  deriving DecidableEq, Repr

inductive Once where
  | idle
  | running (t : Nat)
  | done
  deriving DecidableEq, Repr

/-- Channels of subscribers are known by a number. -/
structure EventBus where
  publisher : Chan Chunk := {}
  subs : List (Str × Nat) := []
  mu : RWMutex Party := {}
  wg : Nat := 1
  stopOnce : Once := .idle
  stopped : Bool := false
  runDone : Bool := false

inductive BusPc where
  /-- `Publish`, or `TryPublish`, whose context is never done; at `mu.RLock()` -/
  | publish (chunk : Chunk) (ctxDone : Bool)
  /-- at `stopped.Load()` -/
  | checking (chunk : Chunk) (ctxDone : Bool)
  /-- at the `select` -/
  | sending (chunk : Chunk) (ctxDone : Bool)
  /-- at `mu.RUnlock()` -/
  | leaving
  /-- `Subscribe`, at `mu.Lock()` -/
  | subscribe (name : Str)
  | subscribing (name : Str)
  /-- at `mu.Unlock()` -/
  | subscribed
  /-- `Stop`, at `stopOnce.Do` -/
  | stop
  /-- in the function of `stopOnce`, at `mu.Lock()` -/
  | onceLock
  | onceStore
  | onceClose
  | onceUnlock
  /-- at its end -/
  | onceExit
  /-- at `<-runDone` -/
  | waitRun
  /-- at `mu.Lock()` -/
  | closeLock
  /-- in the loop over the subscribers -/
  | closing
  /-- at `wg.Wait()` -/
  | waiting
  deriving DecidableEq, Repr

/-- Where the loop `run` is. -/
inductive RunPc where
  | receive
  /-- with a chunk, at `mu.RLock()` -/
  | holding (chunk : Chunk)
  /-- with the channels that the chunk has not been sent to -/
  | broadcasting (chunk : Chunk) (ids : List Nat)
  /-- at `close(runDone)` -/
  | closeDone
  /-- at `wg.Done()` -/
  | finishing
  | exited
  deriving DecidableEq, Repr

/-- A subscriber's channel and the loop `dispatch` that reads it. -/
structure Subscription where
  ch : Chan Chunk := {}
  /-- what the processor has been given -/
  handled : List Chunk := []
  exited : Bool := false
  deriving DecidableEq, Repr

structure BusState extends EventBus where
  bufferSize : Nat
  pcs : Nat → Option BusPc := fun _ => none
  run : RunPc := .receive
  channels : Nat → Option Subscription := fun _ => none
  fresh : Nat := 0
  accepted : List Chunk := []
  settled : List Chunk := []
  panicked : Bool := false

inductive BusCall where
  | publish (chunk : Chunk) (ctxDone : Bool)
  | tryPublish (chunk : Chunk)
  | subscribe (name : Str)
  | stop
  deriving DecidableEq, Repr

def BusCall.start : BusCall → BusPc
  | .publish chunk ctxDone => .publish chunk ctxDone
  | .tryPublish chunk => .publish chunk false
  | .subscribe name => .subscribe name
  | .stop => .stop

inductive BusEvent where
  | call (t : Nat) (c : BusCall)
  | rlock (t : Nat)
  | check (t : Nat)
  | send (t : Nat)
  | drop (t : Nat)
  | runlock (t : Nat)
  | lock (t : Nat)
  | insert (t : Nat)
  | unlock (t : Nat)
  | enterOnce (t : Nat)
  | store (t : Nat)
  | closePublisher (t : Nat)
  | exitOnce (t : Nat)
  | passRun (t : Nat)
  | closeSub (t : Nat) (entry : Str × Nat)
  | passWait (t : Nat)
  | runReceive
  | runRLock
  | runSend (id : Nat)
  | runRUnlock
  | runClose
  | runExit
  | handle (id : Nat)
  | exitLoop (id : Nat)
  deriving DecidableEq, Repr

namespace BusState

def goto (s : BusState) (t : Nat) (pc : Option BusPc) : BusState :=
  { s with pcs := Function.update s.pcs t pc }

def panics (s : BusState) : BusState := { s with panicked := true }

/-- The send of the `select` can go ahead: into the buffer, or straight to `run`. -/
def ready (s : BusState) : Bool :=
  s.publisher.closed || s.publisher.buf.length < s.bufferSize ||
    (s.run = .receive && s.publisher.buf.isEmpty)

/-- What a call does next when it gets the lock. -/
def locked : BusPc → Option BusPc
  | .subscribe name => some (.subscribing name)
  | .onceLock => some .onceStore
  | .closeLock => some .closing
  | _ => none

/-- What a call does next when it gives the lock back; the outer `none` is a call
that is not about to. -/
def unlocked (subs : List (Str × Nat)) : BusPc → Option (Option BusPc)
  | .subscribed => some none
  | .onceUnlock => some (some .onceExit)
  | .closing => if subs.isEmpty then some (some .waiting) else none
  | _ => none

/-- The body of `Subscribe`. -/
def subscribe (s : BusState) (name : Str) : BusState :=
  if (s.subs.lookup name).isSome then s
  else
    { s with
      subs := s.subs ++ [(name, s.fresh)]
      wg := s.wg + 1
      channels := Function.update s.channels s.fresh (some {})
      fresh := s.fresh + 1 }

def subscriberBuffer : Nat := 256

/-- The non-blocking send of `run`. -/
def offer (sub : Subscription) (chunk : Chunk) : Subscription :=
  if sub.ch.buf.length < subscriberBuffer then { sub with ch := sub.ch.push chunk } else sub

def step (s : BusState) (e : BusEvent) : Option BusState :=
  if s.panicked then none
  else
    match e with
    | .call t c => if (s.pcs t).isNone then some (s.goto t (some c.start)) else none
    | .rlock t =>
      match s.pcs t with
      | some (.publish chunk ctxDone) =>
        (s.mu.rlock (.call t)).map
          (fun mu => { s with mu := mu }.goto t (some (.checking chunk ctxDone)))
      | _ => none
    | .check t =>
      match s.pcs t with
      | some (.checking chunk ctxDone) =>
        some (s.goto t (some (if s.stopped then .leaving else .sending chunk ctxDone)))
      | _ => none
    | .send t =>
      match s.pcs t with
      | some (.sending chunk _) =>
        if s.ready then
          if s.publisher.closed then some s.panics
          else
            some ({ s with
              publisher := s.publisher.push chunk
              accepted := s.accepted ++ [chunk] }.goto t (some .leaving))
        else none
      | _ => none
    | .drop t =>
      match s.pcs t with
      | some (.sending _ ctxDone) =>
        if ctxDone || !s.ready then some (s.goto t (some .leaving)) else none
      | _ => none
    | .runlock t =>
      match s.pcs t with
      | some .leaving => some ({ s with mu := s.mu.runlock (.call t) }.goto t none)
      | _ => none
    | .lock t =>
      match (s.pcs t).bind locked with
      | some pc => (s.mu.lock (.call t)).map (fun mu => { s with mu := mu }.goto t (some pc))
      | none => none
    | .insert t =>
      match s.pcs t with
      | some (.subscribing name) => some ((s.subscribe name).goto t (some .subscribed))
      | _ => none
    | .unlock t =>
      match (s.pcs t).bind (unlocked s.subs) with
      | some pc => some ({ s with mu := s.mu.unlock }.goto t pc)
      | none => none
    | .enterOnce t =>
      match s.pcs t, s.stopOnce with
      | some .stop, .idle => some ({ s with stopOnce := .running t }.goto t (some .onceLock))
      | some .stop, .done => some (s.goto t (some .waitRun))
      | _, _ => none
    | .store t =>
      match s.pcs t with
      | some .onceStore => some ({ s with stopped := true }.goto t (some .onceClose))
      | _ => none
    | .closePublisher t =>
      match s.pcs t with
      | some .onceClose =>
        if s.publisher.closed then some s.panics
        else some ({ s with publisher := s.publisher.close }.goto t (some .onceUnlock))
      | _ => none
    | .exitOnce t =>
      match s.pcs t with
      | some .onceExit => some ({ s with stopOnce := .done }.goto t (some .waitRun))
      | _ => none
    | .passRun t =>
      match s.pcs t with
      | some .waitRun => if s.runDone then some (s.goto t (some .closeLock)) else none
      | _ => none
    | .closeSub t entry =>
      match s.pcs t, s.channels entry.2 with
      | some .closing, some sub =>
        if entry ∈ s.subs then
          if sub.ch.closed then some s.panics
          else
            some { s with
              subs := s.subs.erase entry
              channels := Function.update s.channels entry.2
                (some { sub with ch := sub.ch.close }) }
        else none
      | _, _ => none
    | .passWait t =>
      match s.pcs t with
      | some .waiting => if s.wg = 0 then some (s.goto t none) else none
      | _ => none
    | .runReceive =>
      match s.run, s.publisher.buf with
      | .receive, chunk :: _ =>
        some { s with publisher := s.publisher.pop, run := .holding chunk }
      | .receive, [] => if s.publisher.closed then some { s with run := .closeDone } else none
      | _, _ => none
    | .runRLock =>
      match s.run with
      | .holding chunk =>
        (s.mu.rlock .run).map
          (fun mu => { s with mu := mu, run := .broadcasting chunk (s.subs.map Prod.snd) })
      | _ => none
    | .runSend id =>
      match s.run, s.channels id with
      | .broadcasting chunk ids, some sub =>
        if id ∈ ids then
          if sub.ch.closed then some s.panics
          else
            some { s with
              run := .broadcasting chunk (ids.erase id)
              channels := Function.update s.channels id (some (offer sub chunk)) }
        else none
      | _, _ => none
    | .runRUnlock =>
      match s.run with
      | .broadcasting chunk [] =>
        some { s with
          mu := s.mu.runlock .run
          run := .receive
          settled := s.settled ++ [chunk] }
      | _ => none
    | .runClose =>
      match s.run with
      | .closeDone =>
        if s.runDone then some s.panics else some { s with runDone := true, run := .finishing }
      | _ => none
    | .runExit =>
      match s.run with
      | .finishing => some { s with wg := s.wg - 1, run := .exited }
      | _ => none
    | .handle id =>
      match s.channels id with
      | some sub =>
        match sub.ch.buf with
        | chunk :: _ =>
          if sub.exited then none
          else
            some { s with
              channels := Function.update s.channels id
                (some { sub with ch := sub.ch.pop, handled := sub.handled ++ [chunk] }) }
        | [] => none
      | none => none
    | .exitLoop id =>
      match s.channels id with
      | some sub =>
        if sub.ch.buf.isEmpty && sub.ch.closed && !sub.exited then
          some { s with
            wg := s.wg - 1
            channels := Function.update s.channels id (some { sub with exited := true }) }
        else none
      | none => none

end BusState

/-- `NewEventBus` with its goroutine, and everything that is then called on it. -/
def busMachine (bufferSize : Nat) : Machine BusState BusEvent where
  init := { bufferSize := bufferSize }
  step := BusState.step

/-! ## What a step can do -/

/-- `step`, one rule a branch. -/
inductive BusStep (s : BusState) : BusEvent → BusState → Prop
  | call {t : Nat} {c : BusCall} (hpc : s.pcs t = none) :
      BusStep s (.call t c) (s.goto t (some c.start))
  | rlock {t : Nat} {chunk : Chunk} {ctxDone : Bool} {mu : RWMutex Party}
      (hpc : s.pcs t = some (.publish chunk ctxDone)) (hmu : s.mu.rlock (.call t) = some mu) :
      BusStep s (.rlock t) ({ s with mu := mu }.goto t (some (.checking chunk ctxDone)))
  | check {t : Nat} {chunk : Chunk} {ctxDone : Bool}
      (hpc : s.pcs t = some (.checking chunk ctxDone)) :
      BusStep s (.check t)
        (s.goto t (some (if s.stopped then .leaving else .sending chunk ctxDone)))
  | sendPanic {t : Nat} {chunk : Chunk} {ctxDone : Bool}
      (hpc : s.pcs t = some (.sending chunk ctxDone)) (hclosed : s.publisher.closed = true) :
      BusStep s (.send t) s.panics
  | send {t : Nat} {chunk : Chunk} {ctxDone : Bool}
      (hpc : s.pcs t = some (.sending chunk ctxDone)) (hclosed : s.publisher.closed = false) :
      BusStep s (.send t)
        ({ s with
          publisher := s.publisher.push chunk
          accepted := s.accepted ++ [chunk] }.goto t (some .leaving))
  | drop {t : Nat} {chunk : Chunk} {ctxDone : Bool}
      (hpc : s.pcs t = some (.sending chunk ctxDone)) :
      BusStep s (.drop t) (s.goto t (some .leaving))
  | runlock {t : Nat} (hpc : s.pcs t = some .leaving) :
      BusStep s (.runlock t) ({ s with mu := s.mu.runlock (.call t) }.goto t none)
  | lock {t : Nat} {pc pc' : BusPc} {mu : RWMutex Party} (hpc : s.pcs t = some pc)
      (hnext : BusState.locked pc = some pc') (hmu : s.mu.lock (.call t) = some mu) :
      BusStep s (.lock t) ({ s with mu := mu }.goto t (some pc'))
  | insert {t : Nat} {name : Str} (hpc : s.pcs t = some (.subscribing name)) :
      BusStep s (.insert t) ((s.subscribe name).goto t (some .subscribed))
  | unlock {t : Nat} {pc : BusPc} {pc' : Option BusPc} (hpc : s.pcs t = some pc)
      (hnext : BusState.unlocked s.subs pc = some pc') :
      BusStep s (.unlock t) ({ s with mu := s.mu.unlock }.goto t pc')
  | enterFirst {t : Nat} (hpc : s.pcs t = some .stop) (honce : s.stopOnce = .idle) :
      BusStep s (.enterOnce t) ({ s with stopOnce := .running t }.goto t (some .onceLock))
  | enterDone {t : Nat} (hpc : s.pcs t = some .stop) (honce : s.stopOnce = .done) :
      BusStep s (.enterOnce t) (s.goto t (some .waitRun))
  | store {t : Nat} (hpc : s.pcs t = some .onceStore) :
      BusStep s (.store t) ({ s with stopped := true }.goto t (some .onceClose))
  | closePublisherPanic {t : Nat} (hpc : s.pcs t = some .onceClose)
      (hclosed : s.publisher.closed = true) : BusStep s (.closePublisher t) s.panics
  | closePublisher {t : Nat} (hpc : s.pcs t = some .onceClose)
      (hclosed : s.publisher.closed = false) :
      BusStep s (.closePublisher t)
        ({ s with publisher := s.publisher.close }.goto t (some .onceUnlock))
  | exitOnce {t : Nat} (hpc : s.pcs t = some .onceExit) :
      BusStep s (.exitOnce t) ({ s with stopOnce := .done }.goto t (some .waitRun))
  | passRun {t : Nat} (hpc : s.pcs t = some .waitRun) (hdone : s.runDone = true) :
      BusStep s (.passRun t) (s.goto t (some .closeLock))
  | closeSubPanic {t : Nat} {entry : Str × Nat} {sub : Subscription}
      (hpc : s.pcs t = some .closing) (hentry : entry ∈ s.subs)
      (hsub : s.channels entry.2 = some sub) (hclosed : sub.ch.closed = true) :
      BusStep s (.closeSub t entry) s.panics
  | closeSub {t : Nat} {entry : Str × Nat} {sub : Subscription}
      (hpc : s.pcs t = some .closing) (hentry : entry ∈ s.subs)
      (hsub : s.channels entry.2 = some sub) (hclosed : sub.ch.closed = false) :
      BusStep s (.closeSub t entry)
        { s with
          subs := s.subs.erase entry
          channels := Function.update s.channels entry.2 (some { sub with ch := sub.ch.close }) }
  | passWait {t : Nat} (hpc : s.pcs t = some .waiting) (hwg : s.wg = 0) :
      BusStep s (.passWait t) (s.goto t none)
  | receive {chunk : Chunk} {rest : List Chunk} (hrun : s.run = .receive)
      (hbuf : s.publisher.buf = chunk :: rest) :
      BusStep s .runReceive { s with publisher := s.publisher.pop, run := .holding chunk }
  | receiveClosed (hrun : s.run = .receive) (hbuf : s.publisher.buf = [])
      (hclosed : s.publisher.closed = true) : BusStep s .runReceive { s with run := .closeDone }
  | runRLock {chunk : Chunk} {mu : RWMutex Party} (hrun : s.run = .holding chunk)
      (hmu : s.mu.rlock .run = some mu) :
      BusStep s .runRLock
        { s with mu := mu, run := .broadcasting chunk (s.subs.map Prod.snd) }
  | runSendPanic {id : Nat} {chunk : Chunk} {ids : List Nat} {sub : Subscription}
      (hrun : s.run = .broadcasting chunk ids) (hid : id ∈ ids) (hsub : s.channels id = some sub)
      (hclosed : sub.ch.closed = true) : BusStep s (.runSend id) s.panics
  | runSend {id : Nat} {chunk : Chunk} {ids : List Nat} {sub : Subscription}
      (hrun : s.run = .broadcasting chunk ids) (hid : id ∈ ids) (hsub : s.channels id = some sub)
      (hclosed : sub.ch.closed = false) :
      BusStep s (.runSend id)
        { s with
          run := .broadcasting chunk (ids.erase id)
          channels := Function.update s.channels id (some (BusState.offer sub chunk)) }
  | runRUnlock {chunk : Chunk} (hrun : s.run = .broadcasting chunk []) :
      BusStep s .runRUnlock
        { s with mu := s.mu.runlock .run, run := .receive, settled := s.settled ++ [chunk] }
  | runClosePanic (hrun : s.run = .closeDone) (hdone : s.runDone = true) :
      BusStep s .runClose s.panics
  | runClose (hrun : s.run = .closeDone) (hdone : s.runDone = false) :
      BusStep s .runClose { s with runDone := true, run := .finishing }
  | runExit (hrun : s.run = .finishing) :
      BusStep s .runExit { s with wg := s.wg - 1, run := .exited }
  | handle {id : Nat} {sub : Subscription} {chunk : Chunk} {rest : List Chunk}
      (hsub : s.channels id = some sub) (hbuf : sub.ch.buf = chunk :: rest) :
      BusStep s (.handle id)
        { s with
          channels := Function.update s.channels id
            (some { sub with ch := sub.ch.pop, handled := sub.handled ++ [chunk] }) }
  | exitLoop {id : Nat} {sub : Subscription} (hsub : s.channels id = some sub)
      (hclosed : sub.ch.closed = true) :
      BusStep s (.exitLoop id)
        { s with
          wg := s.wg - 1
          channels := Function.update s.channels id (some { sub with exited := true }) }

theorem busStep_of_step {s s' : BusState} {e : BusEvent} (h : s.step e = some s') :
    BusStep s e s' := by
  revert h
  fun_cases BusState.step s e
  all_goals intro h; try cases h
  case case2 hpc => exact .call (Option.isNone_iff_eq_none.mp hpc)
  case case4 hpc =>
    obtain ⟨mu, hmu, rfl⟩ := Option.map_eq_some_iff.mp h
    exact .rlock hpc hmu
  case case6 hpc => exact .check hpc
  case case8 hpc _ hclosed => exact .sendPanic hpc hclosed
  case case9 hpc _ hclosed => exact .send hpc (Bool.not_eq_true _ ▸ hclosed)
  case case12 hpc _ => exact .drop hpc
  case case15 hpc => exact .runlock hpc
  case case17 hbind =>
    obtain ⟨pc, hpc, hnext⟩ := Option.bind_eq_some_iff.mp hbind
    obtain ⟨mu, hmu, rfl⟩ := Option.map_eq_some_iff.mp h
    exact .lock hpc hnext hmu
  case case19 hpc => exact .insert hpc
  case case21 hbind =>
    obtain ⟨pc, hpc, hnext⟩ := Option.bind_eq_some_iff.mp hbind
    exact .unlock hpc hnext
  case case23 honce hpc => exact .enterFirst hpc honce
  case case24 honce hpc => exact .enterDone hpc honce
  case case26 hpc => exact .store hpc
  case case28 hpc hclosed => exact .closePublisherPanic hpc hclosed
  case case29 hpc hclosed => exact .closePublisher hpc (Bool.not_eq_true _ ▸ hclosed)
  case case31 hpc => exact .exitOnce hpc
  case case33 hpc hdone => exact .passRun hpc hdone
  case case36 hsub hpc hentry hclosed => exact .closeSubPanic hpc hentry hsub hclosed
  case case37 hsub hpc hentry hclosed =>
    exact .closeSub hpc hentry hsub (Bool.not_eq_true _ ▸ hclosed)
  case case40 hpc hwg => exact .passWait hpc hwg
  case case43 hbuf hrun => exact .receive hrun hbuf
  case case44 hbuf hrun hclosed => exact .receiveClosed hrun hbuf hclosed
  case case47 hrun =>
    obtain ⟨mu, hmu, rfl⟩ := Option.map_eq_some_iff.mp h
    exact .runRLock hrun hmu
  case case49 hsub hrun hid hclosed => exact .runSendPanic hrun hid hsub hclosed
  case case50 hsub hrun hid hclosed =>
    exact .runSend hrun hid hsub (Bool.not_eq_true _ ▸ hclosed)
  case case53 hrun => exact .runRUnlock hrun
  case case55 hrun hdone => exact .runClosePanic hrun hdone
  case case56 hrun hdone => exact .runClose hrun (Bool.not_eq_true _ ▸ hdone)
  case case58 hrun => exact .runExit hrun
  case case61 hsub _ _ hbuf _ => exact .handle hsub hbuf
  case case64 hsub hleft =>
    simp only [Bool.and_eq_true] at hleft
    exact .exitLoop hsub hleft.1.2

end MiniGoAgent

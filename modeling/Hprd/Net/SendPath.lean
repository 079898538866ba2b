import Mathlib.Logic.Function.Basic
import Hprd.Core.Framing
import Hprd.Core.Machine
import Hprd.Common.DataQueueSpec

/-!
# The send path of `net/tcp_server.c`

Any number of threads run `tcp_send_data_safe` or `tcp_send_data_unsafe` on any
number of clients while the network thread runs `_callback_senddata`. A step is
what a thread does between two points where another thread can see the
difference: taking a lock, one `enqueue_data` with the unlock or the
`pthread_cond_wait` that follows it, one `send`, one `pthread_cond_signal`.

The numbers of the calls and the fields `entered`, `sent` and `wire` are
bookkeeping that no step looks at.
-/

namespace Hprd.Net

open Hprd.Core Common

/-! ## State -/

/-- The size of `video_pkt`, the largest packet handed to the send path. -/
def videoPktSize : Nat := 10 * 1024 * 1024

structure SendCall where
  id : Nat
  client : Nat
  buf : Bytes

/-- The two loops of `tcp_send_data_safe`. -/
inductive Part where
  | length
  | payload
  deriving DecidableEq

def SendCall.bytes (k : SendCall) : Part → Bytes
  | .length => be32 (UInt32.ofNat k.buf.length)
  | .payload => k.buf

/-- Where a sending thread is: before the check of the unsafe variant, before the lock, at an
`enqueue_data` with the lock, in `pthread_cond_wait`, or signalled and before the lock again. -/
inductive SendPc where
  | idle
  | check (k : SendCall)
  | lock (k : SendCall)
  | put (k : SendCall) (part : Part)
  | wait (k : SendCall) (part : Part)
  | relock (k : SendCall) (part : Part)

/-- Where the network thread is in `_callback_senddata`. -/
inductive NetPc where
  | idle
  | lock (c : Nat)
  | send (c : Nat)
  | signal (c : Nat) (ret : Int32)

inductive Owner where
  | sender (t : Nat)
  | net
  deriving DecidableEq

/-- A client's `send_queue`, the holder of `send_buf_lock` and the threads inside
`pthread_cond_wait` on `send_buf_cond`. -/
structure SendClient where
  queue : DataQueue
  owner : Option Owner
  waiters : List Nat
  removed : Bool
  entered : List (Nat × UInt8)
  sent : List SendCall
  wire : Bytes

/-- `time` is the `static int` of `_callback_senddata`. -/
structure SendState where
  client : Nat → SendClient
  pc : Nat → SendPc
  net : NetPc
  time : Int32
  calls : Nat

namespace SendState

def setPc (s : SendState) (t : Nat) (p : SendPc) : SendState :=
  { s with pc := Function.update s.pc t p }

def setClient (s : SendState) (c : Nat) (x : SendClient) : SendState :=
  { s with client := Function.update s.client c x }

@[simp] theorem setPc_client (s : SendState) (t : Nat) (p : SendPc) :
    (s.setPc t p).client = s.client := rfl

@[simp] theorem setPc_net (s : SendState) (t : Nat) (p : SendPc) : (s.setPc t p).net = s.net := rfl

@[simp] theorem setPc_time (s : SendState) (t : Nat) (p : SendPc) :
    (s.setPc t p).time = s.time := rfl

@[simp] theorem setPc_pc (s : SendState) (t : Nat) (p : SendPc) :
    (s.setPc t p).pc = Function.update s.pc t p := rfl

@[simp] theorem setClient_client (s : SendState) (c : Nat) (x : SendClient) :
    (s.setClient c x).client = Function.update s.client c x := rfl

@[simp] theorem setClient_pc (s : SendState) (c : Nat) (x : SendClient) :
    (s.setClient c x).pc = s.pc := rfl

@[simp] theorem setClient_net (s : SendState) (c : Nat) (x : SendClient) :
    (s.setClient c x).net = s.net := rfl

@[simp] theorem setClient_time (s : SendState) (c : Nat) (x : SendClient) :
    (s.setClient c x).time = s.time := rfl

end SendState

/-- The bytes of a part, marked with their call. -/
def SendCall.marked (k : SendCall) (part : Part) : List (Nat × UInt8) :=
  (k.bytes part).map fun b => (k.id, b)

theorem bytes_ne_nil {k : SendCall} (h : k.buf ≠ []) (part : Part) : k.bytes part ≠ [] := by
  cases part with
  | length =>
      have h4 : (k.bytes .length).length = 4 := be32_length _
      intro he
      rw [he] at h4
      cases h4
  | payload => exact h

theorem bytes_length_le {k : SendCall} (h : k.buf.length ≤ capacity) (part : Part) :
    (k.bytes part).length ≤ capacity := by
  cases part with
  | length =>
      have h4 : (k.bytes .length).length = 4 := be32_length _
      have hcap := capacity_eq
      omega
  | payload => exact h

/-! ## Steps -/

/-- The test of `tcp_send_data_unsafe`; the `int` is converted to `uint32_t`. -/
def unsafeFails (q : DataQueue) (len : Nat) : Bool :=
  decide (q.queueGetFreeCount.toUInt32 < UInt32.ofNat len + 4)

/-- One `enqueue_data` with the lock held. After the length follows the payload, after the
payload `pthread_mutex_unlock` and `return 0`; a result of -1 returns without the unlock. -/
def putStep (s : SendState) (t : Nat) (k : SendCall) (part : Part) : Option SendState :=
  let x := s.client k.client
  (x.queue.enqueueData (k.bytes part)).map fun (ret, q) =>
    let x := { x with queue := q }
    if ret = 0 then
      (s.setClient k.client { x with owner := none, waiters := x.waiters ++ [t] }).setPc t
        (.wait k part)
    else if ret = -1 then (s.setClient k.client x).setPc t .idle
    else
      let x := { x with entered := x.entered ++ k.marked part }
      match part with
      | .length => (s.setClient k.client x).setPc t (.put k .payload)
      | .payload =>
          (s.setClient k.client { x with owner := none, sent := x.sent ++ [k] }).setPc t .idle

def lockStep (s : SendState) (t : Nat) (k : SendCall) (p : SendPc) : Option SendState :=
  let x := s.client k.client
  if x.owner = none then
    some ((s.setClient k.client { x with owner := some (.sender t) }).setPc t p)
  else none

/-- The next step of thread `t`, if it is inside a call and not waiting. -/
def runStep (s : SendState) (t : Nat) : Option SendState :=
  match s.pc t with
  | .idle => none
  | .check k =>
      if unsafeFails (s.client k.client).queue k.buf.length then some (s.setPc t .idle)
      else some (s.setPc t (.lock k))
  | .lock k => lockStep s t k (.put k .length)
  | .put k part => putStep s t k part
  | .wait _ _ => none
  | .relock k part => lockStep s t k (.put k part)

/-- What `send` does with the bytes it is given. -/
inductive SendResult where
  | fail
  | some (n : Nat)

/-- `send` and what follows up to the unlock. A result of 0 removes the client and leaves its
lock taken. -/
def sendStep (s : SendState) (c : Nat) (r : SendResult) : Option SendState :=
  let x := s.client c
  match r with
  | .fail =>
      some { s.setClient c { x with owner := none } with net := .signal c (-1) }
  | .some n =>
      if (n : Int) ≤ x.queue.queueGetEndDataCount.toInt then
        if n = 0 then some { s.setClient c { x with removed := true } with net := .idle }
        else
          (x.queue.copyOut x.queue.queueGetReadPtr n).map fun bs =>
            let q := (x.queue.queueTailPointForward (UInt64.ofNat n)).2
            { s.setClient c { x with queue := q, owner := none, wire := x.wire ++ bs } with
              net := .signal c (Int32.ofNat n) }
      else none

/-- A parked thread leaves `pthread_cond_wait` for the lock. -/
def wakeStep (s : SendState) (t : Nat) : Option SendState :=
  match s.pc t with
  | .wait k part =>
      let x := s.client k.client
      some ((s.setClient k.client { x with waiters := x.waiters.erase t }).setPc t (.relock k part))
  | _ => none

/-- `if(ret > 0 && time < 10) pthread_cond_signal(..); time++;` -/
def signalStep (s : SendState) (c : Nat) (ret : Int32) (woken : Option Nat) : Option SendState :=
  let s' := { s with time := s.time + 1, net := .idle }
  if 0 < ret ∧ s.time < 10 ∧ (s.client c).waiters ≠ [] then
    match woken with
    | none => none
    | some t => if t ∈ (s.client c).waiters then wakeStep s' t else none
  else if woken = none then some s' else none

/-- A call of the safe or the unsafe function, a step of a thread, a wake-up without a signal,
and the steps of the network thread. -/
inductive SendAction where
  | call (t c : Nat) (buf : Bytes) (safe : Bool)
  | run (t : Nat)
  | wake (t : Nat)
  | drain (c : Nat)
  | netLock
  | netSend (r : SendResult)
  | netSignal (woken : Option Nat)

/-- `_foreach_send` asks for a drain only while the queue has data. -/
def step (s : SendState) : SendAction → Option SendState
  | .call t c buf safe =>
      match s.pc t with
      | .idle =>
          if buf.length < 2 ^ 32 ∧ (s.client c).removed = false then
            let k := ⟨s.calls, c, buf⟩
            some ({ s with calls := s.calls + 1 }.setPc t (if safe then .lock k else .check k))
          else none
      | _ => none
  | .run t => runStep s t
  | .wake t => wakeStep s t
  | .drain c =>
      match s.net with
      | .idle =>
          if 0 < (s.client c).queue.getQueueDataCount ∧ (s.client c).removed = false then
            some { s with net := .lock c }
          else none
      | _ => none
  | .netLock =>
      match s.net with
      | .lock c =>
          if (s.client c).owner = none then
            some { s.setClient c { s.client c with owner := some .net } with net := .send c }
          else none
      | _ => none
  | .netSend r =>
      match s.net with
      | .send c => sendStep s c r
      | _ => none
  | .netSignal woken =>
      match s.net with
      | .signal c ret => signalStep s c ret woken
      | _ => none

/-! ## What a step can do -/

def SendState.acquire (s : SendState) (t : Nat) (k : SendCall) (part : Part) : SendState :=
  (s.setClient k.client { s.client k.client with owner := some (.sender t) }).setPc t (.put k part)

def SendState.park (s : SendState) (t : Nat) (k : SendCall) (part : Part) : SendState :=
  (s.setClient k.client { s.client k.client with
    owner := none, waiters := (s.client k.client).waiters ++ [t] }).setPc t (.wait k part)

def SendState.unpark (s : SendState) (t : Nat) (k : SendCall) (part : Part) : SendState :=
  (s.setClient k.client { s.client k.client with
    waiters := (s.client k.client).waiters.erase t }).setPc t (.relock k part)

def SendState.putLength (s : SendState) (t : Nat) (k : SendCall) (q : DataQueue) : SendState :=
  (s.setClient k.client { s.client k.client with
    queue := q, entered := (s.client k.client).entered ++ k.marked .length }).setPc t
      (.put k .payload)

def SendState.putPayload (s : SendState) (t : Nat) (k : SendCall) (q : DataQueue) : SendState :=
  (s.setClient k.client { s.client k.client with
    queue := q, owner := none, entered := (s.client k.client).entered ++ k.marked .payload,
    sent := (s.client k.client).sent ++ [k] }).setPc t .idle

def SendState.drained (s : SendState) (c n : Nat) (bs : Bytes) : SendState :=
  { s.setClient c { s.client c with
      queue := ((s.client c).queue.queueTailPointForward (UInt64.ofNat n)).2, owner := none,
      wire := (s.client c).wire ++ bs } with net := .signal c (Int32.ofNat n) }

/-- Every step, with what it found and what it left. -/
inductive Stepped (s : SendState) : SendAction → SendState → Prop where
  | call {t c buf safe} : s.pc t = .idle → buf.length < 2 ^ 32 →
      (s.client c).removed = false →
      Stepped s (.call t c buf safe) ({ s with calls := s.calls + 1 }.setPc t
        (if safe then .lock ⟨s.calls, c, buf⟩ else .check ⟨s.calls, c, buf⟩))
  | skip {t k} : s.pc t = .check k → Stepped s (.run t) (s.setPc t .idle)
  | checked {t k} : s.pc t = .check k → Stepped s (.run t) (s.setPc t (.lock k))
  | acquire {t k part} : (s.pc t = .lock k ∧ part = .length) ∨ s.pc t = .relock k part →
      (s.client k.client).owner = none → Stepped s (.run t) (s.acquire t k part)
  | park {t k part} : s.pc t = .put k part →
      (k.bytes part = [] ∨ (k.bytes part).length ≤ capacity ∧
        (s.client k.client).queue.free < (k.bytes part).length) →
      Stepped s (.run t) (s.park t k part)
  | refuse {t k part} : s.pc t = .put k part → capacity < (k.bytes part).length →
      Stepped s (.run t) (s.setPc t .idle)
  | putLength {t k q} : s.pc t = .put k .length →
      (s.client k.client).queue.Enqueued (k.bytes .length) q →
      Stepped s (.run t) (s.putLength t k q)
  | putPayload {t k q} : s.pc t = .put k .payload →
      (s.client k.client).queue.Enqueued k.buf q → Stepped s (.run t) (s.putPayload t k q)
  | wake {t k part} : s.pc t = .wait k part → Stepped s (.wake t) (s.unpark t k part)
  | drain {c} : s.net = .idle → 0 < (s.client c).queue.getQueueDataCount →
      (s.client c).removed = false → Stepped s (.drain c) { s with net := .lock c }
  | netLock {c} : s.net = .lock c → (s.client c).owner = none →
      Stepped s .netLock
        { s.setClient c { s.client c with owner := some .net } with net := .send c }
  | sendFail {c} : s.net = .send c →
      Stepped s (.netSend .fail)
        { s.setClient c { s.client c with owner := none } with net := .signal c (-1) }
  | sendZero {c} : s.net = .send c →
      Stepped s (.netSend (.some 0))
        { s.setClient c { s.client c with removed := true } with net := .idle }
  | sendSome {c : Nat} {n : Nat} {bs : Bytes} : s.net = .send c → 0 < n →
      (n : Int) ≤ (s.client c).queue.queueGetEndDataCount.toInt →
      (s.client c).queue.copyOut (s.client c).queue.queueGetReadPtr n = some bs →
      Stepped s (.netSend (.some n)) (s.drained c n bs)
  | quiet {c ret} : s.net = .signal c ret →
      ¬(0 < ret ∧ s.time < 10 ∧ (s.client c).waiters ≠ []) →
      Stepped s (.netSignal none) { s with time := s.time + 1, net := .idle }
  | signal {c ret t k part} : s.net = .signal c ret → 0 < ret → s.time < 10 →
      t ∈ (s.client c).waiters → s.pc t = .wait k part →
      Stepped s (.netSignal (some t))
        (SendState.unpark { s with time := s.time + 1, net := .idle } t k part)

theorem stepped_put {s s' : SendState} {t : Nat} {k : SendCall} {part : Part}
    (hpc : s.pc t = .put k part) (h : putStep s t k part = some s') : Stepped s (.run t) s' := by
  unfold putStep at h
  obtain ⟨⟨ret, q⟩, he, rfl⟩ := Option.map_eq_some_iff.mp h
  dsimp only
  rcases DataQueue.enqueueData_result he with ⟨rfl, rfl, hr⟩ | ⟨rfl, rfl, hr⟩ | ⟨h₀, h₁, hr⟩
  · exact .park hpc hr
  · have hs : s.setClient k.client (s.client k.client) = s := by
      rw [SendState.setClient, Function.update_eq_self]
    rw [if_neg (by decide), if_pos rfl]
    show Stepped s (.run t) ((s.setClient k.client (s.client k.client)).setPc t .idle)
    rw [hs]
    exact .refuse hpc hr
  · rw [if_neg h₀, if_neg h₁]
    cases part with
    | length => exact .putLength hpc hr
    | payload => exact .putPayload hpc hr

theorem stepped_run {s s' : SendState} {t : Nat} (h : runStep s t = some s') :
    Stepped s (.run t) s' := by
  unfold runStep at h
  cases hpc : s.pc t with
  | idle =>
      rw [hpc] at h
      cases h
  | check k =>
      rw [hpc] at h
      dsimp only at h
      split at h
      · cases h
        exact .skip hpc
      · cases h
        exact .checked hpc
  | lock k =>
      rw [hpc] at h
      dsimp only [lockStep] at h
      split at h
      · next ho =>
          cases h
          exact .acquire (Or.inl ⟨hpc, rfl⟩) ho
      · cases h
  | put k part =>
      rw [hpc] at h
      exact stepped_put hpc h
  | wait k part =>
      rw [hpc] at h
      cases h
  | relock k part =>
      rw [hpc] at h
      dsimp only [lockStep] at h
      split at h
      · next ho =>
          cases h
          exact .acquire (Or.inr hpc) ho
      · cases h

theorem stepped_send {s s' : SendState} {c : Nat} {r : SendResult} (hnet : s.net = .send c)
    (h : sendStep s c r = some s') : Stepped s (.netSend r) s' := by
  cases r with
  | fail =>
      cases h
      exact .sendFail hnet
  | some n =>
      dsimp only [sendStep] at h
      split at h
      · next hn =>
          split at h
          · next hz =>
              cases hz
              cases h
              exact .sendZero hnet
          · next hz =>
              obtain ⟨bs, hbs, rfl⟩ := Option.map_eq_some_iff.mp h
              exact .sendSome hnet (Nat.pos_of_ne_zero hz) hn hbs
      · cases h

theorem stepped_wake {s s' : SendState} {t : Nat} (h : wakeStep s t = some s') :
    ∃ k part, s.pc t = .wait k part ∧ s' = s.unpark t k part := by
  unfold wakeStep at h
  cases hpc : s.pc t with
  | wait k part =>
      rw [hpc] at h
      cases h
      exact ⟨k, part, rfl, rfl⟩
  | idle => simp [hpc] at h
  | check k => simp [hpc] at h
  | lock k => simp [hpc] at h
  | put k part => simp [hpc] at h
  | relock k part => simp [hpc] at h

theorem stepped_signal {s s' : SendState} {c : Nat} {ret : Int32} {woken : Option Nat}
    (hnet : s.net = .signal c ret) (h : signalStep s c ret woken = some s') :
    Stepped s (.netSignal woken) s' := by
  unfold signalStep at h
  dsimp only at h
  split at h
  · next hgo =>
      cases woken with
      | none => cases h
      | some t =>
          dsimp only at h
          split at h
          · next hmem =>
              obtain ⟨k, part, hpc, rfl⟩ := stepped_wake h
              exact .signal hnet hgo.1 hgo.2.1 hmem hpc
          · cases h
  · next hno =>
      split at h
      · next hw =>
          cases hw
          cases h
          exact .quiet hnet hno
      · cases h

/-- The step function does nothing else. -/
theorem stepped {s s' : SendState} {a : SendAction} (h : step s a = some s') : Stepped s a s' := by
  cases a with
  | call t c buf safe =>
      dsimp only [step] at h
      split at h
      · next hpc =>
          split at h
          · next hg =>
              cases h
              exact .call hpc hg.1 hg.2
          · cases h
      · cases h
  | run t => exact stepped_run h
  | wake t =>
      obtain ⟨k, part, hpc, rfl⟩ := stepped_wake h
      exact .wake hpc
  | drain c =>
      dsimp only [step] at h
      split at h
      · next hnet =>
          split at h
          · next hg =>
              cases h
              exact .drain hnet hg.1 hg.2
          · cases h
      · cases h
  | netLock =>
      dsimp only [step] at h
      split at h
      · next hnet =>
          split at h
          · next ho =>
              cases h
              exact .netLock hnet ho
          · cases h
      · cases h
  | netSend r =>
      dsimp only [step] at h
      split at h
      · next hnet => exact stepped_send hnet h
      · cases h
  | netSignal woken =>
      dsimp only [step] at h
      split at h
      · next hnet => exact stepped_signal hnet h
      · cases h

/-- Nothing sent yet, with the counters of every queue at `start`. -/
def SendState.startAt (mem : Nat → UInt8) (start : UInt64) : SendState :=
  ⟨fun _ => ⟨⟨mem, start, start⟩, none, [], false, [], [], []⟩, fun _ => .idle, .idle, 0, 0⟩

/-- The server before its first client: `calloc` leaves empty queues and open locks. -/
def SendState.fresh : SendState := .startAt (fun _ => 0) 0

def sendMachine : Machine SendState SendAction where
  init s := s = .fresh
  step := step

/-! ## Locks and waiters -/

/-- A thread that enqueues has the lock, so has the network thread while it sends, and the
waiters of a client are the threads parked there. -/
structure SendInv (s : SendState) : Prop where
  locked : ∀ t k part, s.pc t = .put k part → (s.client k.client).owner = some (.sender t)
  netLocked : ∀ c, s.net = .send c → (s.client c).owner = some .net
  parked : ∀ c t, t ∈ (s.client c).waiters ↔ ∃ k part, s.pc t = .wait k part ∧ k.client = c
  distinct : ∀ c, (s.client c).waiters.Nodup

theorem sendInv_startAt (mem : Nat → UInt8) (start : UInt64) : SendInv (.startAt mem start) where
  locked := by
    intro t k part h
    cases h
  netLocked := by
    intro c h
    cases h
  parked := by
    intro c t
    constructor
    · intro h
      cases h
    · rintro ⟨k, part, h, -⟩
      cases h
  distinct := fun _ => List.nodup_nil

theorem sendInv_fresh : SendInv .fresh := sendInv_startAt _ _

theorem member_update {β : Type} (f : SendClient → β) {client : Nat → SendClient} {c : Nat}
    {x : SendClient} : f (Function.update client c x c) = f x :=
  congrArg f (Function.update_self ..)

theorem member_update_same {β : Type} (f : SendClient → β) {client : Nat → SendClient} {c : Nat}
    {x : SendClient} (hx : f x = f (client c)) (d : Nat) :
    f (Function.update client c x d) = f (client d) := by
  by_cases hd : d = c
  · rw [hd, Function.update_self, hx]
  · rw [Function.update_of_ne hd]

theorem owner_update {client : Nat → SendClient} {c : Nat} {x : SendClient} {u : Nat} {o : Owner}
    (h : (Function.update client c x u).owner = some o) :
    u = c ∧ x.owner = some o ∨ u ≠ c ∧ (client u).owner = some o := by
  by_cases hu : u = c
  · rw [hu, Function.update_self] at h
    exact .inl ⟨hu, h⟩
  · rw [Function.update_of_ne hu] at h
    exact .inr ⟨hu, h⟩

theorem owner_of_update {client : Nat → SendClient} {c : Nat} {x : SendClient} {u : Nat} {o : Owner}
    (hx : x.owner ≠ some o) (h : (Function.update client c x u).owner = some o) :
    u ≠ c ∧ (client u).owner = some o := (owner_update h).resolve_left fun hu => hx hu.2

/-- The holder of a lock before a write that does not take it from him. -/
theorem owner_update_of_eq {client : Nat → SendClient} {c d : Nat} {x : SendClient} {o : Owner}
    (h : (client d).owner = some o) (hx : d = c → x.owner = some o) :
    (Function.update client c x d).owner = some o := by
  by_cases hd : d = c
  · rw [hd, Function.update_self]
    exact hx hd
  · rw [Function.update_of_ne hd]
    exact h

section

variable {s s' : SendState} {t : Nat} {p : SendPc}

/-- A step of a sending thread `t` to `p` that leaves the other holders and waiters as they are. -/
theorem SendInv.sender_step (h : SendInv s) (hpc : s'.pc = Function.update s.pc t p)
    (hnet : ∀ c, s'.net = .send c → s.net = .send c)
    (hkeeps : ∀ c o, (s.client c).owner = some o → o ≠ .sender t → (s'.client c).owner = some o)
    (hput : ∀ k part, p = .put k part → (s'.client k.client).owner = some (.sender t))
    (hself : ∀ c, t ∈ (s'.client c).waiters ↔ ∃ k part, p = .wait k part ∧ k.client = c)
    (hothers : ∀ c u, u ≠ t → (u ∈ (s'.client c).waiters ↔ u ∈ (s.client c).waiters))
    (hdistinct : ∀ c, (s'.client c).waiters.Nodup) : SendInv s' := by
  constructor
  case locked =>
    intro u k part hu
    by_cases hut : u = t
    · rw [hut, hpc, Function.update_self] at hu
      rw [hut]
      exact hput k part hu
    · rw [hpc, Function.update_of_ne hut] at hu
      exact hkeeps _ _ (h.locked u k part hu) fun he => hut (Owner.sender.inj he)
  case netLocked => exact fun c hc => hkeeps c .net (h.netLocked c (hnet c hc)) nofun
  case parked =>
    intro c u
    by_cases hut : u = t
    · rw [hut, hself, hpc, Function.update_self]
    · rw [hothers c u hut, h.parked, hpc, Function.update_of_ne hut]
  case distinct => exact hdistinct

theorem SendInv.move (h : SendInv s) (hpc : s'.pc = Function.update s.pc t p)
    (hnet : s'.net = s.net) (hfrom : ∀ k part, s.pc t ≠ .wait k part)
    (hto : ∀ k part, p ≠ .wait k part)
    (hwaiters : ∀ c, (s'.client c).waiters = (s.client c).waiters)
    (hkeeps : ∀ c o, (s.client c).owner = some o → o ≠ .sender t → (s'.client c).owner = some o)
    (hput : ∀ k part, p = .put k part → (s'.client k.client).owner = some (.sender t)) :
    SendInv s' := by
  refine h.sender_step hpc (fun c hc => hnet ▸ hc) hkeeps hput ?_ ?_ ?_
  · intro c
    rw [hwaiters, h.parked]
    exact iff_of_false (fun ⟨k, part, hw, _⟩ => hfrom k part hw) fun ⟨k, part, hw, _⟩ => hto k part hw
  · intro c u _
    rw [hwaiters]
  · intro c
    rw [hwaiters]
    exact h.distinct c

theorem SendInv.net_step (h : SendInv s) (hpc : s'.pc = s.pc)
    (hwaiters : ∀ c, (s'.client c).waiters = (s.client c).waiters)
    (hkeeps : ∀ c u, (s.client c).owner = some (.sender u) →
      (s'.client c).owner = some (.sender u))
    (hnet : ∀ c, s'.net = .send c → (s'.client c).owner = some .net) : SendInv s' := by
  constructor
  case locked =>
    intro u k part hu
    rw [hpc] at hu
    exact hkeeps _ _ (h.locked u k part hu)
  case netLocked => exact hnet
  case parked =>
    intro c u
    rw [hwaiters, hpc]
    exact h.parked c u
  case distinct =>
    intro c
    rw [hwaiters]
    exact h.distinct c

theorem SendInv.park (h : SendInv s) {k : SendCall} {part : Part} (hpc : s.pc t = .put k part) :
    SendInv (s.park t k part) := by
  have howner := h.locked t k part hpc
  have hout : ∀ c, t ∉ (s.client c).waiters := by
    intro c ht
    obtain ⟨k', part', hw, -⟩ := (h.parked c t).mp ht
    cases hpc.symm.trans hw
  have hself : ((s.park t k part).client k.client).waiters = (s.client k.client).waiters ++ [t] :=
    member_update SendClient.waiters
  have hother : ∀ c, c ≠ k.client → (s.park t k part).client c = s.client c := fun c hc =>
    Function.update_of_ne hc ..
  refine h.sender_step rfl (fun _ hc => hc) ?_ nofun ?_ ?_ ?_
  · intro c o ho hne
    refine owner_update_of_eq ho ?_
    rintro rfl
    exact absurd (Option.some.inj (ho.symm.trans howner)) hne
  · intro c
    by_cases hc : c = k.client
    · rw [hc, hself]
      exact iff_of_true (List.mem_append_right _ (List.mem_singleton_self t)) ⟨k, part, rfl, rfl⟩
    · rw [hother c hc]
      refine iff_of_false (hout c) ?_
      rintro ⟨k', part', hw, hk⟩
      cases hw
      exact hc hk.symm
  · intro c u hut
    by_cases hc : c = k.client
    · rw [hc, hself, List.mem_append, List.mem_singleton]
      exact or_iff_left hut
    · rw [hother c hc]
  · intro c
    by_cases hc : c = k.client
    · rw [hc, hself, List.nodup_append]
      refine ⟨h.distinct _, List.nodup_singleton t, ?_⟩
      rintro u hu v hv rfl
      cases List.mem_singleton.mp hv
      exact hout _ hu
    · rw [hother c hc]
      exact h.distinct c

theorem SendInv.unpark (h : SendInv s) {k : SendCall} {part : Part} (hpc : s.pc t = .wait k part)
    (hclient : s'.client = (s.unpark t k part).client) (hpc' : s'.pc = (s.unpark t k part).pc)
    (hnet : ∀ c, s'.net = .send c → s.net = .send c) : SendInv s' := by
  have hself : (s'.client k.client).waiters = (s.client k.client).waiters.erase t := by
    rw [hclient]
    exact member_update SendClient.waiters
  have hother : ∀ c, c ≠ k.client → s'.client c = s.client c := by
    intro c hc
    rw [hclient]
    exact Function.update_of_ne hc ..
  refine h.sender_step hpc' hnet ?_ nofun ?_ ?_ ?_
  · intro c o ho _
    rw [hclient]
    refine owner_update_of_eq ho ?_
    rintro rfl
    exact ho
  · intro c
    refine iff_of_false ?_ fun ⟨_, _, hw, _⟩ => nomatch hw
    by_cases hc : c = k.client
    · rw [hc, hself]
      exact (h.distinct _).not_mem_erase
    · rw [hother c hc, h.parked]
      rintro ⟨k', part', hw, hk⟩
      cases hpc.symm.trans hw
      exact hc hk.symm
  · intro c u hut
    by_cases hc : c = k.client
    · rw [hc, hself]
      exact List.mem_erase_of_ne hut
    · rw [hother c hc]
  · intro c
    by_cases hc : c = k.client
    · rw [hc, hself]
      exact (h.distinct _).erase t
    · rw [hother c hc]
      exact h.distinct c

/-- No sender loses a lock that the network thread has. -/
theorem SendInv.keeps_send (h : SendInv s) {c : Nat} {x : SendClient} (hnet : s.net = .send c)
    (d u : Nat) (ho : (s.client d).owner = some (.sender u)) :
    (Function.update s.client c x d).owner = some (.sender u) := by
  refine owner_update_of_eq ho ?_
  rintro rfl
  cases (h.netLocked _ hnet).symm.trans ho

theorem sendInv_step {a : SendAction} (h : SendInv s) (hs : Stepped s a s') : SendInv s' := by
  cases hs with
  | @call t c buf safe hpc hlen hr =>
      refine h.move rfl rfl (by rw [hpc]; exact nofun) ?_ (fun _ => rfl) (fun _ _ ho _ => ho) ?_
      · cases safe <;> exact nofun
      · cases safe <;> exact nofun
  | skip hpc =>
      exact h.move rfl rfl (by rw [hpc]; exact nofun) nofun (fun _ => rfl) (fun _ _ ho _ => ho)
        nofun
  | checked hpc =>
      exact h.move rfl rfl (by rw [hpc]; exact nofun) nofun (fun _ => rfl) (fun _ _ ho _ => ho)
        nofun
  | @acquire t k part hpc ho =>
      have hfrom : ∀ k part, s.pc t ≠ .wait k part := by
        rcases hpc with ⟨hpc, -⟩ | hpc
        · rw [hpc]
          exact nofun
        · rw [hpc]
          exact nofun
      refine h.move rfl rfl hfrom nofun (member_update_same _ (by rfl)) ?_ ?_
      · intro c o hc _
        refine owner_update_of_eq hc ?_
        rintro rfl
        cases ho.symm.trans hc
      · intro l part' hl
        cases hl
        exact member_update SendClient.owner
  | park hpc hr => exact h.park hpc
  | refuse hpc hr =>
      exact h.move rfl rfl (by rw [hpc]; exact nofun) nofun (fun _ => rfl) (fun _ _ ho _ => ho)
        nofun
  | @putLength t k q hpc hr =>
      have howner := h.locked t k .length hpc
      refine h.move rfl rfl (by rw [hpc]; exact nofun) nofun (member_update_same _ (by rfl)) ?_ ?_
      · intro c o hc _
        refine owner_update_of_eq hc ?_
        rintro rfl
        exact hc
      · intro l part hl
        cases hl
        exact owner_update_of_eq howner fun _ => howner
  | @putPayload t k q hpc hr =>
      have howner := h.locked t k .payload hpc
      refine h.move rfl rfl (by rw [hpc]; exact nofun) nofun (member_update_same _ (by rfl)) ?_ nofun
      intro c o hc hne
      refine owner_update_of_eq hc ?_
      rintro rfl
      exact absurd (Option.some.inj (hc.symm.trans howner)) hne
  | wake hpc => exact h.unpark hpc rfl rfl fun _ hc => hc
  | drain hnet hc hr => exact h.net_step rfl (fun _ => rfl) (fun _ _ ho => ho) nofun
  | @netLock c hnet ho =>
      refine h.net_step rfl (member_update_same _ (by rfl)) ?_ ?_
      · intro d u hd
        refine owner_update_of_eq hd ?_
        rintro rfl
        cases ho.symm.trans hd
      · intro d hd
        cases hd
        exact member_update SendClient.owner
  | sendFail hnet => exact h.net_step rfl (member_update_same _ (by rfl)) (h.keeps_send hnet) nofun
  | sendZero hnet =>
      refine h.net_step rfl (member_update_same _ (by rfl)) (fun d u hd => ?_) nofun
      refine owner_update_of_eq hd ?_
      rintro rfl
      exact hd
  | sendSome hnet hpos hn hbs =>
      exact h.net_step rfl (member_update_same _ (by rfl)) (h.keeps_send hnet) nofun
  | quiet hnet hno => exact h.net_step rfl (fun _ => rfl) (fun _ _ ho => ho) nofun
  | signal hnet hret ht hmem hpc => exact h.unpark hpc rfl rfl nofun

/-! ## Holders -/

/-- A thread that has the lock of client `c` is at an `enqueue_data` there. -/
def HoldsAt (c : Nat) (s : SendState) : Prop :=
  ∀ t, (s.client c).owner = some (.sender t) → ∃ k part, s.pc t = .put k part ∧ k.client = c

/-- Who is at no `enqueue_data` on the client does not have its lock. -/
theorem HoldsAt.not_owner {c : Nat} (h : HoldsAt c s)
    (hpc : ∀ k part, s.pc t = .put k part → k.client ≠ c) {u : Nat}
    (ho : (s.client c).owner = some (.sender u)) : u ≠ t := by
  rintro rfl
  obtain ⟨k, part, hput, hk⟩ := h u ho
  exact hpc k part hput hk

theorem HoldsAt.sender_step {c : Nat} (h : HoldsAt c s) (hpc : s'.pc = Function.update s.pc t p)
    (howner : ∀ u, (s'.client c).owner = some (.sender u) →
      u ≠ t ∧ (s.client c).owner = some (.sender u) ∨
        u = t ∧ ∃ k part, p = .put k part ∧ k.client = c) : HoldsAt c s' := by
  intro u hu
  rw [hpc]
  rcases howner u hu with ⟨hne, ho⟩ | ⟨rfl, hput⟩
  · rw [Function.update_of_ne hne]
    exact h u ho
  · rw [Function.update_self]
    exact hput

theorem HoldsAt.move {c : Nat} (h : HoldsAt c s) (hpc : s'.pc = Function.update s.pc t p)
    (hout : ∀ k part, s.pc t = .put k part → k.client ≠ c)
    (howner : (s'.client c).owner = (s.client c).owner) : HoldsAt c s' := by
  refine h.sender_step hpc fun u hu => ?_
  rw [howner] at hu
  exact .inl ⟨h.not_owner hout hu, hu⟩

theorem HoldsAt.net_step {c : Nat} (h : HoldsAt c s) (hpc : s'.pc = s.pc)
    (howner : ∀ u, (s'.client c).owner = some (.sender u) → (s.client c).owner = some (.sender u)) :
    HoldsAt c s' := by
  intro u hu
  rw [hpc]
  exact h u (howner u hu)

/-- Only a payload longer than the ring leaves its call with the lock. -/
theorem holdsAt_step {a : SendAction} {c : Nat} (h : HoldsAt c s)
    (hfits : ∀ t k part, s.pc t = .put k part → a = .run t → k.client = c →
      (k.bytes part).length ≤ capacity) (hs : Stepped s a s') : HoldsAt c s' := by
  have hno : ∀ {t} {p : SendPc}, s.pc t = p → (∀ k part, p ≠ .put k part) →
      ∀ k part, s.pc t = .put k part → k.client ≠ c := by
    intro t p hp hne k part hput
    exact absurd (hp.symm.trans hput) (hne k part)
  cases hs with
  | @call t d buf safe hpc hlen hr => exact h.move rfl (hno hpc nofun) rfl
  | skip hpc => exact h.move rfl (hno hpc nofun) rfl
  | checked hpc => exact h.move rfl (hno hpc nofun) rfl
  | @acquire t k part hpc ho =>
      have hout : ∀ l part', s.pc t = .put l part' → l.client ≠ c := by
        rcases hpc with ⟨hpc, -⟩ | hpc
        · exact hno hpc nofun
        · exact hno hpc nofun
      refine h.sender_step rfl fun u hu => ?_
      rcases owner_update hu with ⟨hc, howner⟩ | ⟨-, hold⟩
      · cases howner
        exact .inr ⟨rfl, k, part, rfl, hc.symm⟩
      · exact .inl ⟨h.not_owner hout hold, hold⟩
  | @park t k part hpc hr =>
      refine h.sender_step rfl fun u hu => ?_
      obtain ⟨hne, hold⟩ := owner_of_update (by exact nofun) hu
      refine .inl ⟨h.not_owner ?_ hold, hold⟩
      intro l part' hput
      cases hpc.symm.trans hput
      exact Ne.symm hne
  | @refuse t k part hpc hlong =>
      refine h.move rfl ?_ rfl
      intro l part' hput hc
      have hle := hfits t l part' hput rfl hc
      cases hpc.symm.trans hput
      exact Nat.not_lt.mpr hle hlong
  | @putLength t k q hpc hq =>
      have hsame : ((s.putLength t k q).client c).owner = (s.client c).owner :=
        member_update_same SendClient.owner (by rfl) c
      refine h.sender_step rfl fun u hu => ?_
      rw [hsame] at hu
      by_cases hut : u = t
      · obtain ⟨l, part, hput, hl⟩ := h u hu
        rw [hut, hpc] at hput
        cases hput
        exact .inr ⟨hut, k, .payload, rfl, hl⟩
      · exact .inl ⟨hut, hu⟩
  | @putPayload t k q hpc hq =>
      refine h.sender_step rfl fun u hu => ?_
      obtain ⟨hne, hold⟩ := owner_of_update (by exact nofun) hu
      refine .inl ⟨h.not_owner ?_ hold, hold⟩
      intro l part' hput
      cases hpc.symm.trans hput
      exact Ne.symm hne
  | wake hpc =>
      exact h.move rfl (hno hpc nofun) (member_update_same SendClient.owner (by rfl) c)
  | drain hnet hc hr => exact h.net_step rfl fun u hu => hu
  | netLock hnet ho => exact h.net_step rfl fun u hu => (owner_of_update (by exact nofun) hu).2
  | sendFail hnet => exact h.net_step rfl fun u hu => (owner_of_update (by exact nofun) hu).2
  | @sendZero d hnet =>
      refine h.net_step rfl fun u hu => ?_
      exact (member_update_same SendClient.owner (by rfl) c).symm.trans hu
  | sendSome hnet hpos hn hbs =>
      exact h.net_step rfl fun u hu => (owner_of_update (by exact nofun) hu).2
  | quiet hnet hno => exact h.net_step rfl fun u hu => hu
  | signal hnet hret ht hmem hpc =>
      exact h.move rfl (hno hpc nofun) (member_update_same SendClient.owner (by rfl) c)

end

/-! ## Runs -/

def SendCall.framed (k : SendCall) : List (Nat × UInt8) := k.marked .length ++ k.marked .payload

section

variable {s : SendState} {t : Nat} {k : SendCall}

theorem step_call {c : Nat} {buf : Bytes} (hpc : s.pc t = .idle) (hlen : buf.length < 2 ^ 32)
    (hr : (s.client c).removed = false) :
    step s (.call t c buf true) =
      some ({ s with calls := s.calls + 1 }.setPc t (.lock ⟨s.calls, c, buf⟩)) := by
  simp only [step, hpc, hlen, hr]
  rfl

theorem step_lock (hpc : s.pc t = .lock k) (ho : (s.client k.client).owner = none) :
    step s (.run t) = some (s.acquire t k .length) := by
  simp only [step, runStep, hpc, lockStep, ho, if_true]
  rfl

theorem step_putLength {q : DataQueue} (hpc : s.pc t = .put k .length)
    (h : (s.client k.client).queue.Enqueued (k.bytes .length) q) :
    step s (.run t) = some (s.putLength t k q) := by
  have hpos := List.length_pos_iff.mpr h.nonempty
  simp only [step, runStep, hpc, putStep, h.returns, Option.map_some,
    DataQueue.int32_ofNat_ne_zero hpos h.short, DataQueue.int32_ofNat_ne_neg_one h.short, if_false]
  rfl

theorem step_putPayload {q : DataQueue} (hpc : s.pc t = .put k .payload)
    (h : (s.client k.client).queue.Enqueued k.buf q) :
    step s (.run t) = some (s.putPayload t k q) := by
  have hpos := List.length_pos_iff.mpr h.nonempty
  have hret : (s.client k.client).queue.enqueueData (k.bytes .payload) =
    some (Int32.ofNat k.buf.length, q) := h.returns
  simp only [step, runStep, hpc, putStep, hret, Option.map_some,
    DataQueue.int32_ofNat_ne_zero hpos h.short, DataQueue.int32_ofNat_ne_neg_one h.short, if_false]
  rfl

theorem step_park {part : Part} (hpc : s.pc t = .put k part)
    (hlen : (k.bytes part).length ≤ capacity)
    (hfull : (s.client k.client).queue.free < (k.bytes part).length) :
    step s (.run t) = some (s.park t k part) := by
  simp only [step, runStep, hpc, putStep, DataQueue.enqueueData_full hlen hfull, Option.map_some,
    if_true]
  rfl

end

/-- A new call that has entered its length. -/
def SendState.begun (s : SendState) (t : Nat) (k : SendCall) (q : DataQueue) : SendState :=
  (({ s with calls := s.calls + 1 }.setPc t (.lock k)).acquire t k .length).putLength t k q

section

variable (s : SendState) (t : Nat) (k : SendCall) (q : DataQueue)

@[simp] theorem begun_pc : (s.begun t k q).pc = Function.update s.pc t (.put k .payload) := by
  simp [SendState.begun, SendState.putLength, SendState.acquire]

@[simp] theorem begun_client : (s.begun t k q).client = Function.update s.client k.client
    { s.client k.client with
      queue := q, owner := some (.sender t),
      entered := (s.client k.client).entered ++ k.marked .length } := by
  simp [SendState.begun, SendState.putLength, SendState.acquire]

@[simp] theorem begun_net : (s.begun t k q).net = s.net := rfl

@[simp] theorem begun_time : (s.begun t k q).time = s.time := rfl

@[simp] theorem begun_calls : (s.begun t k q).calls = s.calls + 1 := rfl

end

theorem exec_length {s : SendState} {t c : Nat} {buf : Bytes} (hpc : s.pc t = .idle)
    (ho : (s.client c).owner = none) (hr : (s.client c).removed = false)
    (hwf : (s.client c).queue.WellFormed) (hlen : buf.length < 2 ^ 32)
    (hroom : 4 ≤ (s.client c).queue.free)
    (hcount : (s.client c).queue.bufferHead.toNat + 4 < 2 ^ 64) :
    ∃ q, sendMachine.exec s [.call t c buf true, .run t, .run t] =
        some (s.begun t ⟨s.calls, c, buf⟩ q) ∧
      q.WellFormed ∧ q.used = (s.client c).queue.used + 4 ∧
      q.contents = (s.client c).queue.contents ++ be32 (UInt32.ofNat buf.length) ∧
      q.bufferHead.toNat = (s.client c).queue.bufferHead.toNat + 4 := by
  generalize hk : (⟨s.calls, c, buf⟩ : SendCall) = k
  obtain rfl : k.client = c := by rw [← hk]
  obtain rfl : k.buf = buf := by rw [← hk]
  have hhdr : (k.bytes .length).length = 4 := be32_length _
  have hne : k.bytes .length ≠ [] := by
    intro he
    rw [he] at hhdr
    cases hhdr
  obtain ⟨q, hq, hwf', hc, hh, -⟩ :=
    DataQueue.Enqueued.of_room hwf hne (by omega) (by omega)
  have e₁ : sendMachine.step s (.call t k.client k.buf true) =
      some ({ s with calls := s.calls + 1 }.setPc t (.lock k)) := by
    have hcall := step_call hpc hlen hr
    rw [hk] at hcall
    exact hcall
  have e₂ : sendMachine.step ({ s with calls := s.calls + 1 }.setPc t (.lock k)) (.run t) = some _ :=
    step_lock (by simp) ho
  have e₃ : sendMachine.step (({ s with calls := s.calls + 1 }.setPc t (.lock k)).acquire t k .length)
      (.run t) = some _ :=
    step_putLength (k := k) (q := q) (by simp [SendState.acquire])
      (by simpa [SendState.acquire] using hq)
  refine ⟨q, ?_, hwf', ?_, hc, by rw [hh, hhdr]⟩
  · rw [Machine.exec_cons e₁, Machine.exec_cons e₂, Machine.exec_cons e₃]
    rfl
  · have := congrArg List.length hc
    simp [hhdr] at this
    exact this

/-- A call that finds room for its whole frame enters it and returns. -/
theorem exec_send {s : SendState} {t c : Nat} {buf : Bytes} (hpc : s.pc t = .idle)
    (ho : (s.client c).owner = none) (hr : (s.client c).removed = false)
    (hwf : (s.client c).queue.WellFormed) (hpos : 0 < buf.length)
    (hroom : 4 + buf.length ≤ (s.client c).queue.free)
    (hcount : (s.client c).queue.bufferHead.toNat + (4 + buf.length) < 2 ^ 64) :
    ∃ q, sendMachine.exec s [.call t c buf true, .run t, .run t, .run t] =
        some { s with
          client := Function.update s.client c { s.client c with
            queue := q, owner := none,
            entered := (s.client c).entered ++ SendCall.framed ⟨s.calls, c, buf⟩,
            sent := (s.client c).sent ++ [⟨s.calls, c, buf⟩] },
          calls := s.calls + 1 } ∧
      q.WellFormed ∧ q.contents = (s.client c).queue.contents ++ frame buf ∧
      q.used = (s.client c).queue.used + (4 + buf.length) ∧
      q.bufferHead.toNat = (s.client c).queue.bufferHead.toNat + (4 + buf.length) := by
  have hfree := DataQueue.free_eq (DataQueue.used_le_capacity hwf)
  have hcap := capacity_eq
  obtain ⟨q₁, he, hwf₁, hu₁, hc₁, hh₁⟩ :=
    exec_length hpc ho hr hwf (show buf.length < 2 ^ 32 by omega) (by omega) (by omega)
  have hfree₁ := DataQueue.free_eq (DataQueue.used_le_capacity hwf₁)
  obtain ⟨q₂, hq₂, hwf₂, hc₂, hh₂, -⟩ := DataQueue.Enqueued.of_room hwf₁
    (List.length_pos_iff.mp hpos) (by omega) (by omega)
  have e₄ : sendMachine.step (s.begun t ⟨s.calls, c, buf⟩ q₁) (.run t) = some _ :=
    step_putPayload (k := ⟨s.calls, c, buf⟩) (q := q₂) (by simp) (by simpa using hq₂)
  refine ⟨q₂, ?_, hwf₂, ?_, ?_, by omega⟩
  · have hsplit : [SendAction.call t c buf true, .run t, .run t, .run t] =
        [.call t c buf true, .run t, .run t] ++ [.run t] := rfl
    have hback : Function.update (Function.update s.pc t (.put ⟨s.calls, c, buf⟩ .payload)) t
        SendPc.idle = s.pc := by
      rw [Function.update_idem, ← hpc, Function.update_eq_self]
    rw [hsplit, Machine.exec_append, he, Option.bind_some, Machine.exec_cons e₄, Machine.exec]
    simp [SendState.putPayload, SendState.setPc, SendState.setClient, SendCall.framed, hback]
  · rw [hc₂, hc₁, List.append_assoc]
    rfl
  · have hlen := congrArg List.length hc₂
    simp at hlen
    omega

/-- Thread 0 sends a frame that leaves eight bytes free, and thread 1 waits behind its length. -/
def parkingCalls (buf b : Bytes) : List SendAction :=
  [.call 0 0 buf true, .run 0, .run 0, .run 0] ++ ([.call 1 0 b true, .run 1, .run 1] ++ [.run 1])

theorem exists_parked : ∃ s buf b q, sendMachine.exec .fresh (parkingCalls buf b) = some s ∧
    buf.length = 10485748 ∧ b.length = 20 ∧
    s.pc = Function.update (fun _ => .idle) 1 (.wait ⟨1, 0, b⟩ .payload) ∧
    s.net = .idle ∧ s.time = 0 ∧ s.calls = 2 ∧
    s.client 0 = {
      queue := q, owner := none, waiters := [1], removed := false,
      entered := SendCall.framed ⟨0, 0, buf⟩ ++ SendCall.marked ⟨1, 0, b⟩ .length,
      sent := [⟨0, 0, buf⟩], wire := [] } ∧
    q.WellFormed ∧ q.used = 10485756 ∧ q.bufferHead.toNat = 10485756 := by
  obtain ⟨buf, hlen⟩ : ∃ buf : Bytes, buf.length = 10485748 :=
    ⟨List.replicate 10485748 0, List.length_replicate⟩
  obtain ⟨b, hb⟩ : ∃ b : Bytes, b.length = 20 := ⟨List.replicate 20 0, rfl⟩
  have hfree : (SendState.fresh.client 0).queue.free = 10485760 := by decide
  have hhead : (SendState.fresh.client 0).queue.bufferHead.toNat = 0 := rfl
  have hzero : (SendState.fresh.client 0).queue.used = 0 := rfl
  have hcap := capacity_eq
  obtain ⟨q₀, e₀, hwf₀, -, hu₀, hh₀⟩ :=
    @exec_send .fresh 0 0 buf rfl rfl rfl DataQueue.empty_wellFormed
      (by omega) (by omega) (by omega)
  generalize hs₀ : ({ SendState.fresh with
    client := Function.update SendState.fresh.client 0 { SendState.fresh.client 0 with
      queue := q₀, owner := none,
      entered := (SendState.fresh.client 0).entered ++
        SendCall.framed ⟨SendState.fresh.calls, 0, buf⟩,
      sent := (SendState.fresh.client 0).sent ++ [⟨SendState.fresh.calls, 0, buf⟩] },
    calls := SendState.fresh.calls + 1 } : SendState) = s₀ at e₀
  have hx₀ : s₀.client 0 = {
      queue := q₀, owner := none, waiters := [], removed := false,
      entered := SendCall.framed ⟨0, 0, buf⟩, sent := [⟨0, 0, buf⟩], wire := [] } := by
    simp only [← hs₀, Function.update_self]
    rfl
  have hq₀ : (s₀.client 0).queue = q₀ := by rw [hx₀]
  have hfree₀ := DataQueue.free_eq (DataQueue.used_le_capacity hwf₀)
  obtain ⟨q, e₁, hwf, hu, -, hh⟩ := @exec_length s₀ 1 0 b
    (by rw [← hs₀]; rfl) (by rw [hx₀]) (by rw [hx₀]) (by rw [hq₀]; exact hwf₀)
    (by omega) (by rw [hq₀]; omega) (by rw [hq₀]; omega)
  have hfree₁ := DataQueue.free_eq (DataQueue.used_le_capacity hwf)
  rw [hq₀] at hu hh
  have hcalls : s₀.calls = 1 := by rw [← hs₀]; rfl
  rw [hcalls] at e₁
  have hpc : (s₀.begun 1 ⟨1, 0, b⟩ q).pc 1 = .put ⟨1, 0, b⟩ .payload := by simp
  have hq : ((s₀.begun 1 ⟨1, 0, b⟩ q).client 0).queue = q := by simp
  have e₂ : sendMachine.step (s₀.begun 1 ⟨1, 0, b⟩ q) (.run 1) =
      some ((s₀.begun 1 ⟨1, 0, b⟩ q).park 1 ⟨1, 0, b⟩ .payload) :=
    step_park hpc (show b.length ≤ capacity by omega)
      (show ((s₀.begun 1 ⟨1, 0, b⟩ q).client 0).queue.free < b.length by rw [hq]; omega)
  refine ⟨(s₀.begun 1 ⟨1, 0, b⟩ q).park 1 ⟨1, 0, b⟩ .payload, buf, b, q, ?_, hlen, hb, ?_, ?_, ?_,
    ?_, ?_, hwf, by omega, by omega⟩
  · rw [parkingCalls, Machine.exec_append, e₀, Option.bind_some, Machine.exec_append, e₁,
      Option.bind_some, Machine.exec_cons e₂, Machine.exec]
  · rw [SendState.park, SendState.setPc_pc, SendState.setClient_pc, begun_pc, Function.update_idem,
      ← hs₀]
    rfl
  · rw [← hs₀]
    rfl
  · rw [← hs₀]
    rfl
  · show s₀.calls + 1 = 2
    rw [hcalls]
  · simp [SendState.park, hx₀]

end Hprd.Net

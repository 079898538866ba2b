import Hprd.Net.SendPath

/-!
# The threads of the server

The epoll thread, the broadcast thread and the KCP thread over the send path: where
each of them takes `tcp_server.lock`, `net_cb_lock` and a client's `send_buf_lock`.
What a packet does besides its reply, and the KCP side of a send, take none of these
locks and are no steps of their own.
-/

namespace Hprd.Net

open Hprd.Core Common

/-! ## State -/

inductive Thread where
  | epoll
  | bradcast
  | kcp
  deriving DecidableEq

def Thread.sender : Thread → Nat
  | .epoll => 0
  | .bradcast => 1
  | .kcp => 2

/-- What the epoll thread takes `tcp_server.lock` for: the new client of `_callback_accept`, a
`_remove_client`, or `_check_need_send`. -/
inductive TableUse where
  | accept
  | remove (c : Nat)
  | checkNeedSend

/-- The epoll thread in `_process_event` or `_check_need_send`. `reply` is inside
`tcp_send_data_safe` and has `net_cb_lock`, `senddata` is inside `_callback_senddata`; after a
`send` that returned 0 it has `send_buf_lock` and first wants `tcp_server.lock`. -/
inductive EpollPc where
  | idle
  | lockTable (use : TableUse)
  | table (use : TableUse)
  | lockCallback (c : Nat) (reply : Option Bytes)
  | callback (c : Nat) (reply : Option Bytes)
  | reply
  | senddata
  | lockRemove (c : Nat)
  | remove (c : Nat)

/-- The broadcast thread in `tcp_foreach_client`, with the clients still to come; `send` is
inside `tcp_send_data_unsafe`. -/
inductive BradcastPc where
  | idle
  | lockTable (buf : Bytes)
  | foreach (buf : Bytes) (todo : List Nat)
  | send (buf : Bytes) (todo : List Nat)

/-- The KCP thread in `tcp_find_client` or `on_server_pkt`. -/
inductive KcpPc where
  | idle
  | lockTable
  | table
  | lockCallback
  | callback

/-- Clients are numbered in the order they connect. -/
structure ServerState where
  send : SendState
  table : List Nat
  accepted : Nat
  kcpEnable : Nat → Bool
  tableLock : Option Thread
  callbackLock : Option Thread
  epoll : EpollPc
  bradcast : BradcastPc
  kcp : KcpPc

/-! ## Steps -/

def responseSize : Nat := 20

def TableUse.apply (s : ServerState) : TableUse → ServerState
  | .accept => { s with table := s.accepted :: s.table, accepted := s.accepted + 1 }
  | .remove c => { s with table := s.table.erase c }
  | .checkNeedSend => s

def epollStep (s : ServerState) : Option ServerState :=
  match s.epoll with
  | .idle => none
  | .lockTable use =>
      if s.tableLock = none then some { s with tableLock := some .epoll, epoll := .table use }
      else none
  | .table use => some { use.apply s with tableLock := none, epoll := .idle }
  | .lockCallback c reply =>
      if s.callbackLock = none then
        some { s with callbackLock := some .epoll, epoll := .callback c reply }
      else none
  | .callback _ none => some { s with callbackLock := none, epoll := .idle }
  | .callback c (some buf) =>
      if s.kcpEnable c then some { s with callbackLock := none, epoll := .idle }
      else (step s.send (.call 0 c buf true)).map fun x => { s with send := x, epoll := .reply }
  | .reply =>
      match s.send.pc 0 with
      | .idle => some { s with callbackLock := none, epoll := .idle }
      | _ => (step s.send (.run 0)).map fun x => { s with send := x }
  | .senddata =>
      match s.send.net with
      | .idle => some { s with epoll := .idle }
      | _ => none
  | .lockRemove c =>
      if s.tableLock = none then some { s with tableLock := some .epoll, epoll := .remove c }
      else none
  | .remove c =>
      (step s.send (.netSend (.some 0))).map fun x =>
        { s with send := x, table := s.table.erase c, tableLock := none, epoll := .idle }

def bradcastStep (s : ServerState) : Option ServerState :=
  match s.bradcast with
  | .idle => none
  | .lockTable _ => none
  | .foreach _ [] => some { s with tableLock := none, bradcast := .idle }
  | .foreach buf (c :: todo) =>
      if s.kcpEnable c then some { s with bradcast := .foreach buf todo }
      else (step s.send (.call 1 c buf false)).map fun x =>
        { s with send := x, bradcast := .send buf todo }
  | .send buf todo =>
      match s.send.pc 1 with
      | .idle => some { s with bradcast := .foreach buf todo }
      | _ => (step s.send (.run 1)).map fun x => { s with send := x }

def kcpStep (s : ServerState) : Option ServerState :=
  match s.kcp with
  | .idle => none
  | .lockTable =>
      if s.tableLock = none then some { s with tableLock := some .kcp, kcp := .table } else none
  | .table => some { s with tableLock := none, kcp := .idle }
  | .lockCallback =>
      if s.callbackLock = none then some { s with callbackLock := some .kcp, kcp := .callback }
      else none
  | .callback => some { s with callbackLock := none, kcp := .idle }

/-- An action of the network thread of the send path, inside `_callback_senddata`. -/
def senddataStep (s : ServerState) (a : SendAction) : Option ServerState :=
  match s.epoll with
  | .senddata => (step s.send a).map fun x => { s with send := x }
  | _ => none

/-- What the three threads begin, how the kernel answers, and the next step of a thread. The
broadcast visits the clients in the order of the hash table. -/
inductive ServerAction where
  | useTable (use : TableUse)
  | packet (c : Nat) (reply : Option Bytes)
  | senddata (c : Nat)
  | netLock
  | netSend (r : SendResult)
  | netSignal (woken : Option Nat)
  | bradcast (buf : Bytes)
  | foreach (order : List Nat)
  | kcpFind
  | kcpConnect (c : Nat)
  | kcpPacket
  | wake (t : Nat)
  | run (t : Thread)

def serverStep (s : ServerState) : ServerAction → Option ServerState
  | .useTable use =>
      match s.epoll with
      | .idle => some { s with epoll := .lockTable use }
      | _ => none
  | .packet c reply =>
      match s.epoll with
      | .idle =>
          if c ∈ s.table ∧ ∀ buf ∈ reply, buf.length = responseSize then
            some { s with epoll := .lockCallback c reply }
          else none
      | _ => none
  | .senddata c =>
      match s.epoll with
      | .idle =>
          if c ∈ s.table then
            (step s.send (.drain c)).map fun x => { s with send := x, epoll := .senddata }
          else none
      | _ => none
  | .netLock => senddataStep s .netLock
  | .netSend (.some 0) =>
      match s.epoll, s.send.net with
      | .senddata, .send c => some { s with epoll := .lockRemove c }
      | _, _ => none
  | .netSend r => senddataStep s (.netSend r)
  | .netSignal woken => senddataStep s (.netSignal woken)
  | .bradcast buf =>
      match s.bradcast with
      | .idle =>
          if 0 < buf.length ∧ buf.length ≤ videoPktSize then
            some { s with bradcast := .lockTable buf }
          else none
      | _ => none
  | .foreach order =>
      match s.bradcast with
      | .lockTable buf =>
          if s.tableLock = none ∧ order.Perm s.table then
            some { s with tableLock := some .bradcast, bradcast := .foreach buf order }
          else none
      | _ => none
  | .kcpFind =>
      match s.kcp with
      | .idle => some { s with kcp := .lockTable }
      | _ => none
  | .kcpConnect c =>
      match s.kcp with
      | .idle => some { s with kcpEnable := Function.update s.kcpEnable c true }
      | _ => none
  | .kcpPacket =>
      match s.kcp with
      | .idle => some { s with kcp := .lockCallback }
      | _ => none
  | .wake t => (step s.send (.wake t)).map fun x => { s with send := x }
  | .run .epoll => epollStep s
  | .run .bradcast => bradcastStep s
  | .run .kcp => kcpStep s

def ServerState.fresh : ServerState :=
  ⟨.fresh, [], 0, fun _ => false, none, none, .idle, .idle, .idle⟩

def serverMachine : Machine ServerState ServerAction where
  init s := s = .fresh
  step := serverStep

/-! ## What a step can do -/

/-- Every step, with what it found and what it left. -/
inductive ServerStepped (s : ServerState) : ServerAction → ServerState → Prop where
  | useTable {use : TableUse} : s.epoll = .idle →
      ServerStepped s (.useTable use) { s with epoll := .lockTable use }
  | packet {c : Nat} {reply : Option Bytes} : s.epoll = .idle →
      (∀ buf ∈ reply, buf.length = responseSize) →
      ServerStepped s (.packet c reply) { s with epoll := .lockCallback c reply }
  | senddata {c : Nat} {x : SendState} : s.epoll = .idle → Stepped s.send (.drain c) x →
      ServerStepped s (.senddata c) { s with send := x, epoll := .senddata }
  | takeTable {use : TableUse} : s.epoll = .lockTable use → s.tableLock = none →
      ServerStepped s (.run .epoll) { s with tableLock := some .epoll, epoll := .table use }
  | leaveTable {use : TableUse} : s.epoll = .table use →
      ServerStepped s (.run .epoll) { use.apply s with tableLock := none, epoll := .idle }
  | takeCallback {c : Nat} {reply : Option Bytes} : s.epoll = .lockCallback c reply →
      s.callbackLock = none →
      ServerStepped s (.run .epoll)
        { s with callbackLock := some .epoll, epoll := .callback c reply }
  | leaveCallback {c : Nat} {reply : Option Bytes} : s.epoll = .callback c reply →
      ServerStepped s (.run .epoll) { s with callbackLock := none, epoll := .idle }
  | beginReply {c : Nat} {buf : Bytes} {x : SendState} : s.epoll = .callback c (some buf) →
      Stepped s.send (.call 0 c buf true) x →
      ServerStepped s (.run .epoll) { s with send := x, epoll := .reply }
  | reply {x : SendState} : s.epoll = .reply → Stepped s.send (.run 0) x →
      ServerStepped s (.run .epoll) { s with send := x }
  | endReply : s.epoll = .reply → s.send.pc 0 = .idle →
      ServerStepped s (.run .epoll) { s with callbackLock := none, epoll := .idle }
  | netLock {x : SendState} : s.epoll = .senddata → Stepped s.send .netLock x →
      ServerStepped s .netLock { s with send := x }
  | netSend {r : SendResult} {x : SendState} : s.epoll = .senddata →
      Stepped s.send (.netSend r) x → ServerStepped s (.netSend r) { s with send := x }
  | netSignal {woken : Option Nat} {x : SendState} : s.epoll = .senddata →
      Stepped s.send (.netSignal woken) x → ServerStepped s (.netSignal woken) { s with send := x }
  | endSenddata : s.epoll = .senddata → s.send.net = .idle →
      ServerStepped s (.run .epoll) { s with epoll := .idle }
  | sendZero {c : Nat} : s.epoll = .senddata → s.send.net = .send c →
      ServerStepped s (.netSend (.some 0)) { s with epoll := .lockRemove c }
  | takeRemove {c : Nat} : s.epoll = .lockRemove c → s.tableLock = none →
      ServerStepped s (.run .epoll) { s with tableLock := some .epoll, epoll := .remove c }
  | leaveRemove {c : Nat} {x : SendState} : s.epoll = .remove c →
      Stepped s.send (.netSend (.some 0)) x →
      ServerStepped s (.run .epoll)
        { s with send := x, table := s.table.erase c, tableLock := none, epoll := .idle }
  | bradcast {buf : Bytes} : s.bradcast = .idle → 0 < buf.length → buf.length ≤ videoPktSize →
      ServerStepped s (.bradcast buf) { s with bradcast := .lockTable buf }
  | foreach {buf : Bytes} {order : List Nat} : s.bradcast = .lockTable buf → s.tableLock = none →
      ServerStepped s (.foreach order)
        { s with tableLock := some .bradcast, bradcast := .foreach buf order }
  | endForeach {buf : Bytes} : s.bradcast = .foreach buf [] →
      ServerStepped s (.run .bradcast) { s with tableLock := none, bradcast := .idle }
  | skip {buf : Bytes} {c : Nat} {todo : List Nat} : s.bradcast = .foreach buf (c :: todo) →
      ServerStepped s (.run .bradcast) { s with bradcast := .foreach buf todo }
  | beginSend {buf : Bytes} {c : Nat} {todo : List Nat} {x : SendState} :
      s.bradcast = .foreach buf (c :: todo) → Stepped s.send (.call 1 c buf false) x →
      ServerStepped s (.run .bradcast) { s with send := x, bradcast := .send buf todo }
  | send {buf : Bytes} {todo : List Nat} {x : SendState} : s.bradcast = .send buf todo →
      Stepped s.send (.run 1) x → ServerStepped s (.run .bradcast) { s with send := x }
  | endSend {buf : Bytes} {todo : List Nat} : s.bradcast = .send buf todo →
      s.send.pc 1 = .idle →
      ServerStepped s (.run .bradcast) { s with bradcast := .foreach buf todo }
  | kcpFind : s.kcp = .idle → ServerStepped s .kcpFind { s with kcp := .lockTable }
  | kcpConnect {c : Nat} : ServerStepped s (.kcpConnect c)
      { s with kcpEnable := Function.update s.kcpEnable c true }
  | kcpPacket : s.kcp = .idle → ServerStepped s .kcpPacket { s with kcp := .lockCallback }
  | kcpTakeTable : s.kcp = .lockTable → s.tableLock = none →
      ServerStepped s (.run .kcp) { s with tableLock := some .kcp, kcp := .table }
  | kcpLeaveTable : s.kcp = .table →
      ServerStepped s (.run .kcp) { s with tableLock := none, kcp := .idle }
  | kcpTakeCallback : s.kcp = .lockCallback → s.callbackLock = none →
      ServerStepped s (.run .kcp) { s with callbackLock := some .kcp, kcp := .callback }
  | kcpLeaveCallback : s.kcp = .callback →
      ServerStepped s (.run .kcp) { s with callbackLock := none, kcp := .idle }
  | wake {t : Nat} {x : SendState} : Stepped s.send (.wake t) x →
      ServerStepped s (.wake t) { s with send := x }

theorem stepped_epoll {s s' : ServerState} (h : epollStep s = some s') :
    ServerStepped s (.run .epoll) s' := by
  unfold epollStep at h
  split at h
  · cases h
  · next hpc =>
      split at h
      · next hfree =>
          cases h
          exact .takeTable hpc hfree
      · cases h
  · next hpc =>
      cases h
      exact .leaveTable hpc
  · next hpc =>
      split at h
      · next hfree =>
          cases h
          exact .takeCallback hpc hfree
      · cases h
  · next hpc =>
      cases h
      exact .leaveCallback hpc
  · next hpc =>
      split at h
      · cases h
        exact .leaveCallback hpc
      · obtain ⟨x, hx, rfl⟩ := Option.map_eq_some_iff.mp h
        exact .beginReply hpc (stepped hx)
  · next hpc =>
      split at h
      · next hidle =>
          cases h
          exact .endReply hpc hidle
      · obtain ⟨x, hx, rfl⟩ := Option.map_eq_some_iff.mp h
        exact .reply hpc (stepped hx)
  · next hpc =>
      split at h
      · next hidle =>
          cases h
          exact .endSenddata hpc hidle
      · cases h
  · next hpc =>
      split at h
      · next hfree =>
          cases h
          exact .takeRemove hpc hfree
      · cases h
  · next hpc =>
      obtain ⟨x, hx, rfl⟩ := Option.map_eq_some_iff.mp h
      exact .leaveRemove hpc (stepped hx)

theorem stepped_bradcast {s s' : ServerState} (h : bradcastStep s = some s') :
    ServerStepped s (.run .bradcast) s' := by
  unfold bradcastStep at h
  split at h
  · cases h
  · cases h
  · next hpc =>
      cases h
      exact .endForeach hpc
  · next hpc =>
      split at h
      · cases h
        exact .skip hpc
      · obtain ⟨x, hx, rfl⟩ := Option.map_eq_some_iff.mp h
        exact .beginSend hpc (stepped hx)
  · next hpc =>
      split at h
      · next hidle =>
          cases h
          exact .endSend hpc hidle
      · obtain ⟨x, hx, rfl⟩ := Option.map_eq_some_iff.mp h
        exact .send hpc (stepped hx)

theorem stepped_kcp {s s' : ServerState} (h : kcpStep s = some s') :
    ServerStepped s (.run .kcp) s' := by
  unfold kcpStep at h
  split at h
  · cases h
  · next hpc =>
      split at h
      · next hfree =>
          cases h
          exact .kcpTakeTable hpc hfree
      · cases h
  · next hpc =>
      cases h
      exact .kcpLeaveTable hpc
  · next hpc =>
      split at h
      · next hfree =>
          cases h
          exact .kcpTakeCallback hpc hfree
      · cases h
  · next hpc =>
      cases h
      exact .kcpLeaveCallback hpc

theorem stepped_senddata {s s' : ServerState} {a : SendAction} (h : senddataStep s a = some s') :
    ∃ x, s.epoll = .senddata ∧ Stepped s.send a x ∧ s' = { s with send := x } := by
  unfold senddataStep at h
  split at h
  · next hpc =>
      obtain ⟨x, hx, rfl⟩ := Option.map_eq_some_iff.mp h
      exact ⟨x, hpc, stepped hx, rfl⟩
  · cases h

/-- The step function does nothing else. -/
theorem serverStepped {s s' : ServerState} {a : ServerAction} (h : serverStep s a = some s') :
    ServerStepped s a s' := by
  unfold serverStep at h
  split at h
  · split at h
    · next hpc =>
        cases h
        exact .useTable hpc
    · cases h
  · split at h
    · next hpc =>
        split at h
        · next hg =>
            cases h
            exact .packet hpc hg.2
        · cases h
    · cases h
  · split at h
    · next hpc =>
        split at h
        · obtain ⟨x, hx, rfl⟩ := Option.map_eq_some_iff.mp h
          exact .senddata hpc (stepped hx)
        · cases h
    · cases h
  · obtain ⟨x, hpc, hx, rfl⟩ := stepped_senddata h
    exact .netLock hpc hx
  · split at h
    · next c hpc hnet =>
        cases h
        exact .sendZero hpc hnet
    · cases h
  · obtain ⟨x, hpc, hx, rfl⟩ := stepped_senddata h
    exact .netSend hpc hx
  · obtain ⟨x, hpc, hx, rfl⟩ := stepped_senddata h
    exact .netSignal hpc hx
  · split at h
    · next hpc =>
        split at h
        · next hg =>
            cases h
            exact .bradcast hpc hg.1 hg.2
        · cases h
    · cases h
  · split at h
    · next buf hpc =>
        split at h
        · next hg =>
            cases h
            exact .foreach hpc hg.1
        · cases h
    · cases h
  · split at h
    · next hpc =>
        cases h
        exact .kcpFind hpc
    · cases h
  · split at h
    · cases h
      exact .kcpConnect
    · cases h
  · split at h
    · next hpc =>
        cases h
        exact .kcpPacket hpc
    · cases h
  · obtain ⟨x, hx, rfl⟩ := Option.map_eq_some_iff.mp h
    exact .wake (stepped hx)
  · exact stepped_epoll h
  · exact stepped_bradcast h
  · exact stepped_kcp h

/-! ## Waiting -/

inductive Resource where
  | table
  | callback
  | sendBuf (c : Nat)
  | space (c : Nat)
  deriving DecidableEq

/-- What a thread inside `tcp_send_data_safe` waits for. -/
def SendPc.waits : SendPc → Option Resource
  | .lock k => some (.sendBuf k.client)
  | .relock k _ => some (.sendBuf k.client)
  | .wait k _ => some (.space k.client)
  | _ => none

def ServerState.waits (s : ServerState) : Thread → Option Resource
  | .epoll =>
      match s.epoll with
      | .lockTable _ => some .table
      | .lockCallback _ _ => some .callback
      | .reply => (s.send.pc 0).waits
      | .senddata =>
          match s.send.net with
          | .lock c => some (.sendBuf c)
          | _ => none
      | .lockRemove _ => some .table
      | _ => none
  | .bradcast =>
      match s.bradcast with
      | .lockTable _ => some .table
      | .send _ _ => (s.send.pc 1).waits
      | _ => none
  | .kcp =>
      match s.kcp with
      | .lockTable => some .table
      | .lockCallback => some .callback
      | _ => none

/-- Only the epoll thread makes room in a queue. -/
def ServerState.holds (s : ServerState) (t : Thread) : Resource → Prop
  | .table => s.tableLock = some t
  | .callback => s.callbackLock = some t
  | .sendBuf c => (s.send.client c).owner = some (.sender t.sender) ∨
      t = .epoll ∧ (s.send.client c).owner = some .net
  | .space _ => t = .epoll

def ServerState.waitsFor (s : ServerState) : Thread → Thread → Prop := WaitsFor s.waits s.holds

end Hprd.Net

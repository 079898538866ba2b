import Hprd.Core.Purge
import Hprd.Net.KcpServer
import Hprd.Net.VideoPath

/-!
# Clients over TCP and over KCP

`net_server.c` over the TCP clients and the sessions of `_kcp_server_thread`. A
session, and with it the address that everything for the client is sent to, comes
from the first datagram that carries the client's id, wherever that comes from.
What the server sends is part of a run.
-/

namespace Hprd.Net

open Hprd.Core Kcp

/-- Where a packet for a client is sent. -/
inductive Route where
  | tcp
  | kcp (nip : UInt32) (nport : UInt16) (family : UInt16)
  deriving DecidableEq

/-- `tcpTable` has the address of the TCP client with an id, `kcpEnable` the flag of its
`struct server_client`. The calls of `server_on_pkg`, also for packets over TCP, are in `kcp`. -/
structure NetServer where
  kcp : KcpServer
  tcpTable : UInt32 → Option UInt32
  nextId : UInt32
  kcpEnable : UInt32 → Bool
  sent : UInt32 → List (Route × Bytes)

/-- A datagram and its sender. -/
structure Udp where
  data : Bytes
  nip : UInt32
  nport : UInt16
  family : UInt16

/-- The datagram where `server_has_client` looks at the TCP clients. -/
def Udp.datagram (u : Udp) (s : NetServer) : Datagram :=
  ⟨u.data, u.nip, u.nport, u.family, fun id => (s.tcpTable id).isSome⟩

def Udp.id (u : Udp) : UInt32 := ofBe32 (u.data.take 4)

/-- TCP clients come, send and go, datagrams arrive, `_kcp_update_thread` ticks, and the server
sends to one client or to all; `taken` says what the TCP queues take. -/
inductive NetAction where
  | accept (nip : UInt32)
  | tcpPkt (id : UInt32) (pkt : Bytes)
  | tcpClose (id : UInt32)
  | datagram (u : Udp)
  | kcpUpdate (current : UInt32)
  | send (id : UInt32) (pkt : Bytes) (taken : Bool)
  | bradcast (pkt : Bytes) (taken : UInt32 → Bool)

def KcpServerClient.route (client : KcpServerClient) : Route :=
  .kcp client.nip client.nport client.family

/-- A packet for one client: its session after it and what was sent. -/
def sendOne (enabled : Bool) (session : Option KcpServerClient) (pkt : Bytes) (taken : Bool) :
    Option KcpServerClient × List (Route × Bytes) :=
  match enabled, session with
  | true, some client =>
      let (ret, kcp) := kcpServerSendPkt client.kcpContext pkt
      (some { client with kcpContext := kcp }, if ret ≠ -1 then [(client.route, pkt)] else [])
  | true, none => (none, [])
  | false, session => (session, if taken then [(.tcp, pkt)] else [])

/-- `kcp_server_client_connect` of a session that `_kcp_server_thread` has just made. -/
def enableNew (s : NetServer) (d : Datagram) : UInt32 → Bool :=
  match lookedUp s.kcp d with
  | none => s.kcpEnable
  | some id =>
      if (s.kcp.clientTable id).isNone ∧ d.hasClient id then Function.update s.kcpEnable id true
      else s.kcpEnable

/-- A packet for a client that is gone has no step, and neither has an id after the last one. -/
def netStep (s : NetServer) : NetAction → Option NetServer
  | .accept nip =>
      if s.nextId + 1 = 0 then none
      else
        let id := s.nextId + 1
        some { s with
          nextId := id
          tcpTable := Function.update s.tcpTable id (some nip)
          kcpEnable := Function.update s.kcpEnable id false }
  | .tcpPkt id pkt =>
      if (s.tcpTable id).isSome then
        some { s with kcp := { s.kcp with handled := s.kcp.handled ++ [(id, pkt)] } }
      else none
  | .tcpClose id =>
      if (s.tcpTable id).isSome then
        some { s with tcpTable := Function.update s.tcpTable id none }
      else none
  | .datagram u =>
      (kcpServerStep s.kcp (u.datagram s)).map fun kcp =>
        { s with kcp, kcpEnable := enableNew s (u.datagram s) }
  | .kcpUpdate current =>
      some { s with kcp := { s.kcp with
        clientTable := fun id => (s.kcp.clientTable id).map fun client =>
          { client with kcpContext := (ikcpUpdate client.kcpContext current).1 } } }
  | .send id pkt taken =>
      if s.kcpEnable id = true ∨ (s.tcpTable id).isSome then
        let out := sendOne (s.kcpEnable id) (s.kcp.clientTable id) pkt taken
        some { s with
          kcp := { s.kcp with clientTable := Function.update s.kcp.clientTable id out.1 }
          sent := Function.update s.sent id (s.sent id ++ out.2) }
      else none
  | .bradcast pkt taken =>
      let out id := sendOne (s.kcpEnable id) (s.kcp.clientTable id) pkt (taken id)
      some { s with
        kcp := { s.kcp with
          clientTable := fun id =>
            if (s.tcpTable id).isSome then (out id).1 else s.kcp.clientTable id }
        sent := fun id => if (s.tcpTable id).isSome then s.sent id ++ (out id).2 else s.sent id }

def NetServer.start : NetServer where
  kcp := kcpServerStart
  tcpTable _ := none
  nextId := 0
  kcpEnable _ := false
  sent _ := []

def netMachine : Machine NetServer NetAction where
  init s := s = .start
  step := netStep

/-- Of the packets handled, those of one client. -/
def ofClient (c : UInt32) (handled : List (UInt32 × Bytes)) : List Bytes :=
  (handled.filter fun h => h.1 = c).map Prod.snd

def NetServer.handledFrom (s : NetServer) (c : UInt32) : List Bytes := ofClient c s.kcp.handled

/-- The same packets were sent to the client by the same routes, and the same ones handled as
coming from it. -/
def SameStream (c : UInt32) (s t : NetServer) : Prop :=
  s.sent c = t.sent c ∧ s.handledFrom c = t.handledFrom c

/-- A datagram from another address than `nip`. -/
def foreign (nip : UInt32) : NetAction → Bool
  | .datagram u => u.nip ≠ nip
  | _ => false

/-- Of those, the ones that do not carry the id of the client. -/
def foreignElsewhere (nip c : UInt32) : NetAction → Bool
  | .datagram u => u.nip ≠ nip ∧ u.id ≠ c
  | _ => false

/-- `ikcp_input` of the client's session makes the same of the datagram whatever lies behind it. -/
def ReadsOwn (s : NetServer) (u : Udp) : Prop :=
  ∀ client, client = (s.kcp.clientTable u.id).getD (newClient (u.datagram s) u.id) →
    ∀ rest rest', ikcpInput client.kcpContext (u.data.take udpBufSize ++ rest)
        (u.datagram s).recvCount =
      ikcpInput client.kcpContext (u.data.take udpBufSize ++ rest') (u.datagram s).recvCount

/-- Every datagram has the id of a session or a TCP client in its own bytes, and one with the
client's id is read within them. -/
def Addressed (c : UInt32) (s : NetServer) : NetAction → Prop
  | .datagram u => 4 ≤ u.data.length ∧
      ((s.kcp.clientTable u.id).isSome ∨ (s.tcpTable u.id).isSome) ∧ (u.id = c → ReadsOwn s u)
  | _ => True

/-! ## One datagram -/

/-- `ikcp_input` and `_kcp_recvdata`: the session after a datagram and the packets it gave. -/
def serve (client : KcpServerClient) (udpBuf : Bytes) (recvCount : Nat) :
    Option (KcpServerClient × List Bytes) :=
  (ikcpInput client.kcpContext udpBuf recvCount).map fun (_, kcp) =>
    let (bufs, kcp) := kcpRecvdata (kcp.rcvQueue.length + kcp.rcvBuf.length) kcp
    ({ client with kcpContext := kcp }, bufs)

/-- The session a datagram with a known id is for. -/
def sessionOf (s : KcpServer) (d : Datagram) : KcpServerClient :=
  (s.clientTable d.id).getD (newClient d d.id)

theorem findSession_known {s : KcpServer} {d : Datagram}
    (hknown : (s.clientTable d.id).isSome ∨ d.hasClient d.id = true) :
    (findSession s d d.id).client = some d.id ∧
      (findSession s d d.id).clientTable =
        Function.update s.clientTable d.id (some (sessionOf s d)) ∧
      (findSession s d d.id).udpBuf = s.udpBuf ∧ (findSession s d d.id).exited = s.exited ∧
      (findSession s d d.id).handled = s.handled := by
  unfold findSession sessionOf
  cases hc : s.clientTable d.id with
  | some client =>
      refine ⟨rfl, ?_, rfl, rfl, rfl⟩
      change s.clientTable = Function.update s.clientTable d.id (some client)
      rw [← hc, Function.update_eq_self]
  | none =>
      rw [hc] at hknown
      have hhas : d.hasClient d.id = true := hknown.resolve_left (by simp)
      simp only [hhas, if_true]
      exact ⟨trivial, rfl, trivial, trivial, trivial⟩

/-- A datagram with a known id of its own goes to its session and to nothing else. -/
theorem kcpServerStep_known {s : KcpServer} {d : Datagram} (hrun : s.exited = false)
    (hlen : 4 ≤ d.data.length)
    (hknown : (s.clientTable d.id).isSome ∨ d.hasClient d.id = true) :
    kcpServerStep s d =
      (serve (sessionOf s d) (recvfrom s.udpBuf d) d.recvCount).map fun (client, bufs) =>
        { udpBuf := recvfrom s.udpBuf d
          clientTable := Function.update s.clientTable d.id (some client)
          client := some d.id
          exited := false
          handled := s.handled ++ bufs.map fun buf => (d.id, buf) } := by
  have hfound := findSession_known (s := { s with udpBuf := recvfrom s.udpBuf d }) hknown
  rcases hfound with ⟨hclient, htable, hbuf, hexit, hhandled⟩
  have hsession : sessionOf { s with udpBuf := recvfrom s.udpBuf d } d = sessionOf s d := rfl
  rw [hsession] at htable
  rw [kcpServerStep, if_neg (by simp [hrun]), lookedUp_of_le hlen hrun]
  dsimp only
  generalize findSession { s with udpBuf := recvfrom s.udpBuf d } d d.id = t at *
  cases hin : ikcpInput (sessionOf s d).kcpContext (recvfrom s.udpBuf d) d.recvCount with
  | none => simp [serve, hclient, htable, hbuf, hin]
  | some out => simp [serve, hclient, htable, hbuf, hexit, hhandled, hrun, hin]

theorem enableNew_known {s : NetServer} {u : Udp} (hrun : s.kcp.exited = false)
    (hlen : 4 ≤ u.data.length)
    (hknown : (s.kcp.clientTable u.id).isSome ∨ (s.tcpTable u.id).isSome) :
    enableNew s (u.datagram s) =
      if (s.kcp.clientTable u.id).isNone then Function.update s.kcpEnable u.id true
      else s.kcpEnable := by
  rw [enableNew, lookedUp_of_le hlen hrun]
  change (if (s.kcp.clientTable u.id).isNone = true ∧ (s.tcpTable u.id).isSome = true then _ else _) =
    _
  cases hc : s.kcp.clientTable u.id with
  | some client => rfl
  | none =>
      rw [hc] at hknown
      have hhas : (s.tcpTable u.id).isSome = true := hknown.resolve_left (by simp)
      exact if_pos ⟨rfl, hhas⟩

theorem netStep_datagram {s t : NetServer} {u : Udp} {c : UInt32} (hrun : s.kcp.exited = false)
    (hok : Addressed c s (.datagram u)) (hs : netStep s (.datagram u) = some t) :
    ∃ client bufs,
      serve (sessionOf s.kcp (u.datagram s)) (recvfrom s.kcp.udpBuf (u.datagram s))
        (u.datagram s).recvCount = some (client, bufs) ∧
      t = { s with
        kcp :=
          { udpBuf := recvfrom s.kcp.udpBuf (u.datagram s)
            clientTable := Function.update s.kcp.clientTable u.id (some client)
            client := some u.id
            exited := false
            handled := s.kcp.handled ++ bufs.map fun buf => (u.id, buf) }
        kcpEnable :=
          if (s.kcp.clientTable u.id).isNone then Function.update s.kcpEnable u.id true
          else s.kcpEnable } := by
  rcases hok with ⟨hlen, hknown, -⟩
  rcases Option.map_eq_some_iff.mp hs with ⟨kcp, hkcp, rfl⟩
  rw [kcpServerStep_known (d := u.datagram s) hrun hlen hknown] at hkcp
  rcases Option.map_eq_some_iff.mp hkcp with ⟨⟨client, bufs⟩, hserve, rfl⟩
  refine ⟨client, bufs, hserve, ?_⟩
  rw [enableNew_known hrun hlen hknown]
  rfl

theorem ofClient_append (handled : List (UInt32 × Bytes)) (id c : UInt32) (bufs : List Bytes) :
    ofClient c (handled ++ bufs.map fun buf => (id, buf)) =
      ofClient c handled ++ if id = c then bufs else [] := by
  rw [ofClient, List.filter_append, List.map_append]
  congr 1
  by_cases hid : id = c
  · rw [if_pos hid, List.filter_eq_self.mpr]
    · rw [List.map_map]
      exact List.map_id bufs
    · intro h hh
      rcases List.mem_map.mp hh with ⟨buf, -, rfl⟩
      simpa using hid
  · rw [if_neg hid, List.filter_eq_nil_iff.mpr]
    · rfl
    · intro h hh
      rcases List.mem_map.mp hh with ⟨buf, -, rfl⟩
      simpa using hid

/-! ## Two runs -/

/-- What a client's stream depends on is the same in two servers. -/
structure Alike (c : UInt32) (s t : NetServer) : Prop where
  running : s.kcp.exited = false ∧ t.kcp.exited = false
  tcpTable : s.tcpTable = t.tcpTable
  nextId : s.nextId = t.nextId
  session : s.kcp.clientTable c = t.kcp.clientTable c
  enabled : s.kcpEnable c = t.kcpEnable c
  sent : s.sent c = t.sent c
  handled : s.handledFrom c = t.handledFrom c

variable {c : UInt32} {s t u v : NetServer}

theorem Alike.refl_start (c : UInt32) : Alike c .start .start :=
  ⟨⟨rfl, rfl⟩, rfl, rfl, rfl, rfl, rfl, rfl⟩

/-- A datagram with another id leaves the client's stream. -/
theorem Alike.datagram_elsewhere {d : Udp} (h : Alike c s u) (hid : d.id ≠ c)
    (hok : Addressed c s (.datagram d)) (hs : netStep s (.datagram d) = some t) : Alike c t u := by
  rcases netStep_datagram h.running.1 hok hs with ⟨client, bufs, -, rfl⟩
  refine ⟨⟨rfl, h.running.2⟩, h.tcpTable, h.nextId, ?_, ?_, h.sent, ?_⟩
  · exact (Function.update_of_ne hid.symm ..).trans h.session
  · dsimp only
    split
    · exact (Function.update_of_ne hid.symm ..).trans h.enabled
    · exact h.enabled
  · rw [← h.handled, NetServer.handledFrom, ofClient_append, if_neg hid, List.append_nil]
    rfl

/-- A datagram with the client's id does the same to both. -/
theorem Alike.datagram_own {d : Udp} (h : Alike c s u) (hid : d.id = c)
    (hok : Addressed c s (.datagram d)) (hok' : Addressed c u (.datagram d))
    (hs : netStep s (.datagram d) = some t) (hu : netStep u (.datagram d) = some v) :
    Alike c t v := by
  have hown := hok.2.2 hid
  rcases netStep_datagram h.running.1 hok hs with ⟨client, bufs, hserve, rfl⟩
  rcases netStep_datagram h.running.2 hok' hu with ⟨client', bufs', hserve', rfl⟩
  have hdata : d.datagram u = d.datagram s := by rw [Udp.datagram, Udp.datagram, h.tcpTable]
  have hsession : sessionOf u.kcp (d.datagram u) = sessionOf s.kcp (d.datagram s) := by
    have hsame : u.kcp.clientTable (d.datagram s).id = s.kcp.clientTable (d.datagram s).id := by
      change u.kcp.clientTable d.id = s.kcp.clientTable d.id
      rw [hid, h.session]
    rw [hdata, sessionOf, sessionOf, hsame]
  have hin := hown _ rfl (u.kcp.udpBuf.drop (d.datagram s).recvCount)
    (s.kcp.udpBuf.drop (d.datagram s).recvCount)
  have hserved : some (client', bufs') = some (client, bufs) := by
    rw [← hserve', ← hserve, hsession, hdata, serve, serve]
    exact congrArg _ hin
  cases hserved
  subst hid
  refine ⟨⟨rfl, rfl⟩, h.tcpTable, h.nextId, ?_, ?_, h.sent, ?_⟩
  · dsimp only
    rw [Function.update_self, Function.update_self]
  · dsimp only
    rw [h.session]
    split
    · rw [Function.update_self, Function.update_self]
    · exact h.enabled
  · rw [NetServer.handledFrom, NetServer.handledFrom, ofClient_append, ofClient_append]
    exact congrArg (· ++ _) h.handled

theorem Alike.symm (h : Alike c s t) : Alike c t s :=
  ⟨h.running.symm, h.tcpTable.symm, h.nextId.symm, h.session.symm, h.enabled.symm, h.sent.symm,
    h.handled.symm⟩

/-- Two servers that send the same to the client stay alike in what they send to it. -/
theorem Alike.sendOne (h : Alike c s u) (pkt : Bytes) (taken : Bool) :
    sendOne (s.kcpEnable c) (s.kcp.clientTable c) pkt taken =
      sendOne (u.kcpEnable c) (u.kcp.clientTable c) pkt taken := by
  rw [h.enabled, h.session]

theorem Alike.send {id : UInt32} {pkt : Bytes} {taken : Bool} (h : Alike c s u)
    (hs : netStep s (.send id pkt taken) = some t) (hu : netStep u (.send id pkt taken) = some v) :
    Alike c t v := by
  have hout := h.sendOne pkt taken
  obtain ⟨-, hs⟩ := Option.ite_none_right_eq_some.mp hs
  obtain ⟨-, hu⟩ := Option.ite_none_right_eq_some.mp hu
  cases hs
  cases hu
  refine ⟨h.running, h.tcpTable, h.nextId, ?_, h.enabled, ?_, h.handled⟩
  · dsimp only
    by_cases hid : c = id
    · subst hid
      rw [Function.update_self, Function.update_self, hout]
    · rw [Function.update_of_ne hid, Function.update_of_ne hid]
      exact h.session
  · dsimp only
    by_cases hid : c = id
    · subst hid
      rw [Function.update_self, Function.update_self, hout, h.sent]
    · rw [Function.update_of_ne hid, Function.update_of_ne hid]
      exact h.sent

theorem Alike.bradcast {pkt : Bytes} {taken : UInt32 → Bool} (h : Alike c s u)
    (hs : netStep s (.bradcast pkt taken) = some t) (hu : netStep u (.bradcast pkt taken) = some v) :
    Alike c t v := by
  have hout := h.sendOne pkt (taken c)
  cases hs
  cases hu
  refine ⟨h.running, h.tcpTable, h.nextId, ?_, h.enabled, ?_, h.handled⟩
  · dsimp only
    rw [hout, h.tcpTable, h.session]
  · dsimp only
    rw [hout, h.tcpTable, h.sent]

theorem Alike.step {a : NetAction} (h : Alike c s u) (hok : Addressed c s a) (hok' : Addressed c u a)
    (hs : netStep s a = some t) (hu : netStep u a = some v) : Alike c t v := by
  cases a with
  | accept nip =>
      simp only [netStep, ← h.nextId, ← h.tcpTable] at hs hu
      split at hs
      next => cases hs
      next hlast =>
        rw [if_neg hlast] at hu
        cases hs
        cases hu
        refine ⟨h.running, rfl, rfl, h.session, ?_, h.sent, h.handled⟩
        dsimp only
        by_cases hid : c = s.nextId + 1
        · rw [← hid, Function.update_self, Function.update_self]
        · rw [Function.update_of_ne hid, Function.update_of_ne hid]
          exact h.enabled
  | tcpPkt id pkt =>
      obtain ⟨-, hs⟩ := Option.ite_none_right_eq_some.mp hs
      obtain ⟨-, hu⟩ := Option.ite_none_right_eq_some.mp hu
      cases hs
      cases hu
      refine ⟨h.running, h.tcpTable, h.nextId, h.session, h.enabled, h.sent, ?_⟩
      have happend := fun handled => ofClient_append handled id c [pkt]
      calc ofClient c (s.kcp.handled ++ [(id, pkt)])
          = s.handledFrom c ++ if id = c then [pkt] else [] := happend _
        _ = u.handledFrom c ++ if id = c then [pkt] else [] := by rw [h.handled]
        _ = ofClient c (u.kcp.handled ++ [(id, pkt)]) := (happend _).symm
  | tcpClose id =>
      obtain ⟨-, hs⟩ := Option.ite_none_right_eq_some.mp hs
      obtain ⟨-, hu⟩ := Option.ite_none_right_eq_some.mp hu
      cases hs
      cases hu
      refine ⟨h.running, ?_, h.nextId, h.session, h.enabled, h.sent, h.handled⟩
      dsimp only
      rw [h.tcpTable]
  | datagram d =>
      by_cases hid : d.id = c
      · exact h.datagram_own hid hok hok' hs hu
      · exact ((h.datagram_elsewhere hid hok hs).symm.datagram_elsewhere hid hok' hu).symm
  | kcpUpdate current =>
      cases hs
      cases hu
      refine ⟨h.running, h.tcpTable, h.nextId, ?_, h.enabled, h.sent, h.handled⟩
      dsimp only
      rw [h.session]
  | send id pkt taken => exact h.send hs hu
  | bradcast pkt taken => exact h.bradcast hs hu

/-- Datagrams from other addresses that do not carry a client's id can be deleted from a run and
leave the client's stream. -/
theorem sameStream_of_deleted {nip : UInt32} {as : List NetAction}
    (h : netMachine.Path (Addressed c) .start as s)
    (h' : netMachine.Path (Addressed c) .start (as.filter fun a => !foreignElsewhere nip c a) t) :
    SameStream c s t := by
  have halike : Alike c s t := by
    refine Machine.Path.unwinding ?_ ?_ (.refl_start c) h h'
    · intro s a t u hR ha hok hs
      cases a with
      | datagram d =>
          have hid : d.id ≠ c := (of_decide_eq_true ha).2
          exact hR.datagram_elsewhere hid hok hs
      | _ => cases ha
    · intro s a t u v hR _ hok hok' hs hu
      exact hR.step hok hok' hs hu
  exact ⟨halike.sent, halike.handled⟩

/-- Two clients connect, and a datagram of each arrives. -/
def twoClients : List NetAction :=
  [.accept 5, .accept 6, .datagram ⟨[0, 0, 0, 1], 5, 40, 2⟩, .datagram ⟨[0, 0, 0, 2], 6, 41, 2⟩,
    .send 1 [7] true]

theorem sameStream_twoClients :
    ∃ s t, netMachine.exec .start twoClients = some s ∧
      netMachine.exec .start (twoClients.filter fun a => !foreignElsewhere 5 1 a) = some t ∧
      SameStream 1 s t := by
  have hown : ∀ s : NetServer, ReadsOwn s ⟨[0, 0, 0, 1], 5, 40, 2⟩ := fun _ _ _ _ _ => rfl
  have hpath : netMachine.Path (Addressed 1) .start twoClients _ :=
    .cons trivial rfl (.cons trivial rfl (.cons ⟨by decide, .inr rfl, fun _ => hown _⟩ rfl
      (.cons ⟨by decide, .inr rfl, fun h => absurd h (by decide)⟩ rfl (.cons trivial rfl .nil))))
  have hpath' : netMachine.Path (Addressed 1) .start
      (twoClients.filter fun a => !foreignElsewhere 5 1 a) _ :=
    .cons trivial rfl (.cons trivial rfl (.cons ⟨by decide, .inr rfl, fun _ => hown _⟩ rfl
      (.cons trivial rfl .nil)))
  exact ⟨_, _, hpath.exec, hpath'.exec, sameStream_of_deleted hpath hpath'⟩

/-- A stranger's datagram with the id of a client comes before the client's own. -/
def stranger : List NetAction := [.accept 5, .datagram ⟨[0, 0, 0, 1], 6, 41, 2⟩, .send 1 [7] true]

theorem stream_redirected :
    ∃ s t, netMachine.exec .start stranger = some s ∧
      netMachine.exec .start (stranger.filter fun a => !foreign 5 a) = some t ∧
      s.tcpTable 1 = some 5 ∧ ¬SameStream 1 s t := by
  have hs : (netMachine.exec .start stranger).map (fun s => (s.tcpTable 1, s.sent 1)) =
      some (some 5, [(.kcp 6 41 2, [7])]) := by
    decide +kernel
  have ht : (netMachine.exec .start (stranger.filter fun a => !foreign 5 a)).map
      (fun s => s.sent 1) = some [(.tcp, [7])] := by
    decide +kernel
  rcases Option.map_eq_some_iff.mp hs with ⟨s, hs, hout⟩
  rcases Option.map_eq_some_iff.mp ht with ⟨t, ht, hout'⟩
  simp only [Prod.mk.injEq] at hout
  refine ⟨s, t, hs, ht, hout.1, fun h => ?_⟩
  have hsent := h.1
  rw [hout.2, hout'] at hsent
  cases hsent

end Hprd.Net

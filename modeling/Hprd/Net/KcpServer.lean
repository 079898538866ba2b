import Hprd.Net.TcpClient
import Hprd.Net.Kcp.IkcpFlush

/-!
# Datagrams at `_kcp_server_thread`

The loop of `net/kcp_server.c` keeps its buffer and its `client` from one datagram to
the next. It reads the id out of the buffer whatever the length is, and when nobody
has the id it goes on with the client of the datagram before.
-/

namespace Hprd.Net

open Hprd.Core Kcp

/-- `htonl` on the target, as the four bytes in memory read back. -/
def htonl (w : UInt32) : UInt32 := UInt32.ofNat (ofLeBytes (be32 w))

/-- `struct kcp_server_client` -/
structure KcpServerClient where
  clientId : UInt32
  nip : UInt32
  nport : UInt16
  family : UInt16
  kcpContext : Ikcpcb

/-- No session is ever removed, so `client` and the table name one by its id. `handled` are the
calls of `server_on_pkg`. -/
structure KcpServer where
  udpBuf : Bytes
  clientTable : UInt32 → Option KcpServerClient
  client : Option UInt32
  exited : Bool
  handled : List (UInt32 × Bytes)

/-- What `recvfrom` gives, and what `server_has_client` answers while it is processed. -/
structure Datagram where
  data : Bytes
  nip : UInt32
  nport : UInt16
  family : UInt16
  hasClient : UInt32 → Bool

def udpBufSize : Nat := 2000

def Datagram.recvCount (d : Datagram) : Nat := min d.data.length udpBufSize

/-- The buffer after `recvfrom`. -/
def recvfrom (udpBuf : Bytes) (d : Datagram) : Bytes :=
  d.data.take udpBufSize ++ udpBuf.drop d.recvCount

def newClient (d : Datagram) (clientId : UInt32) : KcpServerClient where
  clientId := clientId
  nip := d.nip
  nport := d.nport
  family := d.family
  kcpContext := newContext (htonl clientId)

/-- The id that is looked up, if the loop goes on. -/
def lookedUp (s : KcpServer) (d : Datagram) : Option UInt32 :=
  if s.exited ∨ d.data = [] then none else some (ofBe32 ((recvfrom s.udpBuf d).take 4))

/-- The lookup, which may add a session. -/
def findSession (s : KcpServer) (d : Datagram) (clientId : UInt32) : KcpServer :=
  match s.clientTable clientId with
  | some _ => { s with client := some clientId }
  | none =>
      if d.hasClient clientId then
        { s with
          client := some clientId
          clientTable := Function.update s.clientTable clientId (some (newClient d clientId)) }
      else s

/-- The session behind `client` when `ikcp_input` is called, if it is called; the inner `none` is
a null pointer. -/
def handedTo (s : KcpServer) (d : Datagram) : Option (Option KcpServerClient) :=
  (lookedUp s d).map fun clientId =>
    let s := findSession s d clientId
    s.client.bind s.clientTable

/-- The loop of `_kcp_recvdata`; every turn takes a segment at least. -/
def kcpRecvdata : Nat → Ikcpcb → List Bytes × Ikcpcb
  | 0, kcp => ([], kcp)
  | fuel + 1, kcp =>
      let (recvCount, buf, kcp) := ikcpRecv kcp bufLen
      if 0 < recvCount then
        let (bufs, kcp) := kcpRecvdata fuel kcp
        (buf :: bufs, kcp)
      else ([], kcp)

/-- One turn of the loop. A null pointer and a read behind `udp_buf` have no value. -/
def kcpServerStep (s : KcpServer) (d : Datagram) : Option KcpServer :=
  if s.exited then none
  else
    match lookedUp s d with
    | none => some { s with exited := true }
    | some clientId => do
        let s := findSession { s with udpBuf := recvfrom s.udpBuf d } d clientId
        let id ← s.client
        let client ← s.clientTable id
        let (_, kcp) ← ikcpInput client.kcpContext s.udpBuf d.recvCount
        let (bufs, kcp) := kcpRecvdata (kcp.rcvQueue.length + kcp.rcvBuf.length) kcp
        return { s with
          clientTable := Function.update s.clientTable id (some { client with kcpContext := kcp })
          handled := s.handled ++ bufs.map fun buf => (id, buf) }

def kcpServerMachine : Machine KcpServer Datagram where
  init s := s = ⟨List.replicate udpBufSize 0, fun _ => none, none, false, []⟩
  step := kcpServerStep

def Datagram.id (d : Datagram) : UInt32 := ofBe32 (d.data.take 4)

/-- Only the datagram's own four bytes are looked up, it is handed only to the session with that
id, and a datagram that nobody has the id of is handed to none and changes none. -/
structure RoutesRight (s : KcpServer) (d : Datagram) : Prop where
  lookedUp : ∀ clientId, lookedUp s d = some clientId → 4 ≤ d.data.length ∧ clientId = d.id
  handed : ∀ p, handedTo s d = some p →
    4 ≤ d.data.length ∧ ∃ client, p = some client ∧ client.clientId = d.id
  unknown : 4 ≤ d.data.length → s.clientTable d.id = none → d.hasClient d.id = false →
    handedTo s d = none ∧ ∀ s', kcpServerStep s d = some s' →
      s'.clientTable = s.clientTable ∧ s'.handled = s.handled

/-- The thread has ended, the datagram is empty, or it has an id of a session or a TCP client. -/
def Routable (s : KcpServer) (d : Datagram) : Prop :=
  s.exited = true ∨ d.data = [] ∨
    4 ≤ d.data.length ∧ (s.clientTable d.id ≠ none ∨ d.hasClient d.id = true)

/-! ## Reachable states -/

section

variable {s s' : KcpServer} {d : Datagram}

/-- A session is found under its own id, and `client` is one. -/
structure SessionInv (s : KcpServer) : Prop where
  keyed : ∀ id client, s.clientTable id = some client → client.clientId = id
  client : ∀ id, s.client = some id → s.clientTable id ≠ none

theorem SessionInv.findSession (h : SessionInv s) (clientId : UInt32) :
    SessionInv (findSession s d clientId) := by
  unfold Net.findSession
  split
  · next client hfound =>
      refine ⟨h.keyed, fun id hid => ?_⟩
      cases hid
      rw [hfound]
      exact Option.some_ne_none _
  · next hmiss =>
      split
      · refine ⟨fun id client hid => ?_, fun id hid => ?_⟩
        · dsimp only at hid
          by_cases he : id = clientId
          · rw [he, Function.update_self] at hid
            cases hid
            exact he.symm
          · rw [Function.update_of_ne he] at hid
            exact h.keyed id client hid
        · cases hid
          dsimp only
          rw [Function.update_self]
          exact Option.some_ne_none _
      · exact h

theorem SessionInv.step (h : SessionInv s) (hs : kcpServerStep s d = some s') :
    SessionInv s' := by
  unfold kcpServerStep at hs
  split at hs
  · cases hs
  · split at hs
    · cases hs
      exact ⟨h.keyed, h.client⟩
    · next clientId _ =>
        have hbuf : SessionInv { s with udpBuf := recvfrom s.udpBuf d } := ⟨h.keyed, h.client⟩
        have hfound := hbuf.findSession (d := d) clientId
        revert hs
        generalize Net.findSession { s with udpBuf := recvfrom s.udpBuf d } d clientId = t at *
        intro hs
        simp only [Option.bind_eq_bind, Option.bind_eq_some_iff] at hs
        obtain ⟨id, hid, client, hclient, ⟨ret, kcp⟩, -, hout⟩ := hs
        simp only [Option.pure_def, Option.some.injEq] at hout
        subst hout
        refine ⟨fun id' client' hid' => ?_, fun id' hid' => ?_⟩
        · dsimp only at hid'
          by_cases he : id' = id
          · rw [he, Function.update_self] at hid'
            cases hid'
            rw [he]
            exact hfound.keyed id client hclient
          · rw [Function.update_of_ne he] at hid'
            exact hfound.keyed id' client' hid'
        · dsimp only
          by_cases he : id' = id
          · rw [he, Function.update_self]
            exact Option.some_ne_none _
          · rw [Function.update_of_ne he]
            exact hfound.client id' hid'

theorem SessionInv.of_reachable (h : kcpServerMachine.Reachable s) : SessionInv s := by
  refine Machine.Run.invariant (P := SessionInv) ?_ (fun _ _ _ hi _ hs => hi.step hs) h
  rintro _ rfl
  exact ⟨(fun _ _ hid => by cases hid), (fun _ hid => by cases hid)⟩

/-! ## One datagram -/

theorem lookedUp_of_le (h : 4 ≤ d.data.length) (hrun : s.exited = false) :
    lookedUp s d = some d.id := by
  have hne : d.data ≠ [] := by
    intro hnil
    rw [hnil] at h
    exact absurd h (by decide)
  have htake : (recvfrom s.udpBuf d).take 4 = d.data.take 4 := by
    rw [recvfrom, List.take_append_of_le_length, List.take_take]
    · rfl
    · rw [List.length_take]
      unfold udpBufSize
      omega
  rw [lookedUp, if_neg (by simp [hrun, hne]), htake]
  rfl

theorem routesRight_of_none (h : lookedUp s d = none) : RoutesRight s d := by
  have hhanded : handedTo s d = none := by
    rw [handedTo, h]
    rfl
  refine ⟨fun _ hid => ?_, fun _ hp => ?_, fun _ _ _ => ⟨hhanded, fun s' hs => ?_⟩⟩
  · rw [h] at hid
    cases hid
  · rw [hhanded] at hp
    cases hp
  · rw [kcpServerStep, h] at hs
    split at hs
    · cases hs
    · cases hs
      exact ⟨rfl, rfl⟩

/-- With an id that somebody has, the session is the one with that id. -/
theorem handedTo_of_known (h : SessionInv s) (hlook : lookedUp s d = some d.id)
    (hknown : s.clientTable d.id ≠ none ∨ d.hasClient d.id = true) :
    ∃ client, handedTo s d = some (some client) ∧ client.clientId = d.id := by
  have hfound := h.findSession (d := d) d.id
  have hclient : (findSession s d d.id).client = some d.id := by
    unfold findSession
    split
    · rfl
    · next hmiss => rw [if_pos (hknown.resolve_left fun hne => hne hmiss)]
  cases htable : (findSession s d d.id).clientTable d.id with
  | none => exact absurd htable (hfound.client _ hclient)
  | some client =>
      refine ⟨client, ?_, hfound.keyed _ _ htable⟩
      rw [handedTo, hlook, Option.map_some]
      dsimp only
      rw [hclient, Option.bind_some, htable]

/-- Each datagram goes where its own id says exactly when it is routable. -/
theorem routesRight_iff (h : kcpServerMachine.Reachable s) :
    RoutesRight s d ↔ Routable s d := by
  have hinv := SessionInv.of_reachable h
  by_cases hidle : s.exited ∨ d.data = []
  · have hlook : lookedUp s d = none := by rw [lookedUp, if_pos hidle]
    refine iff_of_true (routesRight_of_none hlook) ?_
    rcases hidle with hexit | hempty
    · exact Or.inl hexit
    · exact Or.inr (Or.inl hempty)
  · obtain ⟨hrun, hne⟩ := not_or.mp hidle
    constructor
    · intro hr
      have hlook : lookedUp s d = some (ofBe32 ((recvfrom s.udpBuf d).take 4)) := by
        rw [lookedUp, if_neg hidle]
      have hlen := (hr.lookedUp _ hlook).1
      refine Or.inr (Or.inr ⟨hlen, ?_⟩)
      by_contra hnobody
      rw [not_or, not_not, Bool.not_eq_true] at hnobody
      have hhanded := (hr.unknown hlen hnobody.1 hnobody.2).1
      rw [handedTo, hlook] at hhanded
      cases hhanded
    · rintro (hexit | hempty | ⟨hlen, hknown⟩)
      · exact absurd hexit hrun
      · exact absurd hempty hne
      · have hlook := lookedUp_of_le hlen (by simpa using hrun)
        obtain ⟨client, hhanded, hid⟩ := handedTo_of_known hinv hlook hknown
        refine ⟨fun _ hid => ?_, fun p hp => ?_, fun _ hmiss hno => ?_⟩
        · rw [hlook] at hid
          cases hid
          exact ⟨hlen, rfl⟩
        · rw [hhanded] at hp
          cases hp
          exact ⟨hlen, client, rfl, hid⟩
        · rcases hknown with hin | hin
          · exact absurd hmiss hin
          · rw [hno] at hin
            cases hin

end

def kcpServerStart : KcpServer := ⟨List.replicate udpBufSize 0, fun _ => none, none, false, []⟩

/-- Four bytes from somewhere, with the TCP clients of the moment. -/
def fourBytes (data : Bytes) (hasClient : UInt32 → Bool) : Datagram :=
  ⟨data, 0, 0, 0, hasClient⟩

/-- Two sessions are open and the last datagram was for the second. A push for the first finds it,
although its client has no TCP connection any more. -/
theorem routesRight_twoSessions : ∃ s d, kcpServerMachine.Reachable s ∧ s.client = some 2 ∧
    d.data = encodeSegs [{ conv := htonl 1, cmd := cmdPush, data := [9] }] ∧
    d.hasClient 1 = false ∧ (handedTo s d).map (Option.map KcpServerClient.clientId) =
      some (some 1) ∧ RoutesRight s d := by
  obtain ⟨s, hs, hrun, hlast, hfirst⟩ : ∃ s, kcpServerMachine.exec kcpServerStart
      [fourBytes [0, 0, 0, 1] fun id => id == 1, fourBytes [0, 0, 0, 2] fun _ => true] = some s ∧
      s.exited = false ∧ s.client = some 2 ∧ (s.clientTable 1).isSome = true :=
    ⟨_, rfl, rfl, rfl, rfl⟩
  have hreach : kcpServerMachine.Reachable s := .exec (.start rfl) hs
  obtain ⟨client, hclient⟩ := Option.isSome_iff_exists.mp hfirst
  let d := fourBytes (encodeSegs [{ conv := htonl 1, cmd := cmdPush, data := [9] }]) fun _ => false
  have hid : d.id = 1 := by decide +kernel
  have hlen : 4 ≤ d.data.length := by decide +kernel
  have hknown : s.clientTable d.id ≠ none ∨ d.hasClient d.id = true :=
    Or.inl (by rw [hid, hclient]; exact Option.some_ne_none client)
  have hright : RoutesRight s d := (routesRight_iff hreach).mpr (Or.inr (Or.inr ⟨hlen, hknown⟩))
  obtain ⟨handed, hhanded, hhid⟩ :=
    handedTo_of_known (SessionInv.of_reachable hreach) (lookedUp_of_le hlen hrun) hknown
  refine ⟨s, d, hreach, hlast, rfl, rfl, ?_, hright⟩
  rw [hhanded, Option.map_some, Option.map_some, hhid, hid]

/-- A datagram with the id of nobody is handed to the session of the datagram before. -/
theorem handed_to_last_session : ∃ s, kcpServerMachine.Reachable s ∧
    (∃ client, handedTo s (fourBytes [0, 0, 0, 2] fun _ => false) = some (some client) ∧
      client.clientId = 1) ∧
    ¬RoutesRight s (fourBytes [0, 0, 0, 2] fun _ => false) := by
  obtain ⟨s, hs, client, hhanded, hid⟩ : ∃ s,
      kcpServerMachine.exec kcpServerStart [fourBytes [0, 0, 0, 1] fun _ => true] = some s ∧
      ∃ client, handedTo s (fourBytes [0, 0, 0, 2] fun _ => false) = some (some client) ∧
        client.clientId = 1 := ⟨_, rfl, _, rfl, rfl⟩
  refine ⟨s, Machine.Reachable.exec (.start rfl) hs, ⟨client, hhanded, hid⟩, fun hr => ?_⟩
  obtain ⟨-, c, hc, hcid⟩ := hr.handed _ hhanded
  cases hc
  rw [hid] at hcid
  exact absurd hcid (by decide)

end Hprd.Net

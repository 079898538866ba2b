import Hprd.Net.KcpServer
import Hprd.Net.Kcp.Delivery
import Hprd.Net.Kcp.Emission

/-!
# Many conversations at one server

The threads of `net/kcp_server.c` share a table of sessions, one for each client id,
and `_kcp_server_thread` finds the session of a datagram by its first four bytes. A
step is what one thread does while it holds `kcp_lock`, so that updates and sends of
other threads come between the input of a datagram and each `ikcp_recv` behind it.
-/

namespace Hprd.Net

open Hprd.Core Kcp

/-- `client` and the table are those of `KcpServer`, with the history of each session; `draining`
is set while the thread is in `_kcp_recvdata`. -/
structure KcpHost where
  udpBuf : Bytes
  clientTable : UInt32 → Option Endpoint
  client : Option UInt32
  draining : Bool
  handled : List (UInt32 × Bytes)

def newSession (clientId : UInt32) : Endpoint := { kcp := newContext (htonl clientId) }

namespace KcpHost

def start : KcpHost := ⟨List.replicate udpBufSize 0, fun _ => none, none, false, []⟩

/-- The session of an id, also before it is opened. -/
def session (h : KcpHost) (id : UInt32) : Endpoint := (h.clientTable id).getD (newSession id)

def setSession (h : KcpHost) (id : UInt32) (e : Endpoint) : KcpHost :=
  { h with clientTable := Function.update h.clientTable id (some e) }

/-- The lookup in `_kcp_server_thread`, which may add a session. -/
def findSession (h : KcpHost) (d : Datagram) (clientId : UInt32) : KcpHost :=
  match h.clientTable clientId with
  | some _ => { h with client := some clientId }
  | none =>
      if d.hasClient clientId then
        { h.setSession clientId (newSession clientId) with client := some clientId }
      else h

/-- `recvfrom`, the lookup and `ikcp_input`. -/
def datagram (h : KcpHost) (d : Datagram) : Option KcpHost :=
  if h.draining then none
  else
    let udpBuf := recvfrom h.udpBuf d
    let h := { h with udpBuf := udpBuf }.findSession d (ofBe32 (udpBuf.take 4))
    h.client.bind fun id => (h.clientTable id).bind fun e =>
    (ikcpInput e.kcp udpBuf d.recvCount).map fun (_, kcp) =>
      { h.setSession id (e.become kcp []) with draining := true }

def recv (h : KcpHost) : Option KcpHost :=
  if h.draining then
    h.client.bind fun id => (h.clientTable id).map fun e =>
      let (recvCount, buf, _) := ikcpRecv e.kcp bufLen
      { h.setSession id (e.recv bufLen) with
        draining := 0 < recvCount
        handled := if 0 < recvCount then h.handled ++ [(id, buf)] else h.handled }
  else none

def onSession (h : KcpHost) (id : UInt32) (call : Endpoint → Endpoint) : Option KcpHost :=
  (h.clientTable id).map fun e => h.setSession id (call e)

def handledOf (h : KcpHost) (id : UInt32) : List Bytes :=
  (h.handled.filter fun call => call.1 = id).map Prod.snd

end KcpHost

/-- The clients by their ids, each with all the datagrams it has ever output, and the server. -/
structure KcpNet where
  clients : UInt32 → Endpoint
  host : KcpHost

/-- `datagram id i` is the `i`-th datagram that client `id` has ever output, from some address and
with the answers that `server_has_client` would give. -/
inductive KcpNetAction where
  | client (id : UInt32) (a : CallAction)
  | datagram (id : UInt32) (i : Nat) (nip : UInt32) (nport family : UInt16)
      (hasClient : UInt32 → Bool)
  | recv
  | update (id current : UInt32)
  | sendPkt (id : UInt32) (buf : Bytes)

namespace KcpNet

def step (s : KcpNet) : KcpNetAction → Option KcpNet
  | .client id a => ((s.clients id).step (s.host.session id) a).map fun e =>
      { s with clients := Function.update s.clients id e }
  | .datagram id i nip nport family hasClient => (s.clients id).out[i]?.bind fun p =>
      (s.host.datagram ⟨encodeSegs p.segs, nip, nport, family, hasClient⟩).map fun host =>
        { s with host := host }
  | .recv => s.host.recv.map fun host => { s with host := host }
  | .update id current => (s.host.onSession id (·.update current)).map fun host =>
      { s with host := host }
  | .sendPkt id buf => (s.host.onSession id (·.sendPkt buf)).map fun host =>
      { s with host := host }

/-- What lies in `udp_buf` behind a datagram. -/
def behind (s : KcpNet) (id : UInt32) (i : Nat) : Bytes :=
  s.host.udpBuf.drop ((s.clients id).out[i]?.elim 0 fun p => (encodeSegs p.segs).length)

/-- A datagram that is delivered ends the loop of `ikcp_input` and is not too old. -/
def Timely (s : KcpNet) : KcpNetAction → Prop
  | .client id a => a.Timely (s.clients id) (s.host.session id)
  | .datagram id i _ _ _ _ =>
      CallAction.Timely (s.host.session id) (s.clients id) (.deliver i (s.behind id i))
  | _ => True

def conversation (s : KcpNet) (id : UInt32) : Conversation
  | .client => s.clients id
  | .server => s.host.session id

end KcpNet

def kcpNetMachine : Machine KcpNet KcpNetAction where
  init s := s = ⟨newSession, .start⟩
  step := KcpNet.step

section

variable {h h' : KcpHost} {s t : KcpNet} {id : UInt32} {d : Datagram}

/-! ## The session of a datagram -/

theorem be32_of_htonl (w : UInt32) : encode32u (htonl w) = be32 w := by
  have hlen : (be32 w).length = 4 := be32_length w
  have hback := leBytes_ofLeBytes (be32 w)
  rw [hlen] at hback
  have hlt : ofLeBytes (be32 w) < 2 ^ 32 := by
    have := ofLeBytes_lt (be32 w)
    rwa [hlen] at this
  rw [encode32u, htonl, UInt32.toNat_ofNat', Nat.mod_eq_of_lt hlt, hback]

theorem take_encodeSegs {segs : List IkcpSeg} (hne : segs ≠ [])
    (hconv : ∀ seg ∈ segs, seg.conv = htonl id) : (encodeSegs segs).take 4 = be32 id := by
  obtain ⟨seg, rest, rfl⟩ := List.exists_cons_of_ne_nil hne
  have hhead : ∃ tail, encodeSegs (seg :: rest) = be32 id ++ tail := by
    rw [encodeSegs, List.map_cons, List.flatten_cons, encodeSeg, hconv seg (List.mem_cons_self ..),
      be32_of_htonl]
    simp only [List.append_assoc]
    exact ⟨_, rfl⟩
  obtain ⟨tail, htail⟩ := hhead
  rw [htail, List.take_append_of_le_length (be32_length id).ge, List.take_of_length_le
    (be32_length id).le]

theorem htonl_injective : Function.Injective htonl := fun v w heq => by
  have hbytes := congrArg encode32u heq
  rw [be32_of_htonl, be32_of_htonl] at hbytes
  exact be32_injective hbytes

theorem ikcpInput_foreign {kcp : Ikcpcb} {segs : List IkcpSeg} (hne : segs ≠ [])
    (hconv : ∀ seg ∈ segs, seg.conv = htonl id) (hother : kcp.conv ≠ htonl id) (rest : Bytes) :
    ikcpInput kcp (encodeSegs segs ++ rest) (encodeSegs segs).length = some (-1, kcp) := by
  obtain ⟨seg, segs, rfl⟩ := List.exists_cons_of_ne_nil hne
  have hlen := encodeSegs_length (seg :: segs)
  rw [List.length_cons] at hlen
  have hdecode : ∃ tail, decode32u (encodeSegs (seg :: segs) ++ rest) = some (htonl id, tail) := by
    rw [encodeSegs, List.map_cons, List.flatten_cons, encodeSeg, hconv seg (List.mem_cons_self ..)]
    simp only [List.append_assoc]
    exact ⟨_, decode32u_encode32u ..⟩
  obtain ⟨tail, htail⟩ := hdecode
  rw [ikcpInput, if_neg (by unfold overhead; omega), inputLoop, dif_neg (by unfold overhead; omega),
    htail]
  dsimp only
  rw [if_pos hother.symm]
  rfl

namespace KcpHost

theorem session_setSession (h : KcpHost) (id : UInt32) (e : Endpoint) :
    (h.setSession id e).session = Function.update h.session id e := by
  funext id'
  show (Function.update h.clientTable id (some e) id').getD (newSession id') = _
  by_cases heq : id' = id
  · rw [heq, Function.update_self, Function.update_self]
    rfl
  · rw [Function.update_of_ne heq, Function.update_of_ne heq]
    rfl

theorem session_of_some {e : Endpoint} (htable : h.clientTable id = some e) : h.session id = e := by
  rw [session, htable]
  rfl

/-- Opening a session changes nothing that a client could see. -/
theorem findSession_spec (h : KcpHost) (d : Datagram) (id : UInt32) :
    (h.findSession d id).session = h.session ∧ (h.findSession d id).udpBuf = h.udpBuf ∧
      (h.findSession d id).handled = h.handled ∧
      ((h.findSession d id).client = some id ∨ h.clientTable id = none ∧ h.findSession d id = h) := by
  unfold findSession
  split
  · exact ⟨rfl, rfl, rfl, .inl rfl⟩
  next hnone =>
    split
    · refine ⟨?_, rfl, rfl, .inl rfl⟩
      have hsame : newSession id = h.session id := by
        rw [session, hnone]
        rfl
      show (h.setSession id (newSession id)).session = _
      rw [session_setSession, hsame, Function.update_eq_self]
    · exact ⟨rfl, rfl, rfl, .inr ⟨hnone, rfl⟩⟩

end KcpHost

theorem Kcp.Endpoint.become_self (e : Endpoint) : e.become e.kcp [] = e := by
  unfold Endpoint.become
  dsimp only
  rw [UInt32.sub_self, UInt32.sub_self, List.map_nil, List.append_nil]
  rfl

namespace KcpHost

theorem datagram_spec {p : Packet} (hne : p.segs ≠ [])
    (hconv : ∀ seg ∈ p.segs, seg.conv = htonl id) (hshort : (encodeSegs p.segs).length ≤ 2000)
    (hsessions : ∀ id', (h.session id').kcp.conv = htonl id') (hdata : d.data = encodeSegs p.segs)
    (hs : h.datagram d = some h') : h'.handled = h.handled ∧ (h'.session = h.session ∨
      ∃ e, (h.session id).input p (h.udpBuf.drop (encodeSegs p.segs).length) = some e ∧
        h'.session = Function.update h.session id e) := by
  have hcount : d.recvCount = (encodeSegs p.segs).length := by
    rw [Datagram.recvCount, hdata]
    exact Nat.min_eq_left hshort
  have hbuf : recvfrom h.udpBuf d =
      encodeSegs p.segs ++ h.udpBuf.drop (encodeSegs p.segs).length := by
    have htake : (encodeSegs p.segs).take udpBufSize = encodeSegs p.segs :=
      List.take_of_length_le hshort
    rw [recvfrom, hcount, hdata, htake]
  have hid : ofBe32 ((recvfrom h.udpBuf d).take 4) = id := by
    have hfour := take_encodeSegs hne hconv
    have hlong : 4 ≤ (encodeSegs p.segs).length := by
      have hlen := congrArg List.length hfour
      rw [List.length_take, be32_length] at hlen
      omega
    rw [hbuf, List.take_append_of_le_length hlong, hfour, ofBe32_be32]
  unfold datagram at hs
  split at hs
  · cases hs
  · dsimp only at hs
    rw [hid, hcount] at hs
    obtain ⟨hsession, hudp, hhandled, hclient⟩ :=
      findSession_spec { h with udpBuf := recvfrom h.udpBuf d } d id
    generalize ({ h with udpBuf := recvfrom h.udpBuf d } : KcpHost).findSession d id = found at *
    obtain ⟨id', hid', hs⟩ := Option.bind_eq_some_iff.mp hs
    obtain ⟨e, he, hs⟩ := Option.bind_eq_some_iff.mp hs
    obtain ⟨⟨ret, kcp⟩, hinput, rfl⟩ := Option.map_eq_some_iff.mp hs
    refine ⟨hhandled, ?_⟩
    have hnext : ({ found.setSession id' (e.become kcp []) with draining := true } : KcpHost).session =
        Function.update h.session id' (e.become kcp []) := by
      rw [show h.session = found.session from hsession.symm]
      exact session_setSession ..
    have hself : h.session id' = e := (congrFun hsession id').symm.trans (session_of_some he)
    rw [hnext]
    rw [hbuf] at hinput
    by_cases heq : id' = id
    · subst heq
      refine .inr ⟨e.become kcp [], ?_, rfl⟩
      rw [hself, Endpoint.input, hinput]
      rfl
    · left
      have hforeign : e.kcp.conv ≠ htonl id := by
        rw [← hself, hsessions id']
        exact fun hsame => heq (htonl_injective hsame)
      rw [ikcpInput_foreign hne hconv hforeign] at hinput
      cases hinput
      rw [Kcp.Endpoint.become_self, ← hself, Function.update_eq_self]

theorem recv_spec (hs : h.recv = some h') : ∃ id,
    h'.session = Function.update h.session id ((h.session id).recv bufLen) ∧ h'.handled =
      if 0 < (ikcpRecv (h.session id).kcp bufLen).1 then
        h.handled ++ [(id, (ikcpRecv (h.session id).kcp bufLen).2.1)]
      else h.handled := by
  obtain ⟨-, hs⟩ := Option.ite_none_right_eq_some.mp hs
  obtain ⟨id, -, hs⟩ := Option.bind_eq_some_iff.mp hs
  obtain ⟨e, he, rfl⟩ := Option.map_eq_some_iff.mp hs
  refine ⟨id, ?_, ?_⟩
  · rw [session_of_some he]
    exact session_setSession ..
  · rw [session_of_some he]

theorem onSession_spec {call : Endpoint → Endpoint} (hs : h.onSession id call = some h') :
    h'.session = Function.update h.session id (call (h.session id)) ∧ h'.handled = h.handled := by
  obtain ⟨e, he, rfl⟩ := Option.map_eq_some_iff.mp hs
  rw [session_of_some he, session_setSession]
  exact ⟨rfl, rfl⟩

end KcpHost

/-! ## Sizes -/

/-- What an end has output fits the buffer of the other. -/
def Kcp.Endpoint.Short (x : Endpoint) : Prop := ∀ p ∈ x.out, (encodeSegs p.segs).length ≤ 1402

section

variable {x x' y : Endpoint} {kcp : Ikcpcb} {conv : UInt32}

theorem Kcp.Endpoint.Short.become (h : x.Short) {datagrams : List (List IkcpSeg)}
    (hout : ∀ d ∈ datagrams, (encodeSegs d).length ≤ 1402) : (x.become kcp datagrams).Short := by
  intro p hp
  rcases List.mem_append.mp hp with hp | hp
  · exact h p hp
  · obtain ⟨segs, hsegs, rfl⟩ := List.mem_map.mp hp
    exact hout segs hsegs

theorem Kcp.Endpoint.Short.flush (h : x.Short) (hc : Context x.kcp) : x.flush.Short :=
  h.become hc.flush_short

theorem Kcp.Endpoint.Short.queue (h : x.Short) (buffer : Bytes) : (x.queue buffer).Short := by
  have hout : (x.queue buffer).out = x.out := rfl
  intro p hp
  rw [hout] at hp
  exact h p hp

theorem Kcp.Endpoint.Short.step {a : CallAction} (h : x.Short) (hproper : Proper conv x)
    (hs : x.step y a = some x') : x'.Short := by
  cases a with
  | sendPkt buf =>
      cases hs
      unfold Endpoint.sendPkt
      split
      · exact h.queue buf
      · exact (h.queue buf).flush (hproper.queue buf).windowed.context
  | update current =>
      cases hs
      obtain ⟨kcp, hflow, hkeeps, heq⟩ := x.update_eq current
      have hkcp : ({ x with kcp := kcp } : Endpoint).Short := h
      rcases heq with heq | heq
      · rw [heq]
        exact hkcp.flush (hproper.windowed.context.keeps hkeeps)
      · rw [heq]
        exact hkcp
  | deliver i after =>
      obtain ⟨p, -, hin⟩ := Option.bind_eq_some_iff.mp hs
      obtain ⟨⟨ret, kcp⟩, -, rfl⟩ := Option.map_eq_some_iff.mp hin
      exact h.become nofun
  | recv len =>
      cases hs
      have hout : (x.recv len).out = x.out := List.append_nil _
      intro p hp
      rw [hout] at hp
      exact h p hp

end

/-! ## What is handled -/

theorem Kcp.Endpoint.update_got (x : Endpoint) (current : UInt32) :
    (x.update current).got = x.got := rfl

theorem Kcp.Endpoint.sendPkt_got (x : Endpoint) (buf : Bytes) : (x.sendPkt buf).got = x.got := by
  unfold Endpoint.sendPkt
  split
  · rfl
  · rfl

theorem Kcp.Endpoint.input_got {x x' : Endpoint} {p : Packet} {after : Bytes}
    (hs : x.input p after = some x') : x'.got = x.got := by
  obtain ⟨⟨ret, kcp⟩, -, rfl⟩ := Option.map_eq_some_iff.mp hs
  rfl

theorem Kcp.Endpoint.recv_got_nonempty (x : Endpoint) (len : Nat) :
    (x.recv len).got.filter (· ≠ []) = x.got.filter (· ≠ []) ++
      if 0 < (ikcpRecv x.kcp len).1 then [(ikcpRecv x.kcp len).2.1] else [] := by
  have hgot : (x.recv len).got = if 0 ≤ (ikcpRecv x.kcp len).1 then
      x.got ++ [(ikcpRecv x.kcp len).2.1] else x.got := rfl
  rw [hgot]
  rcases ikcpRecv_cases x.kcp len with ⟨hneg, -⟩ | ⟨-, -, hret, hbuf, -⟩
  · rw [if_neg (by omega), if_neg (by omega), List.append_nil]
  · rw [hret, hbuf, if_pos (Int.natCast_nonneg _), List.filter_append]
    congr 1
    cases hmsg : messageData (firstMessage x.kcp.rcvQueue).1 with
    | nil => rfl
    | cons b msg =>
        have hlen : (0 : Int) < (b :: msg).length := by
          rw [List.length_cons]
          omega
        rw [if_pos hlen]
        rfl

/-! ## Runs -/

namespace KcpNet

/-- Both ends of every conversation are set up for its id. -/
structure Inv (s : KcpNet) : Prop where
  proper : ∀ id side, Proper (htonl id) (s.conversation id side)
  short : ∀ id, (s.clients id).Short

/-- One end of one conversation becomes another. -/
def Becomes (s t : KcpNet) (id : UInt32) (side : Side) (x' : Endpoint) : Prop :=
  ∀ id', t.conversation id' =
    if id' = id then Function.update (s.conversation id) side x' else s.conversation id'

theorem becomes_client (s : KcpNet) (id : UInt32) (e : Endpoint) :
    Becomes s { s with clients := Function.update s.clients id e } id .client e := by
  intro id'
  by_cases heq : id' = id
  · subst heq
    rw [if_pos rfl]
    funext side
    cases side with
    | client => exact Function.update_self ..
    | server => rfl
  · rw [if_neg heq]
    funext side
    cases side with
    | client => exact Function.update_of_ne heq ..
    | server => rfl

theorem becomes_server (s : KcpNet) {host : KcpHost} {e : Endpoint}
    (hsession : host.session = Function.update s.host.session id e) :
    Becomes s { s with host := host } id .server e := by
  intro id'
  have hserver := congrFun hsession id'
  by_cases heq : id' = id
  · subst heq
    rw [if_pos rfl]
    funext side
    cases side with
    | client => rfl
    | server => exact hserver.trans (Function.update_self ..)
  · rw [if_neg heq]
    funext side
    cases side with
    | client => rfl
    | server => exact hserver.trans (Function.update_of_ne heq ..)

/-- A step is a call of one end of one conversation, or changes none. -/
theorem Inv.calls {a : KcpNetAction} (h : Inv s) (hs : s.step a = some t) :
    (∀ id, t.conversation id = s.conversation id) ∨ ∃ id side b x',
      (s.conversation id side).step (s.conversation id side.other) b = some x' ∧
      (s.Timely a → b.Timely (s.conversation id side) (s.conversation id side.other)) ∧
      Becomes s t id side x' := by
  cases a with
  | client id a =>
      obtain ⟨e, he, rfl⟩ := Option.map_eq_some_iff.mp hs
      exact .inr ⟨id, .client, a, e, he, fun ha => ha, becomes_client s id e⟩
  | datagram id i nip nport family hasClient =>
      obtain ⟨p, hp, hs⟩ := Option.bind_eq_some_iff.mp hs
      obtain ⟨host, hhost, rfl⟩ := Option.map_eq_some_iff.mp hs
      have hmem : p ∈ (s.clients id).out := List.mem_of_getElem? hp
      obtain ⟨hne, hsend⟩ := (h.proper id .client).out p hmem
      obtain ⟨-, hcase⟩ := KcpHost.datagram_spec hne (fun seg hseg => (hsend seg hseg).conv)
        ((h.short id p hmem).trans (by decide)) (fun id' => (h.proper id' .server).conv_eq) rfl hhost
      rcases hcase with hsame | ⟨e, hinput, hsession⟩
      · left
        intro id'
        funext side
        cases side with
        | client => rfl
        | server => exact congrFun hsame id'
      · refine .inr ⟨id, .server, .deliver i (s.behind id i), e, ?_, fun ha => ha,
          becomes_server s hsession⟩
        show (s.clients id).out[i]?.bind (fun p => (s.host.session id).input p (s.behind id i)) = _
        rw [behind, hp]
        exact hinput
  | recv =>
      obtain ⟨host, hhost, rfl⟩ := Option.map_eq_some_iff.mp hs
      obtain ⟨id, hsession, -⟩ := KcpHost.recv_spec hhost
      exact .inr ⟨id, .server, .recv bufLen, _, rfl, fun _ => trivial, becomes_server s hsession⟩
  | update id current =>
      obtain ⟨host, hhost, rfl⟩ := Option.map_eq_some_iff.mp hs
      obtain ⟨hsession, -⟩ := KcpHost.onSession_spec hhost
      exact .inr ⟨id, .server, .update current, _, rfl, fun _ => trivial, becomes_server s hsession⟩
  | sendPkt id buf =>
      obtain ⟨host, hhost, rfl⟩ := Option.map_eq_some_iff.mp hs
      obtain ⟨hsession, -⟩ := KcpHost.onSession_spec hhost
      exact .inr ⟨id, .server, .sendPkt buf, _, rfl, fun _ => trivial, becomes_server s hsession⟩

theorem Inv.start : Inv ⟨newSession, .start⟩ := by
  refine ⟨fun id side => ?_, fun id p hp => absurd hp List.not_mem_nil⟩
  have hnew : Proper (htonl id) (newSession id) := ⟨Windowed.new _, rfl, nofun⟩
  cases side with
  | client => exact hnew
  | server => exact hnew

theorem Inv.step {a : KcpNetAction} (h : Inv s) (hs : s.step a = some t) : Inv t := by
  rcases h.calls hs with hsame | ⟨id, side, b, x', hx', -, hbecomes⟩
  · refine ⟨fun id side => ?_, fun id => ?_⟩
    · rw [hsame id]
      exact h.proper id side
    · rw [show t.clients id = s.clients id from congrFun (hsame id) .client]
      exact h.short id
  · refine ⟨fun id' side' => ?_, fun id' => ?_⟩
    · rw [hbecomes id']
      split
      next heq =>
        subst heq
        by_cases hside : side' = side
        · subst hside
          rw [Function.update_self]
          exact (h.proper id' side').step hx'
        · rw [Function.update_of_ne hside]
          exact h.proper id' side'
      · exact h.proper id' side'
    · have hclient : t.clients id' = t.conversation id' .client := rfl
      rw [hclient, hbecomes id']
      split
      next heq =>
        subst heq
        cases side with
        | client =>
            rw [Function.update_self]
            exact (h.short id').step (h.proper id' .client) hx'
        | server => exact h.short id'
      · exact h.short id'

theorem Inv.of_run (h : kcpNetMachine.Run Timely s) : Inv s := by
  refine Machine.Run.invariant ?_ (fun _ _ _ hi _ hs => hi.step hs) h
  rintro _ rfl
  exact Inv.start

/-- A run of the server and all its clients is a run of each conversation. -/
theorem run_conversation (h : kcpNetMachine.Run Timely s) (id : UInt32) :
    conversationMachine.Run Kcp.Timely (s.conversation id) := by
  refine h.project (fun s => s.conversation id) (fun s₀ hs₀ => ?_) fun s a t hrun ha hs => ?_
  · subst hs₀
    refine ⟨htonl id, ?_⟩
    funext side
    cases side <;> rfl
  · rcases (Inv.of_run hrun).calls hs with hsame | ⟨id', side, b, x', hx', htimely, hbecomes⟩
    · exact .inl (hsame id)
    · by_cases heq : id = id'
      · subst heq
        refine .inr ⟨(side, b), htimely ha, ?_⟩
        rw [hbecomes id, if_pos rfl]
        exact Option.map_eq_some_iff.mpr ⟨x', hx', rfl⟩
      · left
        rw [hbecomes id, if_neg heq]

/-- What is handled are the messages that have been received and are not empty. -/
theorem handledOf_eq (h : kcpNetMachine.Run Timely s) (id : UInt32) :
    s.host.handledOf id = (s.host.session id).got.filter (· ≠ []) := by
  induction h with
  | start hs =>
      subst hs
      rfl
  | @next s a t hrun _ hs ih =>
      have hkept : ∀ {host : KcpHost} {id' : UInt32} {e : Endpoint},
          host.handled = s.host.handled → e.got = (s.host.session id').got →
          host.session = Function.update s.host.session id' e →
          host.handledOf id = (host.session id).got.filter (· ≠ []) := by
        intro host id' e hhandled hgot hsession
        rw [KcpHost.handledOf, hhandled, hsession]
        refine Eq.trans ih ?_
        by_cases heq : id = id'
        · rw [heq, Function.update_self, hgot]
        · rw [Function.update_of_ne heq]
      cases a with
      | client id' a =>
          obtain ⟨e, -, rfl⟩ := Option.map_eq_some_iff.mp hs
          exact ih
      | datagram id' i nip nport family hasClient =>
          obtain ⟨p, hp, hs⟩ := Option.bind_eq_some_iff.mp hs
          obtain ⟨host, hhost, rfl⟩ := Option.map_eq_some_iff.mp hs
          have hinv := Inv.of_run hrun
          have hmem : p ∈ (s.clients id').out := List.mem_of_getElem? hp
          obtain ⟨hne, hsend⟩ := (hinv.proper id' .client).out p hmem
          obtain ⟨hhandled, hcase⟩ := KcpHost.datagram_spec hne
            (fun seg hseg => (hsend seg hseg).conv) ((hinv.short id' p hmem).trans (by decide))
            (fun id => (hinv.proper id .server).conv_eq) rfl hhost
          rcases hcase with hsame | ⟨e, hinput, hsession⟩
          · show host.handledOf id = (host.session id).got.filter (· ≠ [])
            rw [KcpHost.handledOf, hhandled, hsame]
            exact ih
          · exact hkept hhandled (Kcp.Endpoint.input_got hinput) hsession
      | recv =>
          obtain ⟨host, hhost, rfl⟩ := Option.map_eq_some_iff.mp hs
          obtain ⟨id', hsession, hhandled⟩ := KcpHost.recv_spec hhost
          show host.handledOf id = (host.session id).got.filter (· ≠ [])
          have hturn := Kcp.Endpoint.recv_got_nonempty (s.host.session id') bufLen
          rw [hsession, KcpHost.handledOf, hhandled]
          by_cases heq : id = id'
          · subst heq
            rw [Function.update_self, hturn, ← ih, KcpHost.handledOf]
            split
            · rw [List.filter_append, List.map_append, List.filter_cons_of_pos (by simp)]
              rfl
            · rw [List.append_nil]
          · rw [Function.update_of_ne heq, ← ih, KcpHost.handledOf]
            split
            · rw [List.filter_append, List.filter_cons_of_neg (by simpa using Ne.symm heq),
                List.filter_nil, List.append_nil]
            · rfl
      | update id' current =>
          obtain ⟨host, hhost, rfl⟩ := Option.map_eq_some_iff.mp hs
          obtain ⟨hsession, hhandled⟩ := KcpHost.onSession_spec hhost
          exact hkept hhandled (Kcp.Endpoint.update_got ..) hsession
      | sendPkt id' buf =>
          obtain ⟨host, hhost, rfl⟩ := Option.map_eq_some_iff.mp hs
          obtain ⟨hsession, hhandled⟩ := KcpHost.onSession_spec hhost
          exact hkept hhandled (Kcp.Endpoint.sendPkt_got ..) hsession

theorem handledOf_le_sent (h : kcpNetMachine.Run Timely s) (id : UInt32) :
    s.host.handledOf id <+: (s.clients id).sent.filter (· ≠ []) := by
  obtain ⟨up, hup⟩ := (Conversing.of_run (run_conversation h id)).linked .client
  rw [handledOf_eq h id]
  exact hup.recv.got.filter _

theorem got_le_sent (h : kcpNetMachine.Run Timely s) (id : UInt32) :
    (s.clients id).got <+: (s.host.session id).sent := by
  obtain ⟨down, hdown⟩ := (Conversing.of_run (run_conversation h id)).linked .server
  exact hdown.recv.got

/-- The packets of a client that the server handles are those it sent, in order, each once and
whole, and what the client receives is what was sent to it. -/
theorem handled_prefix_sent (h : kcpNetMachine.Run Timely s) (id : UInt32) :
    s.host.handledOf id <+: (s.clients id).sent.filter (· ≠ []) ∧
      (s.clients id).got <+: (s.host.session id).sent :=
  ⟨handledOf_le_sent h id, got_le_sent h id⟩

instance (s : KcpNet) : ∀ a : KcpNetAction, Decidable (s.Timely a)
  | .client id a => inferInstanceAs (Decidable (a.Timely (s.clients id) (s.host.session id)))
  | .datagram id i _ _ _ _ => inferInstanceAs (Decidable
      (CallAction.Timely (s.host.session id) (s.clients id) (.deliver i (s.behind id i))))
  | .recv => inferInstanceAs (Decidable True)
  | .update _ _ => inferInstanceAs (Decidable True)
  | .sendPkt _ _ => inferInstanceAs (Decidable True)

/-- Two clients that both send, a datagram that comes twice, and a packet for the first client, sent
while its own is being drained. -/
def exchange : List KcpNetAction :=
  [.client 1 (.update 1000), .client 2 (.update 1000), .client 1 (.sendPkt [7]),
    .client 2 (.sendPkt [8]), .datagram 2 0 0 0 0 fun _ => true, .recv, .update 2 1000, .recv,
    .datagram 1 0 0 0 0 fun _ => true, .sendPkt 1 [5, 6], .recv, .update 1 1000, .recv,
    .datagram 2 0 0 0 0 fun _ => false, .recv, .client 1 (.deliver 0 [9]),
    .client 1 (.recv bufLen)]

theorem handled_prefix_sent_exchange : ∃ s : KcpNet, kcpNetMachine.Run Timely s ∧
    s.host.handled = [(2, [8]), (1, [7])] ∧ (s.clients 1).got = [[5, 6]] ∧
    s.host.handledOf 1 <+: (s.clients 1).sent.filter (· ≠ []) ∧
    (s.clients 1).got <+: (s.host.session 1).sent := by
  have hrun : ((kcpNetMachine.guarded Timely).exec ⟨newSession, .start⟩ exchange).map
      (fun s => (s.host.handled, (s.clients 1).got)) =
      some ([(2, [8]), (1, [7])], [[5, 6]]) := by
    decide +kernel
  obtain ⟨s, hs, hview⟩ := Option.map_eq_some_iff.mp hrun
  obtain ⟨hhandled, hgot⟩ := Prod.mk.inj hview
  have htimely := Machine.run_of_exec hs rfl
  exact ⟨s, htimely, hhandled, hgot, handled_prefix_sent htimely 1⟩

end KcpNet

end

end Hprd.Net

import Hprd.Net.Kcp.Drain
import Hprd.Net.KcpSessions
import Hprd.Server.Seat

/-!
# Clients that control a server over a lossy network

Every client has the functions of `protocol_client.c` over its KCP conversation, and
the thread of `kcp_server.c` gives the packets of all of them to `on_server_pkt`, whose
responses go back the same way, between the packets of `bradcast_video`. Seen from its
ends this is a machine without a network, in which the calls of each client work on
the seat one after the other.
-/

namespace Hprd.Server

open Hprd.Core Common Input Clients Net Net.Kcp

/-- What the main thread does to `cap_obj` and `in_obj`. -/
inductive MainAction where
  | capture (capObj : Option CaptureObj)
  | openInput (rootWin : Bool)
  | closeInput

def MainAction.pktAction : MainAction → PktAction
  | capture capObj => .capture capObj
  | openInput rootWin => .openInput rootWin
  | closeInput => .closeInput

/-- `server` is `none` once a packet was read behind its end, or copied behind the end of a buffer.
`replies` are the responses that `on_server_pkt` has still to send; `calls` and `effects` are
bookkeeping. -/
structure Remote where
  net : KcpNet
  pkts : UInt32 → ClientPkts
  server : Option ServerState
  replies : List (UInt32 × Bytes)
  calls : UInt32 → List ClientCall
  effects : List (UInt32 × PktEffect)

/-- A call of a client, a step of another thread of a client, a datagram, a turn of `_kcp_recvdata`
with the `priv` of the session and the stack of `on_request`, the `server_send_event` behind it, and
what other threads of the server do. -/
inductive RemoteAction where
  | call (id : UInt32) (c : ClientCall)
  | client (id : UInt32) (a : CallAction)
  | datagram (id : UInt32) (i : Nat) (nip : UInt32) (nport family : UInt16)
      (hasClient : UInt32 → Bool)
  | recv (client : NetClient) (stack : ResponseEvent)
  | reply
  | update (id current : UInt32)
  | bradcast (id : UInt32) (data : Bytes)
  | main (a : MainAction)

instance : DecidablePred CallAction.Quiet
  | .sendPkt _ => inferInstanceAs (Decidable False)
  | .update _ => inferInstanceAs (Decidable True)
  | .deliver .. => inferInstanceAs (Decidable True)
  | .recv _ => inferInstanceAs (Decidable True)

namespace Remote

def start : Remote where
  net := ⟨newSession, .start⟩
  pkts _ := {}
  server := some ⟨⟨minBitRate, 58, none⟩, none⟩
  replies := []
  calls _ := []
  effects := []

/-- `server_on_pkg` of the packet that a turn has received, if it has. -/
def handle (s : Remote) (client : NetClient) (stack : ResponseEvent) (net : KcpNet) :
    Option Remote :=
  match net.host.handled.drop s.net.host.handled.length with
  | [] => some { s with net := net }
  | (id, pkt) :: _ => s.server.map fun server =>
      match onServerPkt server client pkt stack with
      | none => { s with net := net, server := none }
      | some (server, out) =>
          { s with
            net := net
            server := some server
            replies := out.sent.map fun sent => (id, sent.2)
            effects := s.effects ++ [(id, out)] }

/-- The server's thread takes no datagram while it handles a packet. -/
def step (s : Remote) : RemoteAction → Option Remote
  | .call id c => do
      let (pkts, sent) ← (s.pkts id).call c
      let net ← sent.foldlM (fun net pkt => net.step (.client id (.sendPkt pkt))) s.net
      some { s with
        net := net
        pkts := Function.update s.pkts id pkts
        calls := Function.update s.calls id (s.calls id ++ if sent = [] then [] else [c]) }
  | .client id a =>
      if a.Quiet then (s.net.step (.client id a)).map fun net => { s with net := net } else none
  | .datagram id i nip nport family hasClient =>
      if s.replies = [] then
        (s.net.step (.datagram id i nip nport family hasClient)).map fun net =>
          { s with net := net }
      else none
  | .recv client stack =>
      if s.replies = [] then (s.net.step .recv).bind (s.handle client stack) else none
  | .reply =>
      match s.replies with
      | [] => none
      | (id, pkt) :: rest => (s.net.step (.sendPkt id pkt)).map fun net =>
          { s with net := net, replies := rest }
  | .update id current => (s.net.step (.update id current)).map fun net => { s with net := net }
  | .bradcast id data =>
      (s.net.step (.sendPkt id (dataPkt .video data))).map fun net => { s with net := net }
  | .main a => (s.server.bind fun server => pktStep server a.pktAction).map fun server =>
      { s with server := some server }

/-- The calls fit, and what is delivered ends the loop of `ikcp_input` and is not too old. -/
def Careful (s : Remote) : RemoteAction → Prop
  | .call _ c => c.Fits
  | .client id a => s.net.Timely (.client id a)
  | .datagram id i nip nport family hasClient =>
      s.net.Timely (.datagram id i nip nport family hasClient)
  | _ => True

end Remote

def remoteMachine : Machine Remote RemoteAction where
  init s := s = .start
  step := Remote.step

/-! ## Without a network -/

/-- `served` counts the calls of each client that have worked on the seat. -/
structure Direct where
  seat : Seat
  calls : UInt32 → List ClientCall
  served : UInt32 → Nat
  effects : List (UInt32 × PktEffect)

inductive DirectAction where
  | call (id : UInt32) (c : ClientCall)
  | serve (id : UInt32) (client : NetClient) (stack : ResponseEvent)
  | main (a : MainAction)

def Seat.main (seat : Seat) : MainAction → Seat
  | .capture capObj => { seat with globals := { seat.globals with capObj := capObj } }
  | .openInput rootWin => { seat with clipboard := some ⟨emptyType, [], rootWin⟩ }
  | .closeInput => { seat with clipboard := none }

/-- The next call of a client works on the seat. -/
def Direct.step (d : Direct) : DirectAction → Option Direct
  | .call id c => some { d with calls := Function.update d.calls id (d.calls id ++ [c]) }
  | .serve id client stack => (d.calls id)[d.served id]?.map fun c =>
      let (seat, out) := d.seat.apply client stack c
      { d with
        seat := seat
        served := Function.update d.served id (d.served id + 1)
        effects := d.effects ++ [(id, out)] }
  | .main a => some { d with seat := d.seat.main a }

def Direct.start : Direct := ⟨.start, fun _ => [], fun _ => 0, []⟩

def directMachine : Machine Direct DirectAction where
  init d := d = .start
  step := Direct.step

section

variable {s t : KcpNet} {x x' y : Endpoint} {id : UInt32} {buf : Bytes} {a : CallAction}

/-! ## What the ends have sent -/

theorem sent_of_quiet (ha : a.Quiet) (hs : x.step y a = some x') : x'.sent = x.sent := by
  cases a with
  | sendPkt buf => exact ha.elim
  | update current =>
      cases hs
      rfl
  | deliver i after =>
      obtain ⟨p, -, hin⟩ := Option.bind_eq_some_iff.mp hs
      obtain ⟨⟨ret, kcp⟩, -, rfl⟩ := Option.map_eq_some_iff.mp hin
      rfl
  | recv len =>
      cases hs
      rfl

theorem sent_sendPkt (x : Endpoint) (buf : Bytes) : (x.sendPkt buf).sent = (x.queue buf).sent := by
  unfold Endpoint.sendPkt
  split
  · rfl
  · rfl

/-- A packet goes out whole, cut or not at all. -/
theorem sent_sendPkt_cut (x : Endpoint) (buf : Bytes) :
    (x.sendPkt buf).sent = x.sent ∨ ∃ n, (x.sendPkt buf).sent = x.sent ++ [buf.take n] := by
  have hsent : (x.queue buf).sent = if 0 ≤ (ikcpSend x.kcp buf).1 then
      x.sent ++ [buf.take (ikcpSend x.kcp buf).1.toNat] else x.sent := rfl
  rw [sent_sendPkt, hsent]
  split
  · exact .inr ⟨_, rfl⟩
  · exact .inl rfl

theorem sent_sendPkt_whole (hc : Context x.kcp) (hlen : buf.length ≤ 8191 * 1376) :
    (x.sendPkt buf).sent = x.sent ++ [buf] := by
  have hsent : (x.queue buf).sent = if 0 ≤ (ikcpSend x.kcp buf).1 then
      x.sent ++ [buf.take (ikcpSend x.kcp buf).1.toNat] else x.sent := rfl
  rw [sent_sendPkt, hsent, hc.send_ret hlen, if_pos (Int.natCast_nonneg _), Int.toNat_natCast,
    List.take_length]

theorem sent_update_end {ends : UInt32 → Endpoint} {e : Endpoint} (h : e.sent = (ends id).sent)
    (id' : UInt32) : (Function.update ends id e id').sent = (ends id').sent := by
  by_cases heq : id' = id
  · subst heq
    rw [Function.update_self, h]
  · rw [Function.update_of_ne heq]

theorem sent_client (ha : a.Quiet) (hs : s.step (.client id a) = some t) :
    (∀ id, (t.clients id).sent = (s.clients id).sent) ∧ t.host = s.host := by
  obtain ⟨e, he, rfl⟩ := Option.map_eq_some_iff.mp hs
  exact ⟨sent_update_end (sent_of_quiet ha he), rfl⟩

theorem sent_datagram {i : Nat} {nip : UInt32} {nport family : UInt16} {hasClient : UInt32 → Bool}
    (h : s.Inv) (hs : s.step (.datagram id i nip nport family hasClient) = some t) :
    t.clients = s.clients ∧ (∀ id, (t.host.session id).sent = (s.host.session id).sent) ∧
      t.host.handled = s.host.handled := by
  obtain ⟨p, hp, hs⟩ := Option.bind_eq_some_iff.mp hs
  obtain ⟨host, hhost, rfl⟩ := Option.map_eq_some_iff.mp hs
  have hmem : p ∈ (s.clients id).out := List.mem_of_getElem? hp
  obtain ⟨hne, hsend⟩ := (h.proper id .client).out p hmem
  obtain ⟨hhandled, hcase⟩ := KcpHost.datagram_spec hne (fun seg hseg => (hsend seg hseg).conv)
    ((h.short id p hmem).trans (by decide)) (fun id => (h.proper id .server).conv_eq) rfl hhost
  refine ⟨rfl, fun id' => ?_, hhandled⟩
  rcases hcase with hsame | ⟨e, hinput, hsession⟩
  · exact congrArg Endpoint.sent (congrFun hsame id')
  · show (host.session id').sent = _
    rw [hsession]
    obtain ⟨⟨ret, kcp⟩, -, rfl⟩ := Option.map_eq_some_iff.mp hinput
    refine sent_update_end ?_ id'
    rfl

theorem sent_recv (hs : s.step .recv = some t) :
    t.clients = s.clients ∧ (∀ id, (t.host.session id).sent = (s.host.session id).sent) ∧
      (t.host.handled = s.host.handled ∨
        ∃ id pkt, t.host.handled = s.host.handled ++ [(id, pkt)]) := by
  obtain ⟨host, hhost, rfl⟩ := Option.map_eq_some_iff.mp hs
  obtain ⟨id, hsession, hhandled⟩ := KcpHost.recv_spec hhost
  refine ⟨rfl, fun id' => ?_, ?_⟩
  · show (host.session id').sent = _
    rw [hsession]
    refine sent_update_end ?_ id'
    rfl
  · show host.handled = _ ∨ ∃ id pkt, host.handled = _
    rw [hhandled]
    split
    · exact .inr ⟨_, _, rfl⟩
    · exact .inl rfl

theorem sent_update {current : UInt32} (hs : s.step (.update id current) = some t) :
    t.clients = s.clients ∧ (∀ id, (t.host.session id).sent = (s.host.session id).sent) ∧
      t.host.handled = s.host.handled := by
  obtain ⟨host, hhost, rfl⟩ := Option.map_eq_some_iff.mp hs
  obtain ⟨hsession, hhandled⟩ := KcpHost.onSession_spec hhost
  refine ⟨rfl, fun id' => ?_, hhandled⟩
  show (host.session id').sent = _
  rw [hsession]
  refine sent_update_end ?_ id'
  rfl

theorem sent_server (hs : s.step (.sendPkt id buf) = some t) :
    t.clients = s.clients ∧ t.host.handled = s.host.handled ∧
      t.host.session = Function.update s.host.session id ((s.host.session id).sendPkt buf) := by
  obtain ⟨host, hhost, rfl⟩ := Option.map_eq_some_iff.mp hs
  obtain ⟨hsession, hhandled⟩ := KcpHost.onSession_spec hhost
  exact ⟨rfl, hhandled, hsession⟩

end

/-! ## Responses -/

def IsResponse (pkt : Bytes) : Prop := pktChannel pkt = some NetChannel.response.code

instance : DecidablePred IsResponse := fun pkt =>
  inferInstanceAs (Decidable (pktChannel pkt = some NetChannel.response.code))

def asks : ClientCall → Option RequestEvent
  | .request cmd value id => some ⟨cmd.toUInt8, id, value⟩
  | _ => none

/-- What the server sent to a client on its account. -/
def Direct.answersTo (d : Direct) (id : UInt32) : List Bytes :=
  (d.effects.filter fun e => e.1 = id).flatMap fun e => e.2.sent.map Prod.snd

section

variable {seat : Seat} {client : NetClient} {stack : ResponseEvent} {c : ClientCall}

theorem pktChannel_take {pkt : Bytes} {n k : Nat} (h : pktChannel (pkt.take n) = some k) :
    pktChannel pkt = some k := by
  obtain ⟨bs, hload, hk⟩ := Option.map_eq_some_iff.mp h
  obtain ⟨hle, hbs⟩ := load_eq_some_iff.mp hload
  rw [List.length_take] at hle
  refine Option.map_eq_some_iff.mpr ⟨bs, load_eq_some_iff.mpr ⟨by omega, ?_⟩, hk⟩
  rw [← hbs, List.drop_zero, List.drop_zero, List.take_take, Nat.min_eq_left (by omega)]

/-- A cut video packet is no response. -/
theorem not_isResponse_video (data : Bytes) (n : Nat) :
    ¬IsResponse ((dataPkt .video data).take n) := by
  intro h
  have hvideo := pktChannel_take h
  rw [pktChannel_dataPkt] at hvideo
  cases hvideo

theorem isResponse_bytes (r : ResponseEvent) : IsResponse (dataPkt .response r.bytes) :=
  pktChannel_dataPkt ..

/-- A request is answered once, and nothing else is. -/
theorem Seat.apply_sent (seat : Seat) (client : NetClient) (stack : ResponseEvent)
    (c : ClientCall) : (seat.apply client stack c).2.sent.map Prod.snd =
      ((asks c).map fun e => dataPkt .response (response seat.globals client e stack).bytes).toList := by
  cases c with
  | input e state pad => rfl
  | request cmd value id => rfl
  | clip type data =>
      unfold Seat.apply
      cases seat.clipboard with
      | none => rfl
      | some b => rfl

end

/-! ## The two machines -/

/-- The two machines after the same calls. -/
structure Mirrors (s : Remote) (d : Direct) : Prop where
  server : ∃ server, s.server = some server ∧ Shows server d.seat
  clean : ∀ id, (s.pkts id).Clean
  calls : s.calls = d.calls
  proper : ∀ id, ∀ c ∈ d.calls id, c.Fits ∧ c.Accepted
  sent : ∀ id, (s.net.clients id).sent = (d.calls id).map ClientCall.bytes
  handled : ∀ id, s.net.host.handledOf id = ((d.calls id).take (d.served id)).map ClientCall.bytes
  served_le : ∀ id, d.served id ≤ (d.calls id).length
  effects : s.effects = d.effects
  replies : ∀ r ∈ s.replies, IsResponse r.2 ∧ r.2.length ≤ 20
  answers : ∀ id, (s.net.host.session id).sent.filter IsResponse ++
    (s.replies.filter fun r => r.1 = id).map Prod.snd = d.answersTo id

section

variable {s s' : Remote} {d : Direct} {net : KcpNet} {id : UInt32}

theorem Mirrors.start : Mirrors .start .start where
  server := ⟨_, rfl, rfl, .none⟩
  clean _ := rfl
  calls := rfl
  proper _ := nofun
  sent _ := rfl
  handled _ := rfl
  served_le _ := Nat.le_refl _
  effects := rfl
  replies := nofun
  answers _ := rfl

/-- A step of the network in which nobody sends and nothing is handled. -/
theorem Mirrors.of_net (h : Mirrors s d)
    (hclients : ∀ id, (net.clients id).sent = (s.net.clients id).sent)
    (hsessions : ∀ id, (net.host.session id).sent = (s.net.host.session id).sent)
    (hhandled : net.host.handled = s.net.host.handled) : Mirrors { s with net := net } d :=
  { h with
    sent := fun id => (hclients id).trans (h.sent id)
    handled := fun id => by
      show net.host.handledOf id = _
      rw [KcpHost.handledOf, hhandled]
      exact h.handled id
    answers := fun id => by
      show (net.host.session id).sent.filter IsResponse ++ _ = _
      rw [hsessions id]
      exact h.answers id }

theorem bytes_length {c : ClientCall} (hfits : c.Fits) (hacc : c.Accepted) :
    0 < c.bytes.length ∧ c.bytes.length ≤ 10240 := by
  cases c with
  | input e state pad => exact ⟨Nat.succ_pos _, show 24 ≤ 10240 by decide⟩
  | request cmd value id => exact ⟨Nat.succ_pos _, show 20 ≤ 10240 by decide⟩
  | clip type data =>
      have hroom := hfits.2.2 hacc
      rw [ClientCall.bytes, length_dataPkt_clipBody, clipBody_length]
      omega

theorem call_cases {c : ClientCall} (hclean : (s.pkts id).Clean) (hfits : c.Fits)
    (hs : s.step (.call id c) = some s') : ∃ pkts : ClientPkts, pkts.Clean ∧
      if c.Accepted then
        s' = { s with
          net := { s.net with
            clients := Function.update s.net.clients id ((s.net.clients id).sendPkt c.bytes) }
          pkts := Function.update s.pkts id pkts
          calls := Function.update s.calls id (s.calls id ++ [c]) }
      else s' = { s with pkts := Function.update s.pkts id pkts } := by
  obtain ⟨pkts, hcall, hkept⟩ := ClientPkts.call_spec hclean hfits
  refine ⟨pkts, hkept, ?_⟩
  rw [Remote.step, hcall, Option.bind_eq_bind, Option.bind_some] at hs
  dsimp only at hs
  by_cases hacc : c.Accepted
  · rw [if_pos hacc] at hs ⊢
    cases hs
    rfl
  · rw [if_neg hacc] at hs ⊢
    cases hs
    rw [if_pos rfl, List.append_nil, Function.update_eq_self]

/-- The calls of a client are its messages. -/
theorem Mirrors.call (h : Mirrors s d) (hnet : s.net.Inv) {c : ClientCall} (hfits : c.Fits)
    (hs : s.step (.call id c) = some s') :
    Mirrors s' d ∨ ∃ b d', d.step b = some d' ∧ Mirrors s' d' := by
  obtain ⟨pkts, hclean, hcase⟩ := call_cases (h.clean id) hfits hs
  have hclean' : ∀ id', (Function.update s.pkts id pkts id').Clean :=
    (Function.forall_update_iff s.pkts fun _ p => ClientPkts.Clean p).mpr
      ⟨hclean, fun id' _ => h.clean id'⟩
  by_cases hacc : c.Accepted
  · rw [if_pos hacc] at hcase
    subst hcase
    have hsent : ((s.net.clients id).sendPkt c.bytes).sent = (s.net.clients id).sent ++ [c.bytes] :=
      sent_sendPkt_whole (hnet.proper id .client).windowed.context
        ((bytes_length hfits hacc).2.trans (by decide))
    refine .inr ⟨.call id c, _, rfl, { h with
      clean := hclean'
      calls := ?_
      proper := ?_
      sent := ?_
      handled := ?_
      served_le := ?_ }⟩
    · show Function.update s.calls id (s.calls id ++ [c]) = _
      rw [h.calls]
    · refine (Function.forall_update_iff d.calls fun _ cs => ∀ c' ∈ cs, c'.Fits ∧ c'.Accepted).mpr
        ⟨fun c' hc' => ?_, fun id' _ => h.proper id'⟩
      rcases List.mem_append.mp hc' with hc' | hc'
      · exact h.proper id c' hc'
      · rw [List.mem_singleton.mp hc']
        exact ⟨hfits, hacc⟩
    · intro id'
      show (Function.update s.net.clients id _ id').sent = (Function.update d.calls id _ id').map _
      by_cases heq : id' = id
      · subst heq
        rw [Function.update_self, Function.update_self, hsent, h.sent id', List.map_append]
        rfl
      · rw [Function.update_of_ne heq, Function.update_of_ne heq]
        exact h.sent id'
    · refine (Function.forall_update_iff d.calls fun id' cs =>
        s.net.host.handledOf id' = (cs.take (d.served id')).map ClientCall.bytes).mpr
        ⟨?_, fun id' _ => h.handled id'⟩
      rw [List.take_append_of_le_length (h.served_le id)]
      exact h.handled id
    · refine (Function.forall_update_iff d.calls fun id' cs => d.served id' ≤ cs.length).mpr
        ⟨?_, fun id' _ => h.served_le id'⟩
      rw [List.length_append]
      exact (h.served_le id).trans (Nat.le_add_right ..)
  · rw [if_neg hacc] at hcase
    subst hcase
    exact .inl { h with clean := hclean' }

/-- The next packet of a client is that of its next call. -/
theorem Mirrors.next_call (h : Mirrors s d) (hnet : kcpNetMachine.Run KcpNet.Timely net)
    (hclients : net.clients = s.net.clients) {pkt : Bytes}
    (hhandled : net.host.handled = s.net.host.handled ++ [(id, pkt)]) :
    ∃ c, (d.calls id)[d.served id]? = some c ∧ pkt = c.bytes := by
  have hpre := KcpNet.handledOf_le_sent hnet id
  have hall : (net.clients id).sent.filter (· ≠ []) = (d.calls id).map ClientCall.bytes := by
    rw [hclients, h.sent id, List.filter_eq_self.mpr]
    intro msg hmsg
    obtain ⟨c, hc, rfl⟩ := List.mem_map.mp hmsg
    have hpos := (bytes_length (h.proper id c hc).1 (h.proper id c hc).2).1
    exact decide_eq_true (List.ne_nil_of_length_pos hpos)
  have hof : net.host.handledOf id =
      ((d.calls id).take (d.served id)).map ClientCall.bytes ++ [pkt] := by
    rw [KcpHost.handledOf, hhandled, List.filter_append, List.map_append, ← h.handled id,
      List.filter_cons_of_pos (by simp)]
    rfl
  rw [hall, hof] at hpre
  have hat : (((d.calls id).take (d.served id)).map ClientCall.bytes ++ [pkt])[d.served id]? =
      some pkt := by
    have hlen : (((d.calls id).take (d.served id)).map ClientCall.bytes).length = d.served id := by
      rw [List.length_map, List.length_take, Nat.min_eq_left (h.served_le id)]
    rw [List.getElem?_append_right hlen.le, hlen, Nat.sub_self]
    rfl
  have hcall := getElem?_of_prefix hpre hat
  rw [List.getElem?_map] at hcall
  obtain ⟨c, hc, hpkt⟩ := Option.map_eq_some_iff.mp hcall
  exact ⟨c, hc, hpkt.symm⟩

theorem filter_replies (sent : List Sent) (id id' : UInt32) :
    (((sent.map fun out => (id, out.2)).filter fun r => r.1 = id').map Prod.snd) =
      if id = id' then sent.map Prod.snd else [] := by
  induction sent with
  | nil => simp
  | cons out sent ih =>
      rw [List.map_cons]
      by_cases heq : id = id'
      · rw [if_pos heq] at ih ⊢
        rw [List.filter_cons_of_pos (by simpa using heq), List.map_cons, ih]
        rfl
      · rw [if_neg heq] at ih ⊢
        rw [List.filter_cons_of_neg (by simpa using heq), ih]

/-- What a turn of the loop receives is handled as the next call of a client. -/
theorem Mirrors.recv (h : Mirrors s d) (hnet : kcpNetMachine.Run KcpNet.Timely net)
    (hs : s.net.step .recv = some net) {client : NetClient} {stack : ResponseEvent}
    (hidle : s.replies = []) (hhandle : s.handle client stack net = some s') :
    Mirrors s' d ∨ ∃ b d', d.step b = some d' ∧ Mirrors s' d' := by
  obtain ⟨hclients, hsessions, hsame | ⟨id, pkt, hhandled⟩⟩ := sent_recv hs
  · left
    have hkept : s.handle client stack net = some { s with net := net } := by
      rw [Remote.handle, hsame, List.drop_length]
    cases hkept.symm.trans hhandle
    exact h.of_net (fun id => by rw [hclients]) hsessions hsame
  · obtain ⟨c, hc, rfl⟩ := h.next_call hnet hclients hhandled
    obtain ⟨server, hserver, hshows⟩ := h.server
    obtain ⟨hfits, hacc⟩ := h.proper id c (List.mem_of_getElem? hc)
    obtain ⟨server', hpkt, hshows'⟩ := hshows.onServerPkt client stack hfits hacc
    have hsent := Seat.apply_sent d.seat client stack c
    have hserve : d.step (.serve id client stack) = some { d with
        seat := (d.seat.apply client stack c).1
        served := Function.update d.served id (d.served id + 1)
        effects := d.effects ++ [(id, (d.seat.apply client stack c).2)] } := by
      rw [Direct.step, hc]
      rfl
    generalize d.seat.apply client stack c = out at *
    obtain ⟨seat, out⟩ := out
    have hdone : s.handle client stack net = some { s with
        net := net
        server := some server'
        replies := out.sent.map fun sent => (id, sent.2)
        effects := s.effects ++ [(id, out)] } := by
      rw [Remote.handle, hhandled, List.drop_left, hserver]
      dsimp only
      rw [Option.map_some, hpkt]
    cases hdone.symm.trans hhandle
    refine .inr ⟨_, _, hserve, { h with
      server := ⟨server', rfl, hshows'⟩
      sent := fun id' => ?_
      handled := fun id' => ?_
      served_le := ?_
      effects := ?_
      replies := ?_
      answers := fun id' => ?_ }⟩
    · rw [← h.sent id', ← hclients]
    · show net.host.handledOf id' = ((d.calls id').take (Function.update d.served id _ id')).map _
      rw [KcpHost.handledOf, hhandled, List.filter_append, List.map_append]
      by_cases heq : id' = id
      · subst heq
        rw [Function.update_self, List.take_add_one, hc, List.map_append, ← h.handled id',
          List.filter_cons_of_pos (by simp)]
        rfl
      · rw [Function.update_of_ne heq, List.filter_cons_of_neg (by simpa using Ne.symm heq),
          List.filter_nil, List.map_nil, List.append_nil]
        exact h.handled id'
    · refine (Function.forall_update_iff d.served fun id' n => n ≤ (d.calls id').length).mpr
        ⟨?_, fun id' _ => h.served_le id'⟩
      exact (List.getElem?_eq_some_iff.mp hc).1
    · rw [h.effects]
    · intro r hr
      obtain ⟨sent, hmem, rfl⟩ := List.mem_map.mp hr
      have hpkt' : sent.2 ∈ out.sent.map Prod.snd := List.mem_map_of_mem hmem
      rw [hsent] at hpkt'
      obtain ⟨e, -, heq⟩ := Option.map_eq_some_iff.mp (Option.mem_toList.mp hpkt')
      show IsResponse sent.2 ∧ sent.2.length ≤ 20
      rw [← heq]
      exact ⟨isResponse_bytes _, Nat.le_refl 20⟩
    · have hold := h.answers id'
      rw [hidle, List.filter_nil, List.map_nil, List.append_nil] at hold
      show (net.host.session id').sent.filter IsResponse ++ _ = _
      rw [hsessions id', hold, Direct.answersTo, Direct.answersTo, List.filter_append,
        List.flatMap_append]
      congr 1
      rw [filter_replies]
      by_cases heq : id = id'
      · rw [if_pos heq, List.filter_cons_of_pos (by simpa using heq), List.filter_nil,
          List.flatMap_cons, List.flatMap_nil, List.append_nil]
      · rw [if_neg heq, List.filter_cons_of_neg (by simpa using heq), List.filter_nil]
        rfl

theorem Mirrors.send (h : Mirrors s d) {buf : Bytes} {rest : List (UInt32 × Bytes)}
    (hs : s.net.step (.sendPkt id buf) = some net) (hrest : rest ⊆ s.replies)
    (hanswers : ∀ id', (Function.update s.net.host.session id
        ((s.net.host.session id).sendPkt buf) id').sent.filter IsResponse ++
          (rest.filter fun r => r.1 = id').map Prod.snd =
        (s.net.host.session id').sent.filter IsResponse ++
          (s.replies.filter fun r => r.1 = id').map Prod.snd) :
    Mirrors { s with net := net, replies := rest } d := by
  obtain ⟨hclients, hhandled, hsession⟩ := sent_server hs
  exact { h with
    sent := fun id' => by
      show (net.clients id').sent = _
      rw [hclients]
      exact h.sent id'
    handled := fun id' => by
      show net.host.handledOf id' = _
      rw [KcpHost.handledOf, hhandled]
      exact h.handled id'
    replies := fun r hr => h.replies r (hrest hr)
    answers := fun id' => by
      show (net.host.session id').sent.filter IsResponse ++ _ = _
      rw [hsession, hanswers id']
      exact h.answers id' }

theorem Mirrors.reply (h : Mirrors s d) (hnet : s.net.Inv) {pkt : Bytes}
    {rest : List (UInt32 × Bytes)} (hreplies : s.replies = (id, pkt) :: rest)
    (hs : s.net.step (.sendPkt id pkt) = some net) :
    Mirrors { s with net := net, replies := rest } d := by
  have hmem : (id, pkt) ∈ s.replies := hreplies ▸ List.mem_cons_self ..
  have hresponse : IsResponse pkt := (h.replies _ hmem).1
  have hlen : pkt.length ≤ 20 := (h.replies _ hmem).2
  have hsent : ((s.net.host.session id).sendPkt pkt).sent =
      (s.net.host.session id).sent ++ [pkt] :=
    sent_sendPkt_whole (hnet.proper id .server).windowed.context (hlen.trans (by decide))
  refine h.send hs (hreplies ▸ List.subset_cons_self ..) fun id' => ?_
  rw [hreplies]
  by_cases heq : id' = id
  · subst heq
    have hone : [pkt].filter IsResponse = [pkt] :=
      List.filter_cons_of_pos (decide_eq_true hresponse)
    rw [Function.update_self, hsent, List.filter_append, hone, List.append_assoc,
      List.filter_cons_of_pos (by simp)]
    rfl
  · rw [Function.update_of_ne heq, List.filter_cons_of_neg (by simpa using Ne.symm heq)]

/-- Video goes between the responses. -/
theorem Mirrors.bradcast (h : Mirrors s d) {data : Bytes}
    (hs : s.net.step (.sendPkt id (dataPkt .video data)) = some net) :
    Mirrors { s with net := net } d := by
  refine h.send hs (List.Subset.refl _) fun id' => ?_
  by_cases heq : id' = id
  · subst heq
    rw [Function.update_self]
    rcases sent_sendPkt_cut (s.net.host.session id') (dataPkt .video data) with hsame | ⟨n, hcut⟩
    · rw [hsame]
    · rw [hcut, List.filter_append,
        List.filter_cons_of_neg (by simpa using not_isResponse_video data n), List.filter_nil,
        List.append_nil]
  · rw [Function.update_of_ne heq]

theorem Shows.main {server server' : ServerState} {seat : Seat} (h : Shows server seat)
    {a : MainAction} (hs : pktStep server a.pktAction = some server') : Shows server' (seat.main a) := by
  cases a with
  | capture capObj =>
      cases hs
      exact ⟨by rw [Seat.main, h.globals], h.device⟩
  | openInput rootWin =>
      cases hs
      exact ⟨h.globals, .some ⟨⟨rfl, rfl, rfl⟩, rfl⟩⟩
  | closeInput =>
      cases hs
      exact ⟨h.globals, .none⟩

/-! ## Runs -/

theorem run_next {a : KcpNetAction} {net' : KcpNet} (h : kcpNetMachine.Run KcpNet.Timely net)
    (hs : net.step a = some net') (ha : net.Timely a) : kcpNetMachine.Run KcpNet.Timely net' :=
  .next h ha hs

theorem run_sends {sent : List Bytes} (h : kcpNetMachine.Run KcpNet.Timely net) {net' : KcpNet}
    (hs : sent.foldlM (fun net pkt => net.step (.client id (.sendPkt pkt))) net = some net') :
    kcpNetMachine.Run KcpNet.Timely net' := by
  induction sent generalizing net with
  | nil =>
      cases hs
      exact h
  | cons pkt sent ih =>
      rw [List.foldlM_cons] at hs
      obtain ⟨next, hnext, hs⟩ := Option.bind_eq_some_iff.mp hs
      exact ih (run_next h hnext trivial) hs

theorem handle_net {client : NetClient} {stack : ResponseEvent}
    (hs : s.handle client stack net = some s') : s'.net = net := by
  unfold Remote.handle at hs
  split at hs
  · cases hs
    rfl
  · obtain ⟨server, -, rfl⟩ := Option.map_eq_some_iff.mp hs
    split
    · rfl
    · rfl

theorem reply_cases (hs : s.step .reply = some s') : ∃ id pkt rest net,
    s.replies = (id, pkt) :: rest ∧ s.net.step (.sendPkt id pkt) = some net ∧
      s' = { s with net := net, replies := rest } := by
  rw [Remote.step] at hs
  cases hreplies : s.replies with
  | nil =>
      rw [hreplies] at hs
      cases hs
  | cons r rest =>
      rw [hreplies] at hs
      obtain ⟨net, hnet, rfl⟩ := Option.map_eq_some_iff.mp hs
      exact ⟨r.1, r.2, rest, net, rfl, hnet, rfl⟩

/-- The network runs as it does by itself. -/
theorem run_net (h : remoteMachine.Run Remote.Careful s) :
    kcpNetMachine.Run KcpNet.Timely s.net := by
  induction h with
  | start hs =>
      cases hs
      exact .start rfl
  | @next s a s' _ ha hs ih =>
      cases a with
      | call id c =>
          obtain ⟨⟨pkts, sent⟩, -, hs⟩ := Option.bind_eq_some_iff.mp hs
          obtain ⟨net, hsend, hs⟩ := Option.bind_eq_some_iff.mp hs
          cases hs
          exact run_sends ih hsend
      | client id a =>
          obtain ⟨-, hs⟩ := Option.ite_none_right_eq_some.mp hs
          obtain ⟨net, hnet, rfl⟩ := Option.map_eq_some_iff.mp hs
          exact run_next ih hnet ha
      | datagram id i nip nport family hasClient =>
          obtain ⟨-, hs⟩ := Option.ite_none_right_eq_some.mp hs
          obtain ⟨net, hnet, rfl⟩ := Option.map_eq_some_iff.mp hs
          exact run_next ih hnet ha
      | recv client stack =>
          obtain ⟨-, hs⟩ := Option.ite_none_right_eq_some.mp hs
          obtain ⟨net, hnet, hhandle⟩ := Option.bind_eq_some_iff.mp hs
          rw [handle_net hhandle]
          exact run_next ih hnet trivial
      | reply =>
          obtain ⟨id, pkt, rest, net, -, hnet, rfl⟩ := reply_cases hs
          exact run_next ih hnet trivial
      | update id current =>
          obtain ⟨net, hnet, rfl⟩ := Option.map_eq_some_iff.mp hs
          exact run_next ih hnet trivial
      | bradcast id data =>
          obtain ⟨net, hnet, rfl⟩ := Option.map_eq_some_iff.mp hs
          exact run_next ih hnet trivial
      | main a =>
          obtain ⟨server, -, rfl⟩ := Option.map_eq_some_iff.mp hs
          exact ih

/-- A step of the whole is a step without a network, or not seen there. -/
theorem Mirrors.step (h : Mirrors s d) (hrun : remoteMachine.Run Remote.Careful s)
    {a : RemoteAction} (ha : s.Careful a) (hs : s.step a = some s') :
    Mirrors s' d ∨ ∃ b d', directMachine.step d b = some d' ∧ Mirrors s' d' := by
  have hnet := run_net hrun
  have hinv := KcpNet.Inv.of_run hnet
  cases a with
  | call id c => exact h.call hinv ha hs
  | client id a =>
      obtain ⟨hquiet, hs⟩ := Option.ite_none_right_eq_some.mp hs
      obtain ⟨net, hstep, rfl⟩ := Option.map_eq_some_iff.mp hs
      obtain ⟨hclients, hhost⟩ := sent_client hquiet hstep
      exact .inl (h.of_net hclients (fun id => by rw [hhost]) (by rw [hhost]))
  | datagram id i nip nport family hasClient =>
      obtain ⟨-, hs⟩ := Option.ite_none_right_eq_some.mp hs
      obtain ⟨net, hstep, rfl⟩ := Option.map_eq_some_iff.mp hs
      obtain ⟨hclients, hsessions, hhandled⟩ := sent_datagram hinv hstep
      exact .inl (h.of_net (fun id => by rw [hclients]) hsessions hhandled)
  | recv client stack =>
      obtain ⟨hidle, hs⟩ := Option.ite_none_right_eq_some.mp hs
      obtain ⟨net, hstep, hhandle⟩ := Option.bind_eq_some_iff.mp hs
      exact h.recv (run_next hnet hstep trivial) hstep hidle hhandle
  | reply =>
      obtain ⟨id, pkt, rest, net, hreplies, hstep, rfl⟩ := reply_cases hs
      exact .inl (h.reply hinv hreplies hstep)
  | update id current =>
      obtain ⟨net, hstep, rfl⟩ := Option.map_eq_some_iff.mp hs
      obtain ⟨hclients, hsessions, hhandled⟩ := sent_update hstep
      exact .inl (h.of_net (fun id => by rw [hclients]) hsessions hhandled)
  | bradcast id data =>
      obtain ⟨net, hstep, rfl⟩ := Option.map_eq_some_iff.mp hs
      exact .inl (h.bradcast hstep)
  | main a =>
      obtain ⟨server', hserver', rfl⟩ := Option.map_eq_some_iff.mp hs
      obtain ⟨server, hserver, hshows⟩ := h.server
      rw [hserver, Option.bind_some] at hserver'
      exact .inr ⟨.main a, _, rfl, { h with server := ⟨server', rfl, hshows.main hserver'⟩ }⟩

theorem exists_mirror (h : remoteMachine.Run Remote.Careful s) :
    ∃ d, directMachine.Reachable d ∧ Mirrors s d := by
  refine h.simulates Mirrors (fun s hs => ?_) fun s a s' d hrun ha hs hm => hm.step hrun ha hs
  cases hs
  exact ⟨.start, rfl, .start⟩

/-- Whatever the network does, the clients control the server as if there were none: no packet of
theirs is read behind its end, and what the server does to its settings, its input device and the
clipboard is what their calls do to the seat, those of each client in order and each once. -/
theorem controls_directly (h : remoteMachine.Run Remote.Careful s) :
    ∃ server d, s.server = some server ∧ directMachine.Reachable d ∧ Shows server d.seat ∧
      s.calls = d.calls ∧ s.effects = d.effects := by
  obtain ⟨d, hd, hm⟩ := exists_mirror h
  obtain ⟨server, hserver, hshows⟩ := hm.server
  exact ⟨server, d, hserver, hd, hshows, hm.calls, hm.effects⟩

instance (s : Remote) : ∀ a : RemoteAction, Decidable (s.Careful a)
  | .call _ c => inferInstanceAs (Decidable c.Fits)
  | .client id a => inferInstanceAs (Decidable (s.net.Timely (.client id a)))
  | .datagram id i nip nport family hasClient => inferInstanceAs
      (Decidable (s.net.Timely (.datagram id i nip nport family hasClient)))
  | .recv .. => inferInstanceAs (Decidable True)
  | .reply => inferInstanceAs (Decidable True)
  | .update .. => inferInstanceAs (Decidable True)
  | .bradcast .. => inferInstanceAs (Decidable True)
  | .main _ => inferInstanceAs (Decidable True)

/-- Two clients press and click. Of the click nothing arrives at first, and the key comes twice. -/
theorem controls_directly_two : ∃ s : Remote,
    s.effects.map (fun e => (e.1, e.2.requests)) =
      [(2, [.key 13 true, .flush]), (1, [.button 1 true, .flush])] ∧
    ∃ server d, s.server = some server ∧ directMachine.Reachable d ∧ Shows server d.seat ∧
      s.calls = d.calls ∧ s.effects = d.effects := by
  have hrun : ((remoteMachine.guarded Remote.Careful).exec .start
      [.main (.openInput true), .client 1 (.update 1000), .client 2 (.update 1000),
        .call 1 (.input ⟨.mouseDown, 1, 30, 40⟩ 0 (0, 0)),
        .call 2 (.input ⟨.keyDown, 13, 0, 0⟩ 7 (1, 2)), .client 1 (.update 1010),
        .datagram 2 0 0 0 0 fun _ => true, .recv ⟨0, some 2⟩ zeroStack, .recv ⟨0, some 2⟩ zeroStack,
        .datagram 2 0 0 0 0 fun _ => true, .recv ⟨0, some 2⟩ zeroStack, .client 1 (.update 1200),
        .datagram 1 1 0 0 0 fun _ => true, .recv ⟨0, some 1⟩ zeroStack]).map
          (fun s => s.effects.map fun e => (e.1, e.2.requests)) =
      some [(2, [.key 13 true, .flush]), (1, [.button 1 true, .flush])] := by
    decide +kernel
  obtain ⟨s, hs, hview⟩ := Option.map_eq_some_iff.mp hrun
  exact ⟨s, hview, controls_directly (Machine.run_of_exec hs rfl)⟩

/-! ## Answers -/

/-- The response of a server in some state to a request. -/
def IsAnswer (e : RequestEvent) (r : ResponseEvent) : Prop :=
  ∃ g client stack, r = response g client e stack

/-- The calls of a client that have worked on the seat. -/
def Direct.done (d : Direct) (id : UInt32) : List ClientCall := (d.calls id).take (d.served id)

/-- The requests among them are answered in order. -/
structure Direct.Answering (d : Direct) (id : UInt32) (rs : List ResponseEvent) : Prop where
  served_le : d.served id ≤ (d.calls id).length
  sent : d.answersTo id = rs.map fun r => dataPkt .response r.bytes
  answers : List.Forall₂ IsAnswer ((d.done id).filterMap asks) rs

section

variable {d d' : Direct} {rs : List ResponseEvent} {c : ClientCall} {client : NetClient}
  {stack : ResponseEvent}

theorem Direct.Answering.call (h : d.Answering id rs) {id' : UInt32}
    (hs : d.step (.call id' c) = some d') : d'.Answering id rs := by
  cases hs
  have hmore : d.calls id <+: Function.update d.calls id' (d.calls id' ++ [c]) id := by
    by_cases heq : id = id'
    · subst heq
      rw [Function.update_self]
      exact List.prefix_append ..
    · rw [Function.update_of_ne heq]
  obtain ⟨more, hmore⟩ := hmore
  refine ⟨?_, h.sent, ?_⟩
  · show d.served id ≤ (Function.update d.calls id' _ id).length
    rw [← hmore, List.length_append]
    exact h.served_le.trans (Nat.le_add_right ..)
  · show List.Forall₂ _ (((Function.update d.calls id' _ id).take (d.served id)).filterMap _) _
    rw [← hmore, List.take_append_of_le_length h.served_le]
    exact h.answers

theorem Direct.Answering.serve (h : d.Answering id rs)
    (hs : d.step (.serve id client stack) = some d') : ∃ rs', d'.Answering id rs' := by
  obtain ⟨c, hc, rfl⟩ := Option.map_eq_some_iff.mp hs
  have hsent := Seat.apply_sent d.seat client stack c
  generalize d.seat.apply client stack c = out at *
  refine ⟨rs ++ ((asks c).map fun e => response d.seat.globals client e stack).toList, ?_, ?_, ?_⟩
  · show Function.update d.served id _ id ≤ _
    rw [Function.update_self]
    exact (List.getElem?_eq_some_iff.mp hc).1
  · show (((d.effects ++ [(id, out.2)]).filter _).flatMap _) = _
    rw [List.filter_append, List.flatMap_append, List.filter_cons_of_pos (by simp),
      List.filter_nil, List.flatMap_cons, List.flatMap_nil, List.append_nil, hsent,
      List.map_append, ← h.sent, Direct.answersTo]
    congr 1
    cases asks c with
    | none => rfl
    | some e => rfl
  · show List.Forall₂ _ (((d.calls id).take (Function.update d.served id _ id)).filterMap _) _
    rw [Function.update_self, List.take_add_one, hc, List.filterMap_append]
    refine List.rel_append h.answers ?_
    show List.Forall₂ IsAnswer ([c].filterMap asks) _
    cases hask : asks c with
    | none =>
        rw [List.filterMap_cons_none hask]
        exact .nil
    | some e =>
        rw [List.filterMap_cons_some hask]
        exact .cons ⟨_, _, _, rfl⟩ .nil

theorem Direct.Answering.serve_other (h : d.Answering id rs) {id' : UInt32} (hne : id ≠ id')
    (hs : d.step (.serve id' client stack) = some d') : d'.Answering id rs := by
  obtain ⟨c, hc, rfl⟩ := Option.map_eq_some_iff.mp hs
  generalize d.seat.apply client stack c = out at *
  refine ⟨?_, ?_, ?_⟩
  · show Function.update d.served id' _ id ≤ _
    rw [Function.update_of_ne hne]
    exact h.served_le
  · show (((d.effects ++ [(id', out.2)]).filter _).flatMap _) = _
    rw [List.filter_append, List.filter_cons_of_neg (by simpa using Ne.symm hne), List.filter_nil,
      List.append_nil]
    exact h.sent
  · show List.Forall₂ _ (((d.calls id).take (Function.update d.served id' _ id)).filterMap _) _
    rw [Function.update_of_ne hne]
    exact h.answers

theorem Direct.Answering.step {a : DirectAction} (h : d.Answering id rs)
    (hs : d.step a = some d') : ∃ rs', d'.Answering id rs' := by
  cases a with
  | call id' c => exact ⟨rs, h.call hs⟩
  | serve id' client stack =>
      by_cases heq : id = id'
      · subst heq
        exact h.serve hs
      · exact ⟨rs, h.serve_other heq hs⟩
  | main a =>
      cases hs
      exact ⟨rs, h.served_le, h.sent, h.answers⟩

theorem Direct.exists_answering (h : directMachine.Reachable d) (id : UInt32) :
    ∃ rs, d.Answering id rs := by
  induction h with
  | start hd =>
      cases hd
      exact ⟨[], Nat.le_refl _, rfl, .nil⟩
  | next _ _ hs ih =>
      obtain ⟨rs, hrs⟩ := ih
      exact hrs.step hs

end

/-- The responses that a client has received are answers to the first of its requests, in order, one
to each, however much video goes in between. -/
theorem answered_in_order (h : remoteMachine.Run Remote.Careful s) (id : UInt32) :
    ∃ es rs, es <+: (s.calls id).filterMap asks ∧ List.Forall₂ IsAnswer es rs ∧
      (s.net.clients id).got.filter IsResponse =
        rs.map fun r => dataPkt .response r.bytes := by
  obtain ⟨d, hd, hm⟩ := exists_mirror h
  obtain ⟨rs, hrs⟩ := Direct.exists_answering hd id
  have hpre : (s.net.clients id).got.filter IsResponse <+:
      rs.map fun r => dataPkt .response r.bytes := by
    rw [← hrs.sent, ← hm.answers id]
    exact ((KcpNet.got_le_sent (run_net h) id).filter _).trans (List.prefix_append ..)
  have hgot := List.prefix_iff_eq_take.mp hpre
  refine ⟨_, rs.take ((s.net.clients id).got.filter IsResponse).length, ?_,
    List.forall₂_take _ hrs.answers, ?_⟩
  · rw [hm.calls]
    exact (List.take_prefix ..).trans ((List.take_prefix ..).filterMap asks)
  · rw [List.map_take]
    exact hgot

/-- Two requests, a frame between the answers to them, and a client that has received both. -/
theorem answered_in_order_two : ∃ s : Remote,
    (s.calls 1).filterMap asks = [⟨7, 0, 5⟩, ⟨4, 1, 0⟩] ∧
    (s.net.clients 1).got = [
      dataPkt .response (ResponseEvent.bytes ⟨1, (0, 0, 0), 0, 5⟩), dataPkt .video [9],
      dataPkt .response (ResponseEvent.bytes ⟨1, (0, 0, 0), 1, 58⟩)] ∧
    ∃ es rs, es <+: (s.calls 1).filterMap asks ∧ List.Forall₂ IsAnswer es rs ∧
      (s.net.clients 1).got.filter IsResponse =
        rs.map fun r => dataPkt .response r.bytes := by
  have hrun : ((remoteMachine.guarded Remote.Careful).exec .start
      [.client 1 (.update 1000), .call 1 (.request 7 5 0), .datagram 1 0 0 0 0 fun _ => true,
        .recv ⟨0, some 1⟩ zeroStack, .update 1 1000, .reply, .recv ⟨0, some 1⟩ zeroStack,
        .bradcast 1 [9], .call 1 (.request 4 0 1), .datagram 1 1 0 0 0 fun _ => true,
        .recv ⟨0, some 1⟩ zeroStack, .reply, .recv ⟨0, some 1⟩ zeroStack,
        .client 1 (.deliver 0 []), .client 1 (.deliver 1 []), .client 1 (.deliver 2 []),
        .client 1 (.deliver 3 []), .client 1 (.recv bufLen), .client 1 (.recv bufLen),
        .client 1 (.recv bufLen)]).map
          (fun s => ((s.calls 1).filterMap asks, (s.net.clients 1).got)) =
      some ([⟨7, 0, 5⟩, ⟨4, 1, 0⟩], [
        dataPkt .response (ResponseEvent.bytes ⟨1, (0, 0, 0), 0, 5⟩), dataPkt .video [9],
        dataPkt .response (ResponseEvent.bytes ⟨1, (0, 0, 0), 1, 58⟩)]) := by
    decide +kernel
  obtain ⟨s, hs, hview⟩ := Option.map_eq_some_iff.mp hrun
  obtain ⟨hcalls, hgot⟩ := Prod.mk.inj hview
  exact ⟨s, hcalls, hgot, answered_in_order (Machine.run_of_exec hs rfl) 1⟩

end

end Hprd.Server

import Hprd.Net.Kcp.LinkSteps

/-!
# A conversation

A client and a server with a control block each, and a network between them that may
lose, repeat and reorder datagrams for as long as it likes. The calls hold
`kcp_lock`, so a step is one call: `kcp_client_send_pkt` or `kcp_server_send_pkt`,
the update of the timer thread, `ikcp_input` of one datagram and one `ikcp_recv`.
-/

namespace Hprd.Net.Kcp

open Hprd.Core Hprd.Core.Arq

inductive Side where
  | client
  | server
  deriving DecidableEq

def Side.other : Side → Side
  | client => server
  | server => client

/-- A datagram, with how far the counters of its sender were. -/
structure Packet where
  segs : List IkcpSeg
  numbered : Nat
  taken : Nat

/-- `numbered` and `taken` are `snd_nxt` and `rcv_nxt` as they would be without a wrap-around. `sent`
is what `ikcp_send` has taken, `got` what `ikcp_recv` has returned, `out` every datagram. -/
structure Endpoint where
  kcp : Ikcpcb
  numbered : Nat := 0
  taken : Nat := 0
  sent : List Bytes := []
  got : List Bytes := []
  out : List Packet := []

/-- The control block after a call that has output these datagrams. -/
def Endpoint.become (e : Endpoint) (kcp : Ikcpcb) (datagrams : List (List IkcpSeg)) : Endpoint :=
  let numbered := e.numbered + (kcp.sndNxt - e.kcp.sndNxt).toNat
  let taken := e.taken + (kcp.rcvNxt - e.kcp.rcvNxt).toNat
  { e with
    kcp, numbered, taken, out := e.out ++ datagrams.map fun segs => ⟨segs, numbered, taken⟩ }

/-- `ikcp_send`; what it takes of the buffer is a message. -/
def Endpoint.queue (e : Endpoint) (buffer : Bytes) : Endpoint :=
  let (ret, kcp) := ikcpSend e.kcp buffer
  { e with kcp, sent := if 0 ≤ ret then e.sent ++ [buffer.take ret.toNat] else e.sent }

def Endpoint.flush (e : Endpoint) : Endpoint :=
  let (kcp, datagrams) := ikcpFlush e.kcp
  e.become kcp datagrams

def Endpoint.sendPkt (e : Endpoint) (buf : Bytes) : Endpoint :=
  if (ikcpSend e.kcp buf).1 ≠ buf.length then e.queue buf else (e.queue buf).flush

def Endpoint.update (e : Endpoint) (current : UInt32) : Endpoint :=
  let (kcp, datagrams) := ikcpUpdate e.kcp current
  e.become kcp datagrams

/-- `ikcp_input` of a datagram at the start of a buffer that has `after` behind it. -/
def Endpoint.input (e : Endpoint) (p : Packet) (after : Bytes) : Option Endpoint :=
  (ikcpInput e.kcp (encodeSegs p.segs ++ after) (encodeSegs p.segs).length).map fun (_, kcp) =>
    e.become kcp []

def Endpoint.recv (e : Endpoint) (len : Nat) : Endpoint :=
  let (ret, buf, kcp) := ikcpRecv e.kcp len
  { e.become kcp [] with got := if 0 ≤ ret then e.got ++ [buf] else e.got }

/-- `deliver i after` is the `i`-th datagram that the peer has ever output, for the first time or
again. -/
inductive CallAction where
  | sendPkt (buf : Bytes)
  | update (current : UInt32)
  | deliver (i : Nat) (after : Bytes)
  | recv (len : Nat)

def Endpoint.step (e peer : Endpoint) : CallAction → Option Endpoint
  | .sendPkt buf => some (e.sendPkt buf)
  | .update current => some (e.update current)
  | .deliver i after => peer.out[i]?.bind fun p => e.input p after
  | .recv len => some (e.recv len)

abbrev Conversation := Side → Endpoint

/-- Both ends have the same id of the conversation. -/
def conversationMachine : Machine Conversation (Side × CallAction) where
  init s := ∃ conv, s = fun _ => { kcp := newContext conv }
  step s a := ((s a.1).step (s a.1.other) a.2).map (Function.update s a.1)

/-- The loop of `ikcp_input` ends with the datagram: it has at most eleven segments, or what is behind
it is of another conversation. -/
def Ends (kcp : Ikcpcb) (p : Packet) (after : Bytes) : Prop :=
  p.segs.length ≤ 11 ∨ ∃ conv rest, decode32u after = some (conv, rest) ∧ conv ≠ kcp.conv

/-- A datagram that is delivered ends the loop, and the counters of its sender have moved on by at
most `lifetime` since. -/
def CallAction.Timely (e peer : Endpoint) : CallAction → Prop
  | .deliver i after => ∀ p, peer.out[i]? = some p →
      Ends e.kcp p after ∧ peer.numbered ≤ p.numbered + lifetime ∧
        peer.taken ≤ p.taken + lifetime
  | _ => True

def Timely (s : Conversation) (a : Side × CallAction) : Prop := a.2.Timely (s a.1) (s a.1.other)

/-! ## The two ends of a link -/

/-- The end that the items of a link come from. -/
structure SendEnd (x : Endpoint) (s : Sender Piece) : Prop where
  items : s.items = pieces x.sent
  small : ∀ msg ∈ x.sent, fragmentCount 1376 msg.length < 8192
  sends : Sends x.kcp.flow.send s
  numbered : x.numbered = s.numbered
  out : ∀ p ∈ x.out, ∀ seg ∈ p.segs, seg.cmd = cmdPush →
    ∃ n, seg.sn = UInt32.ofNat n ∧ s.items[n]? = some seg.piece ∧ (n, p.numbered) ∈ s.data

/-- The end that they go to, when the other has sent the messages `sent`. -/
structure RecvEnd (y : Endpoint) (sent : List Bytes) (r : Receiver) : Prop where
  got : y.got <+: sent
  receives : Receives y.kcp.flow.recv y.got (pieces sent) r
  taken : y.taken = r.taken
  out : ∀ p ∈ y.out, p.taken ∈ r.reports ∧ ∀ seg ∈ p.segs, seg.una = UInt32.ofNat p.taken ∧
    (seg.cmd = cmdAck → ∃ i, (i, p.taken) ∈ r.answers ∧ seg.sn = UInt32.ofNat i)

section

variable {x : Endpoint} {l : Link Piece} {sent sent' : List Bytes} {kcp : Ikcpcb} {r : Receiver}
  {s : Sender Piece}

theorem RecvEnd.mono (h : RecvEnd x sent r) (hpre : sent <+: sent') : RecvEnd x sent' r := by
  refine ⟨h.got.trans hpre, h.receives.mono ?_, h.taken, h.out⟩
  obtain ⟨rest, rfl⟩ := hpre
  rw [pieces_append]
  exact List.prefix_append ..

theorem SendEnd.of_flow (h : SendEnd x s) (hflow : kcp.flow.send = x.kcp.flow.send) :
    SendEnd { x with kcp := kcp } s :=
  ⟨h.items, h.small, hflow ▸ h.sends, h.numbered, h.out⟩

theorem RecvEnd.of_flow (h : RecvEnd x sent r) (hflow : kcp.flow.recv = x.kcp.flow.recv) :
    RecvEnd { x with kcp := kcp } sent r :=
  ⟨h.got, hflow ▸ h.receives, h.taken, h.out⟩

theorem Sends.nxt {f : SendSide} (h : Sends f s) : f.nxt = UInt32.ofNat s.numbered := by
  obtain ⟨nums, hwindow, -⟩ := h.window
  exact hwindow.nxt_eq

theorem Receives.nxt {g : RecvSide} {got : List Bytes} {items : List Piece}
    (h : Receives g got items r) : g.nxt = UInt32.ofNat r.taken := by
  obtain ⟨nums, hwindow, -⟩ := h.window
  exact hwindow.nxt_eq

theorem SendEnd.become_numbered (h : SendEnd x l.toSender) (hs : Sends kcp.flow.send s)
    (hlow : l.numbered ≤ s.numbered) (hhigh : s.numbered ≤ l.numbered + 4096)
    (datagrams : List (List IkcpSeg)) : (x.become kcp datagrams).numbered = s.numbered := by
  have hold : x.kcp.sndNxt = UInt32.ofNat l.numbered := h.sends.nxt
  have hnew : kcp.sndNxt = UInt32.ofNat s.numbered := hs.nxt
  show x.numbered + (kcp.sndNxt - x.kcp.sndNxt).toNat = s.numbered
  rw [h.numbered, hold, hnew, toNat_ofNat_sub hlow (by omega)]
  omega

theorem RecvEnd.become_taken {got : List Bytes} {items : List Piece}
    (h : RecvEnd x sent l.toReceiver) (hr : Receives kcp.flow.recv got items r)
    (hlow : l.taken ≤ r.taken) (hgot : (pieces got).length ≤ (pieces x.got).length + 8192)
    (datagrams : List (List IkcpSeg)) : (x.become kcp datagrams).taken = r.taken := by
  have hold : x.kcp.rcvNxt = UInt32.ofNat l.taken := h.receives.nxt
  have hnew : kcp.rcvNxt = UInt32.ofNat r.taken := hr.nxt
  have hcount := h.receives.count
  have hcount' := hr.count
  obtain ⟨nums, hwindow, -⟩ := hr.window
  have hqueue := hwindow.queue
  show x.taken + (kcp.rcvNxt - x.kcp.rcvNxt).toNat = r.taken
  rw [h.taken, hold, hnew, toNat_ofNat_sub hlow (by omega)]
  omega

/-! ## Sending -/

theorem SendEnd.queue (h : SendEnd x l.toSender) (hl : l.Inv kcpWindows) (hc : Context x.kcp)
    (buffer : Bytes) :
    ∃ s', Steps kcpWindows l { l with toSender := s' } ∧ SendEnd (x.queue buffer) s' ∧
      x.sent <+: (x.queue buffer).sent := by
  unfold Endpoint.queue
  dsimp only
  rcases hc.ikcpSend buffer with ⟨hret, hsame⟩ | ⟨msg, hret, hmsg, hcount, hqueued⟩
  · rw [hsame, if_neg (not_le.mpr hret)]
    exact ⟨l.toSender, .refl, h, List.prefix_refl _⟩
  · rw [hqueued, if_pos (hret ▸ Int.natCast_nonneg _), ← hmsg]
    refine ⟨{ l.toSender with items := l.items ++ messagePieces msg },
      .single (Step.offer _), ⟨?_, fun msg' hmem => ?_, ?_, h.numbered, fun p hp seg hseg hcmd => ?_⟩,
      List.prefix_append ..⟩
    · show l.items ++ messagePieces msg = pieces (x.sent ++ [msg])
      rw [h.items, pieces_append, pieces_singleton]
    · rcases List.mem_append.mp hmem with hmem | hmem
      · exact h.small msg' hmem
      · rw [List.mem_singleton.mp hmem]
        exact hcount
    · exact h.sends.offer hl.numbered_le _
    · obtain ⟨n, hsn, hpiece, hdata⟩ := h.out p hp seg hseg hcmd
      exact ⟨n, hsn, getElem?_of_prefix (List.prefix_append ..) hpiece, hdata⟩

theorem RecvEnd.queue (h : RecvEnd x sent r) (hc : Context x.kcp) (buffer : Bytes) :
    RecvEnd (x.queue buffer) sent r := by
  unfold Endpoint.queue
  dsimp only
  rcases hc.ikcpSend buffer with ⟨-, hsame⟩ | ⟨msg, -, -, -, hqueued⟩
  · rw [hsame]
    exact ⟨h.got, h.receives, h.taken, h.out⟩
  · rw [hqueued]
    exact ⟨h.got, h.receives, h.taken, h.out⟩

theorem SendEnd.flush (h : SendEnd x l.toSender) (hl : l.Inv kcpWindows) (hc : Context x.kcp) :
    ∃ s', Steps kcpWindows l { l with toSender := s' } ∧ SendEnd x.flush s' := by
  obtain ⟨s', hsteps, hsends, hitems, hlow, hhigh, hdata, hout⟩ := h.sends.flush hl hc
  have hnumbered := h.become_numbered hsends hlow hhigh (ikcpFlush x.kcp).2
  refine ⟨s', hsteps, hitems.trans h.items, h.small, hsends, hnumbered, fun p hp seg hseg hcmd => ?_⟩
  rw [hitems]
  rcases List.mem_append.mp hp with hp | hp
  · obtain ⟨n, hsn, hpiece, hin⟩ := h.out p hp seg hseg hcmd
    exact ⟨n, hsn, hpiece, hdata hin⟩
  · obtain ⟨segs, hsegs, rfl⟩ := List.mem_map.mp hp
    obtain ⟨n, hsn, hpiece, hin⟩ := hout segs hsegs seg hseg hcmd
    rw [← hnumbered] at hin
    exact ⟨n, hsn, hpiece, hin⟩

theorem RecvEnd.flush (h : RecvEnd x sent l.toReceiver) (hitems : l.items = pieces sent)
    (hw : Windowed x.kcp) :
    ∃ r', Steps kcpWindows l { l with toReceiver := r' } ∧ RecvEnd x.flush sent r' := by
  obtain ⟨r', hsteps, hreceives, htaken, hreports, hanswers, hout⟩ :=
    Receives.flush (hitems ▸ h.receives) hw
  have hcounter := h.become_taken hreceives htaken.ge (Nat.le_add_right ..) (ikcpFlush x.kcp).2
  refine ⟨r', hsteps, h.got, hitems ▸ hreceives, hcounter, fun p hp => ?_⟩
  rcases List.mem_append.mp hp with hp | hp
  · obtain ⟨hreport, hsegs⟩ := h.out p hp
    refine ⟨hreports hreport, fun seg hseg => ⟨(hsegs seg hseg).1, fun hcmd => ?_⟩⟩
    obtain ⟨i, hi, hsn⟩ := (hsegs seg hseg).2 hcmd
    exact ⟨i, hanswers hi, hsn⟩
  · obtain ⟨segs, hsegs, rfl⟩ := List.mem_map.mp hp
    have hstamp : (x.become (ikcpFlush x.kcp).1 (ikcpFlush x.kcp).2).taken = l.taken :=
      hcounter.trans htaken
    have hnew := hout segs hsegs
    rw [← hstamp] at hnew
    exact hnew

/-- The timer thread flushes, or only looks at the clock. -/
theorem Endpoint.update_eq (x : Endpoint) (current : UInt32) :
    ∃ kcp, kcp.flow = x.kcp.flow ∧ Keeps x.kcp kcp ∧
      (x.update current = { x with kcp := kcp }.flush ∨ x.update current = { x with kcp := kcp }) := by
  obtain ⟨kcp, hflow, hkeeps, heq⟩ := ikcpUpdate_eq x.kcp current
  have hsnd : kcp.sndNxt = x.kcp.sndNxt := congrArg (fun f => f.send.nxt) hflow
  have hrcv : kcp.rcvNxt = x.kcp.rcvNxt := congrArg (fun f => f.recv.nxt) hflow
  refine ⟨kcp, hflow, hkeeps, ?_⟩
  rcases heq with heq | heq
  · left
    rw [Endpoint.update, heq, Endpoint.flush]
    dsimp only [Endpoint.become]
    rw [hsnd, hrcv]
  · right
    rw [Endpoint.update, heq]
    dsimp only [Endpoint.become]
    rw [hsnd, hrcv, UInt32.sub_self, UInt32.sub_self, List.map_nil, List.append_nil]
    rfl

/-! ## Receiving -/

/-- The control block after the segments of a datagram, with the fast ack and the window update at
the end or without them. -/
def ReadTo (kcp : Ikcpcb) (segs : List IkcpSeg) (kcp' : Ikcpcb) : Prop :=
  kcp' = processed kcp segs ∨ kcp' = ((segs.map IkcpSeg.received).foldl inputSeg (kcp, none)).1

theorem SendEnd.input {segs : List IkcpSeg} (h : SendEnd x l.toSender) (hl : l.Inv kcpWindows)
    (hsegs : ∀ seg ∈ segs, Answers l.toReceiver lifetime seg) (hread : ReadTo x.kcp segs kcp) :
    ∃ s', Steps kcpWindows l { l with toSender := s' } ∧ SendEnd (x.become kcp []) s' := by
  have hreceived : ∀ seg ∈ segs.map IkcpSeg.received, Answers l.toReceiver lifetime seg := by
    intro seg hseg
    obtain ⟨seg', hseg', rfl⟩ := List.mem_map.mp hseg
    exact ⟨(hsegs seg' hseg').una, (hsegs seg' hseg').ack⟩
  have hstart : Sends ((x.kcp, none) : Ikcpcb × MaxAck).1.flow.send l.toSender := h.sends
  obtain ⟨s', hsteps, hloop, hitems, hnumbered, hdata⟩ := hstart.inputSegs hl hreceived
  have hsends : Sends kcp.flow.send s' := by
    rcases hread with rfl | rfl
    · obtain ⟨hqueue, nums, hwindow, hunacked⟩ := hloop
      refine ⟨?_, nums, hwindow.closeInput x.kcp.sndUna, hunacked⟩
      exact (congrArg (List.map IkcpSeg.piece)
        (keeps_closeInput x.kcp.sndUna _).sndQueue).trans hqueue
    · exact hloop
  refine ⟨s', hsteps, hitems.trans h.items, h.small, hsends,
    h.become_numbered hsends hnumbered.ge (by omega) [], ?_⟩
  intro p hp
  rw [hitems, hdata]
  rcases List.mem_append.mp hp with hp | hp
  · exact h.out p hp
  · exact absurd hp List.not_mem_nil

theorem RecvEnd.input {segs : List IkcpSeg} (h : RecvEnd x sent l.toReceiver)
    (hitems : l.items = pieces sent) (hl : l.Inv kcpWindows)
    (hsegs : ∀ seg ∈ segs, Carries l.toSender lifetime seg) (hread : ReadTo x.kcp segs kcp) :
    ∃ r', Steps kcpWindows l { l with toReceiver := r' } ∧ RecvEnd (x.become kcp []) sent r' := by
  have hreceived : ∀ seg ∈ segs.map IkcpSeg.received, Carries l.toSender lifetime seg := by
    intro seg hseg
    obtain ⟨seg', hseg', rfl⟩ := List.mem_map.mp hseg
    exact hsegs seg' hseg'
  have hstart : Receives ((x.kcp, none) : Ikcpcb × MaxAck).1.flow.recv x.got l.items
      l.toReceiver := hitems ▸ h.receives
  obtain ⟨r', hsteps, hloop, hle, hreports, hanswers⟩ := hstart.inputSegs hl hreceived
  have hreceives : Receives kcp.flow.recv x.got l.items r' := by
    rcases hread with rfl | rfl
    · rw [processed, recv_closeInput]
      exact hloop
    · exact hloop
  refine ⟨r', hsteps, h.got, hitems ▸ hreceives,
    h.become_taken hreceives hle (Nat.le_add_right ..) [], fun p hp => ?_⟩
  rw [hreports, hanswers]
  rcases List.mem_append.mp hp with hp | hp
  · exact h.out p hp
  · exact absurd hp List.not_mem_nil

theorem SendEnd.recv (h : SendEnd x s) (len : Nat) : SendEnd (x.recv len) s := by
  have hflow : (ikcpRecv x.kcp len).2.2.flow.send = x.kcp.flow.send := by
    rcases ikcpRecv_cases x.kcp len with ⟨-, hsame⟩ | ⟨-, -, -, -, hflow⟩
    · rw [hsame]
    · rw [hflow]
      rfl
  have hnxt : (ikcpRecv x.kcp len).2.2.sndNxt = x.kcp.sndNxt :=
    congrArg SendSide.nxt hflow
  refine ⟨h.items, h.small, hflow ▸ h.sends, ?_, ?_⟩
  · show x.numbered + ((ikcpRecv x.kcp len).2.2.sndNxt - x.kcp.sndNxt).toNat = s.numbered
    rw [hnxt, UInt32.sub_self]
    exact h.numbered
  · intro p hp
    rcases List.mem_append.mp hp with hp | hp
    · exact h.out p hp
    · exact absurd hp List.not_mem_nil

theorem RecvEnd.recv (h : RecvEnd x sent l.toReceiver) (hitems : l.items = pieces sent)
    (hsmall : ∀ msg ∈ sent, fragmentCount 1376 msg.length < 8192) (len : Nat) :
    ∃ r', Steps kcpWindows l { l with toReceiver := r' } ∧ RecvEnd (x.recv len) sent r' := by
  have hout : ∀ r' : Receiver, r'.reports = l.reports → r'.answers = l.answers →
      ∀ p ∈ (x.recv len).out, p.taken ∈ r'.reports ∧ ∀ seg ∈ p.segs,
        seg.una = UInt32.ofNat p.taken ∧
        (seg.cmd = cmdAck → ∃ i, (i, p.taken) ∈ r'.answers ∧ seg.sn = UInt32.ofNat i) := by
    intro r' hreports hanswers p hp
    rw [hreports, hanswers]
    rcases List.mem_append.mp hp with hp | hp
    · exact h.out p hp
    · exact absurd hp List.not_mem_nil
  by_cases hret : 0 ≤ (ikcpRecv x.kcp len).1
  · have hreceives : Receives x.kcp.flow.recv x.got l.items l.toReceiver := hitems ▸ h.receives
    obtain ⟨hgot, r', hsteps, hnext, hle, hreports, hanswers⟩ :=
      hreceives.recv hitems h.got hsmall len hret
    have hshort : (pieces (x.got ++ [(ikcpRecv x.kcp len).2.1])).length ≤
        (pieces x.got).length + 8192 := by
      obtain ⟨rest, heq⟩ := hgot
      have hmem : (ikcpRecv x.kcp len).2.1 ∈ sent := by
        rw [← heq]
        simp
      have hcount := hsmall _ hmem
      rw [pieces_append, pieces_singleton, List.length_append, messagePieces_length]
      omega
    have hval : (x.recv len).got = x.got ++ [(ikcpRecv x.kcp len).2.1] := if_pos hret
    refine ⟨r', hsteps, hval ▸ hgot, ?_, h.become_taken hnext hle hshort [],
      hout r' hreports hanswers⟩
    rw [hval, ← hitems]
    exact hnext
  · rcases ikcpRecv_cases x.kcp len with ⟨-, hsame⟩ | ⟨-, -, hlen, -⟩
    · have hval : (x.recv len).got = x.got := if_neg hret
      have hkcp : (x.recv len).kcp = x.kcp := congrArg Prod.snd hsame
      refine ⟨l.toReceiver, .refl, hval ▸ h.got, ?_, ?_, hout l.toReceiver rfl rfl⟩
      · rw [hval, hkcp]
        exact h.receives
      · show x.taken + ((ikcpRecv x.kcp len).2.2.rcvNxt - x.kcp.rcvNxt).toNat = l.taken
        rw [hsame, UInt32.sub_self]
        exact h.taken
    · rw [hlen] at hret
      exact absurd (Int.natCast_nonneg _) hret

/-! ## Every run -/

/-- The control block is set up right, and what it has output can be read. -/
structure Proper (conv : UInt32) (x : Endpoint) : Prop where
  windowed : Windowed x.kcp
  conv_eq : x.kcp.conv = conv
  out : ∀ p ∈ x.out, p.segs ≠ [] ∧ ∀ seg ∈ p.segs, Sendable conv seg

variable {conv : UInt32} {x' y : Endpoint}

theorem Proper.become (h : Proper conv x) (hw : Windowed kcp) (hconv : kcp.conv = x.kcp.conv)
    {datagrams : List (List IkcpSeg)}
    (hout : ∀ d ∈ datagrams, d ≠ [] ∧ ∀ seg ∈ d, Sendable x.kcp.conv seg) :
    Proper conv (x.become kcp datagrams) := by
  refine ⟨hw, hconv.trans h.conv_eq, fun p hp => ?_⟩
  rcases List.mem_append.mp hp with hp | hp
  · exact h.out p hp
  · obtain ⟨segs, hsegs, rfl⟩ := List.mem_map.mp hp
    rw [← h.conv_eq]
    exact hout segs hsegs

theorem Proper.queue (h : Proper conv x) (buffer : Bytes) : Proper conv (x.queue buffer) := by
  have hw : Windowed (ikcpSend x.kcp buffer).2 :=
    h.windowed.step (show kcpStep x.kcp (.send buffer) = some _ from rfl)
  have hconv : (ikcpSend x.kcp buffer).2.conv = x.kcp.conv := by
    rcases h.windowed.context.ikcpSend buffer with ⟨-, hsame⟩ | ⟨msg, -, -, -, hqueued⟩
    · rw [hsame]
    · rw [hqueued]
  exact ⟨hw, hconv.trans h.conv_eq, h.out⟩

theorem Proper.flush (h : Proper conv x) : Proper conv x.flush := by
  obtain ⟨-, hconv, hout⟩ := h.windowed.context.flush
  exact h.become h.windowed.flush hconv hout

theorem Proper.update (h : Proper conv x) (current : UInt32) : Proper conv (x.update current) := by
  obtain ⟨kcp, hflow, hkeeps, heq⟩ := x.update_eq current
  have hkcp : Proper conv { x with kcp := kcp } :=
    ⟨⟨h.windowed.context.keeps hkeeps, hflow ▸ h.windowed.send, hflow ▸ h.windowed.recv⟩,
      hkeeps.conv.trans h.conv_eq, h.out⟩
  rcases heq with heq | heq
  · rw [heq]
    exact hkcp.flush
  · rw [heq]
    exact hkcp

theorem Proper.recv (h : Proper conv x) (len : Nat) : Proper conv (x.recv len) := by
  have hw : Windowed (ikcpRecv x.kcp len).2.2 :=
    h.windowed.step (show kcpStep x.kcp (.recv len) = some _ from rfl)
  have hnext : Proper conv (x.become (ikcpRecv x.kcp len).2.2 []) :=
    h.become hw (keeps_ikcpRecv x.kcp len).conv nofun
  exact ⟨hnext.windowed, hnext.conv_eq, hnext.out⟩

theorem sum_data_le {segs : List IkcpSeg} (h : ∀ seg ∈ segs, Sendable conv seg) :
    (segs.map fun seg => seg.data.length).sum ≤ segs.length * 1376 := by
  have hsum := List.sum_le_card_nsmul (segs.map fun seg => seg.data.length) 1376 fun d hd => by
    obtain ⟨seg, hseg, rfl⟩ := List.mem_map.mp hd
    exact (h seg hseg).data
  rwa [List.length_map, smul_eq_mul] at hsum

theorem keeps_inputSegs (segs : List IkcpSeg) (st : Ikcpcb × MaxAck) :
    Keeps st.1 (segs.foldl inputSeg st).1 := by
  induction segs generalizing st with
  | nil => exact Keeps.refl _
  | cons seg segs ih => exact (keeps_inputSeg st seg).trans (ih _)

theorem Endpoint.input_eq (hx : Proper conv x) (hy : Proper conv y) {p : Packet} (hp : p ∈ y.out)
    {after : Bytes} (hends : Ends x.kcp p after) (hs : x.input p after = some x') :
    ∃ kcp, ReadTo x.kcp p.segs kcp ∧ x' = x.become kcp [] := by
  obtain ⟨hne, hsend⟩ := hy.out p hp
  have hsum := sum_data_le hsend
  rw [← hx.conv_eq] at hsend
  by_cases hfew : p.segs.length ≤ 11
  · have hread : ReadsBack x.kcp 0xffffffff p.segs :=
      (readsBack_iff hne hsend).mpr ⟨hfew, show _ ≤ 4294967295 by omega⟩
    rw [Endpoint.input, hread.input after] at hs
    cases hs
    exact ⟨_, .inl rfl, rfl⟩
  · obtain ⟨conv', rest, hconv, hother⟩ := hends.resolve_left hfew
    have hkeeps := keeps_inputSegs (p.segs.map IkcpSeg.received) (x.kcp, none)
    rw [← hkeeps.conv] at hother
    rw [Endpoint.input, ikcpInput_encodeSegs hne hsend, inputLoop,
      dif_neg (by unfold overhead; omega), hconv] at hs
    dsimp only at hs
    rw [if_pos hother] at hs
    cases hs
    exact ⟨_, .inr rfl, rfl⟩

theorem Proper.step {a : CallAction} (h : Proper conv x) (hs : x.step y a = some x') :
    Proper conv x' := by
  cases a with
  | sendPkt buf =>
      cases hs
      unfold Endpoint.sendPkt
      split
      · exact h.queue buf
      · exact (h.queue buf).flush
  | update current =>
      cases hs
      exact h.update current
  | deliver i after =>
      obtain ⟨p, hp, hin⟩ := Option.bind_eq_some_iff.mp hs
      obtain ⟨⟨ret, kcp⟩, hinput, rfl⟩ := Option.map_eq_some_iff.mp hin
      exact h.become (h.windowed.input hinput) (keeps_ikcpInput hinput).conv nofun
  | recv len =>
      cases hs
      exact h.recv len

/-- The link from one endpoint to the other. -/
structure Linked (x y : Endpoint) (l : Link Piece) : Prop where
  inv : l.Inv kcpWindows
  send : SendEnd x l.toSender
  recv : RecvEnd y x.sent l.toReceiver

/-- What a datagram of the receiver says is in the network of the link. -/
theorem Linked.answers (h : Linked x y l) {p : Packet} (hp : p ∈ y.out)
    (hfresh : y.taken ≤ p.taken + lifetime) :
    ∀ seg ∈ p.segs, Answers l.toReceiver lifetime seg := by
  rw [h.recv.taken] at hfresh
  obtain ⟨hreport, hsegs⟩ := h.recv.out p hp
  intro seg hseg
  obtain ⟨huna, hack⟩ := hsegs seg hseg
  refine ⟨⟨p.taken, hreport, huna, hfresh⟩, fun hcmd => ?_⟩
  obtain ⟨i, hi, hsn⟩ := hack hcmd
  exact ⟨i, p.taken, hi, hsn, hfresh⟩

theorem Linked.carries (h : Linked x y l) {p : Packet} (hp : p ∈ x.out)
    (hfresh : x.numbered ≤ p.numbered + lifetime) :
    ∀ seg ∈ p.segs, Carries l.toSender lifetime seg := by
  rw [h.send.numbered] at hfresh
  intro seg hseg hcmd
  obtain ⟨n, hsn, hpiece, hdata⟩ := h.send.out p hp seg hseg hcmd
  exact ⟨n, p.numbered, hdata, hsn, hpiece, hfresh⟩

theorem Linked.send_step {a : CallAction} (h : Linked x y l) (hx : Proper conv x)
    (hy : Proper conv y) (ha : a.Timely x y) (hs : x.step y a = some x') : ∃ l', Linked x' y l' := by
  obtain ⟨hinv, hsend, hrecv⟩ := h
  have hflushed : ∀ {x : Endpoint} {l : Link Piece}, l.Inv kcpWindows → SendEnd x l.toSender →
      RecvEnd y x.sent l.toReceiver → Proper conv x → ∃ l', Linked x.flush y l' := by
    intro x l hinv hsend hrecv hx
    obtain ⟨s', hsteps, hsend'⟩ := hsend.flush hinv hx.windowed.context
    exact ⟨_, hinv.steps hsteps, hsend', hrecv⟩
  cases a with
  | sendPkt buf =>
      cases hs
      obtain ⟨s', hsteps, hsend', hpre⟩ := hsend.queue hinv hx.windowed.context buf
      unfold Endpoint.sendPkt
      split
      · exact ⟨_, hinv.steps hsteps, hsend', hrecv.mono hpre⟩
      · exact hflushed (hinv.steps hsteps) hsend' (hrecv.mono hpre) (hx.queue buf)
  | update current =>
      cases hs
      obtain ⟨kcp, hflow, hkeeps, heq⟩ := x.update_eq current
      have hsend₁ : SendEnd { x with kcp := kcp } l.toSender :=
        hsend.of_flow (congrArg Flow.send hflow)
      have hx₁ : Proper conv { x with kcp := kcp } :=
        ⟨⟨hx.windowed.context.keeps hkeeps, hflow ▸ hx.windowed.send, hflow ▸ hx.windowed.recv⟩,
          hkeeps.conv.trans hx.conv_eq, hx.out⟩
      rcases heq with heq | heq
      · rw [heq]
        exact hflushed hinv hsend₁ hrecv hx₁
      · rw [heq]
        exact ⟨l, hinv, hsend₁, hrecv⟩
  | deliver i after =>
      obtain ⟨p, hp, hin⟩ := Option.bind_eq_some_iff.mp hs
      obtain ⟨hends, -, hfresh⟩ := ha p hp
      have hmem := List.mem_of_getElem? hp
      obtain ⟨kcp, hread, rfl⟩ := Endpoint.input_eq hx hy hmem hends hin
      obtain ⟨s', hsteps, hsend'⟩ :=
        hsend.input hinv (Linked.answers ⟨hinv, hsend, hrecv⟩ hmem hfresh) hread
      exact ⟨_, hinv.steps hsteps, hsend', hrecv⟩
  | recv len =>
      cases hs
      exact ⟨l, hinv, hsend.recv len, hrecv⟩

theorem Linked.recv_step {a : CallAction} (h : Linked y x l) (hx : Proper conv x)
    (hy : Proper conv y) (ha : a.Timely x y) (hs : x.step y a = some x') : ∃ l', Linked y x' l' := by
  obtain ⟨hinv, hsend, hrecv⟩ := h
  have hflushed : ∀ {x : Endpoint}, RecvEnd x y.sent l.toReceiver → Proper conv x →
      ∃ l', Linked y x.flush l' := by
    intro x hrecv hx
    obtain ⟨r', hsteps, hrecv'⟩ := hrecv.flush hsend.items hx.windowed
    exact ⟨_, hinv.steps hsteps, hsend, hrecv'⟩
  cases a with
  | sendPkt buf =>
      cases hs
      have hrecv' := hrecv.queue hx.windowed.context buf
      unfold Endpoint.sendPkt
      split
      · exact ⟨l, hinv, hsend, hrecv'⟩
      · exact hflushed hrecv' (hx.queue buf)
  | update current =>
      cases hs
      obtain ⟨kcp, hflow, hkeeps, heq⟩ := x.update_eq current
      have hrecv₁ : RecvEnd { x with kcp := kcp } y.sent l.toReceiver :=
        hrecv.of_flow (congrArg Flow.recv hflow)
      have hx₁ : Proper conv { x with kcp := kcp } :=
        ⟨⟨hx.windowed.context.keeps hkeeps, hflow ▸ hx.windowed.send, hflow ▸ hx.windowed.recv⟩,
          hkeeps.conv.trans hx.conv_eq, hx.out⟩
      rcases heq with heq | heq
      · rw [heq]
        exact hflushed hrecv₁ hx₁
      · rw [heq]
        exact ⟨l, hinv, hsend, hrecv₁⟩
  | deliver i after =>
      obtain ⟨p, hp, hin⟩ := Option.bind_eq_some_iff.mp hs
      obtain ⟨hends, hfresh, -⟩ := ha p hp
      have hmem := List.mem_of_getElem? hp
      obtain ⟨kcp, hread, rfl⟩ := Endpoint.input_eq hx hy hmem hends hin
      obtain ⟨r', hsteps, hrecv'⟩ :=
        hrecv.input hsend.items hinv (Linked.carries ⟨hinv, hsend, hrecv⟩ hmem hfresh) hread
      exact ⟨_, hinv.steps hsteps, hsend, hrecv'⟩
  | recv len =>
      cases hs
      obtain ⟨r', hsteps, hrecv'⟩ := hrecv.recv hsend.items hsend.small len
      exact ⟨_, hinv.steps hsteps, hsend, hrecv'⟩

end

end Hprd.Net.Kcp

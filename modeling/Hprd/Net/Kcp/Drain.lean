import Hprd.Net.TcpClient
import Hprd.Net.Kcp.Delivery
import Hprd.Net.Kcp.Emission
import Hprd.Net.Kcp.Reading

/-!
# Nothing gets stuck

Whatever has been lost, however the windows have closed: where no message is longer than
the buffer it is read into, the two ends can go on from every state, without another
message, until each has received all that the other has sent. A full receive queue is read, a closed window is probed, and a segment whose
time has come is taken or answered.
-/

namespace Hprd.Net.Kcp

open Hprd.Core Hprd.Core.Arq

/-- Everything but a new message. -/
def CallAction.Quiet : CallAction → Prop
  | .sendPkt _ => False
  | _ => True

/-- `_kcp_recvdata` reads into `BUFLEN` bytes. -/
def CallAction.RecvData : CallAction → Prop
  | .recv len => len = bufLen
  | _ => True

/-- A step that the network does not spoil, and that sends nothing new. -/
def Moves (s t : Conversation) : Prop :=
  ∃ a, Timely s a ∧ a.2.Quiet ∧ a.2.RecvData ∧ conversationMachine.step s a = some t

/-- No message is longer than the buffer it is read into. -/
def Short (s : Conversation) : Prop := ∀ side, ∀ msg ∈ (s side).sent, msg.length ≤ bufLen

abbrev Leads : Conversation → Conversation → Prop := Relation.ReflTransGen Moves

/-- The segments that have no ack yet. -/
def Endpoint.waiting (x : Endpoint) : Nat := x.kcp.sndQueue.length + x.kcp.sndBuf.length

/-- What is to be taken and to be acknowledged in one direction. -/
def left (s : Conversation) (side : Side) : Nat :=
  (pieces (s side).sent).length - (s side.other).taken + (s side).waiting

def rank (s : Conversation) : Nat := left s .client + left s .server

section

variable {s t : Conversation} {side : Side} {x x' y : Endpoint} {conv : UInt32} {kcp : Ikcpcb}

/-! ## What no step undoes -/

theorem Endpoint.waiting_flush (hw : Windowed x.kcp) : x.flush.waiting = x.waiting := by
  obtain ⟨hc, ⟨numbered, una, nums, hsend⟩, -⟩ := hw
  obtain ⟨k, hk, hsend', hstay, -⟩ := hsend.flush hc fun _ _ _ => trivial
  have hlen : x.kcp.sndBuf.length = nums.length := hsend.buf.length
  have hlen' : (ikcpFlush x.kcp).1.sndBuf.length = (nums ++ List.range' numbered k).length :=
    hsend'.buf.length
  show (ikcpFlush x.kcp).1.sndQueue.length + (ikcpFlush x.kcp).1.sndBuf.length = _
  rw [hstay, hlen', List.length_drop, List.length_append, List.length_range', Endpoint.waiting, hlen]
  omega

/-- Input takes segments out of the buffer only. -/
theorem Windowed.input_waiting (hw : Windowed kcp) {data : Bytes} {size : Nat} {ret : Int}
    {kcp' : Ikcpcb} (hin : ikcpInput kcp data size = some (ret, kcp')) :
    kcp'.sndBuf.length ≤ kcp.sndBuf.length := by
  obtain ⟨-, ⟨numbered, una, nums, hsend⟩, -⟩ := hw
  have hlen : kcp.sndBuf.length = nums.length := hsend.buf.length
  have hshort : ∀ kcp' : Ikcpcb, (∃ una' nums', SendWindow AnyPiece kcp'.flow.send numbered una' nums' ∧
      nums'.length ≤ nums.length) → kcp'.sndBuf.length ≤ kcp.sndBuf.length := by
    rintro kcp' ⟨una', nums', hsend', hle⟩
    have hlen' : kcp'.sndBuf.length = nums'.length := hsend'.buf.length
    omega
  unfold ikcpInput at hin
  split at hin
  · cases hin
    exact Nat.le_refl _
  · obtain ⟨⟨ret', st⟩, hloop, hout⟩ := Option.map_eq_some_iff.mp hin
    have hst : ∃ una' nums', SendWindow AnyPiece st.1.flow.send numbered una' nums' ∧
        nums'.length ≤ nums.length := by
      refine inputLoop_invariant (P := fun kcp => ∃ una' nums',
        SendWindow AnyPiece kcp.flow.send numbered una' nums' ∧ nums'.length ≤ nums.length)
        (fun st seg ⟨una₁, nums₁, h₁, hle₁⟩ => ?_) hloop ⟨una, nums, hsend, Nat.le_refl _⟩
      obtain ⟨una₂, nums₂, h₂, hsub, -⟩ := h₁.inputSeg seg
      exact ⟨una₂, nums₂, h₂, hsub.length_le.trans hle₁⟩
    dsimp only at hout
    split at hout
    · cases hout
      obtain ⟨una', nums', hsend', hle⟩ := hst
      exact hshort _ ⟨una', nums', hsend'.closeInput _, hle⟩
    · cases hout
      exact hshort _ hst

/-- What a step without a new message keeps, and what it cannot undo. -/
theorem Proper.quiet_step {a : CallAction} (h : Proper conv x) (ha : a.Quiet)
    (hs : x.step y a = some x') :
    x'.sent = x.sent ∧ x.taken ≤ x'.taken ∧ x'.waiting ≤ x.waiting := by
  cases a with
  | sendPkt buf => exact absurd ha id
  | update current =>
      cases hs
      obtain ⟨kcp, hflow, hkeeps, heq⟩ := x.update_eq current
      have hw : Windowed kcp :=
        ⟨h.windowed.context.keeps hkeeps, hflow ▸ h.windowed.send, hflow ▸ h.windowed.recv⟩
      have hsame : ({ x with kcp := kcp } : Endpoint).waiting = x.waiting :=
        congrArg (fun f => f.send.queue.length + f.send.buf.length) hflow
      rcases heq with heq | heq
      · rw [heq, Endpoint.waiting_flush hw, hsame]
        exact ⟨rfl, Nat.le_add_right .., Nat.le_refl _⟩
      · rw [heq, hsame]
        exact ⟨rfl, Nat.le_refl _, Nat.le_refl _⟩
  | deliver i after =>
      obtain ⟨p, hp, hin⟩ := Option.bind_eq_some_iff.mp hs
      obtain ⟨⟨ret, kcp⟩, hinput, rfl⟩ := Option.map_eq_some_iff.mp hin
      have hqueue : kcp.sndQueue = x.kcp.sndQueue := (keeps_ikcpInput hinput).sndQueue
      refine ⟨rfl, Nat.le_add_right .., ?_⟩
      show kcp.sndQueue.length + kcp.sndBuf.length ≤ _
      rw [hqueue]
      exact Nat.add_le_add_left (h.windowed.input_waiting hinput) _
  | recv len =>
      cases hs
      have hflow : (ikcpRecv x.kcp len).2.2.flow.send = x.kcp.flow.send := by
        rcases ikcpRecv_cases x.kcp len with ⟨-, hsame⟩ | ⟨-, -, -, -, hflow⟩
        · rw [hsame]
        · rw [hflow]
          rfl
      refine ⟨rfl, Nat.le_add_right .., Nat.le_of_eq ?_⟩
      exact congrArg (fun f => f.queue.length + f.buf.length) hflow

theorem Moves.cases (h : Moves s t) : ∃ side a x', Timely s (side, a) ∧ a.Quiet ∧
    (s side).step (s side.other) a = some x' ∧ t = Function.update s side x' := by
  obtain ⟨⟨side, a⟩, ha, hq, -, hs⟩ := h
  obtain ⟨x', hx', rfl⟩ := Option.map_eq_some_iff.mp hs
  exact ⟨side, a, x', ha, hq, hx', rfl⟩

@[simp] theorem update_side (s : Conversation) (side : Side) (x' : Endpoint) :
    Function.update s side x' side = x' := Function.update_self ..

@[simp] theorem update_other (s : Conversation) (side : Side) (x' : Endpoint) :
    Function.update s side x' side.other = s side.other :=
  Function.update_of_ne (Side.other_ne side) ..

/-- What is left in either direction never grows. -/
structure Onward (s t : Conversation) : Prop where
  conversing : Conversing t
  sent : ∀ side, (t side).sent = (s side).sent
  taken : ∀ side, (s side).taken ≤ (t side).taken
  waiting : ∀ side, (t side).waiting ≤ (s side).waiting

theorem Onward.refl (h : Conversing s) : Onward s s :=
  ⟨h, fun _ => rfl, fun _ => Nat.le_refl _, fun _ => Nat.le_refl _⟩

theorem Onward.trans {u : Conversation} (h : Onward s t) (h' : Onward t u) : Onward s u :=
  ⟨h'.conversing, fun side => (h'.sent side).trans (h.sent side),
    fun side => (h.taken side).trans (h'.taken side),
    fun side => (h'.waiting side).trans (h.waiting side)⟩

theorem Moves.onward (h : Moves s t) (hs : Conversing s) : Onward s t := by
  have hnext : Conversing t := by
    obtain ⟨a, ha, -, -, hstep⟩ := h
    exact hs.step ha hstep
  obtain ⟨side, a, x', -, hq, hx', rfl⟩ := h.cases
  obtain ⟨⟨conv, hproper⟩, -⟩ := hs
  obtain ⟨hsent, htaken, hwaiting⟩ := (hproper side).quiet_step hq hx'
  have hboth : ∀ P : Endpoint → Endpoint → Prop, P (s side) x' → (∀ x, P x x) →
      ∀ side', P (s side') (Function.update s side x' side') := by
    intro P hP hrefl side'
    rcases Side.eq_or_other side side' with rfl | rfl
    · rw [update_side]
      exact hP
    · rw [update_other]
      exact hrefl _
  exact ⟨hnext, hboth (fun x x' => x'.sent = x.sent) hsent fun _ => rfl,
    hboth (fun x x' => x.taken ≤ x'.taken) htaken fun _ => Nat.le_refl _,
    hboth (fun x x' => x'.waiting ≤ x.waiting) hwaiting fun _ => Nat.le_refl _⟩

theorem Leads.onward (h : Leads s t) (hs : Conversing s) : Onward s t := by
  induction h with
  | refl => exact Onward.refl hs
  | tail _ hstep ih => exact ih.trans (hstep.onward ih.conversing)

theorem Onward.short (h : Onward s t) (hshort : Short s) : Short t := by
  intro side
  rw [h.sent]
  exact hshort side

theorem Onward.left_le (h : Onward s t) (side : Side) : left t side ≤ left s side := by
  have htaken := h.taken side.other
  have hwaiting := h.waiting side
  unfold left
  rw [h.sent]
  omega

theorem Onward.rank_le (h : Onward s t) : rank t ≤ rank s :=
  Nat.add_le_add (h.left_le .client) (h.left_le .server)

theorem Onward.rank_lt (h : Onward s t) (hlt : left t side < left s side) : rank t < rank s := by
  cases side with
  | client => exact Nat.add_lt_add_of_lt_of_le hlt (h.left_le .server)
  | server => exact Nat.add_lt_add_of_le_of_lt (h.left_le .client) hlt

/-! ## Steps that are always possible -/

theorem Moves.of_step {a : CallAction} (ha : a.Timely (s side) (s side.other)) (hq : a.Quiet)
    (hr : a.RecvData) (hs : (s side).step (s side.other) a = some x') :
    Moves s (Function.update s side x') :=
  ⟨(side, a), ha, hq, hr, Option.map_eq_some_iff.mpr ⟨x', hs, rfl⟩⟩

theorem exists_update (s : Conversation) (side : Side) (due : UInt32) :
    ∃ kcp current tsFlush, 0 ≤ itimediff current due ∧
      kcp = { (s side).kcp with current := current, updated := true, tsFlush := tsFlush } ∧
      Moves s (Function.update s side { s side with kcp := kcp }.flush) := by
  obtain ⟨current, tsFlush, hdue, heq⟩ := exists_flush (s side).kcp due
  refine ⟨_, current, tsFlush, hdue, rfl, ?_⟩
  have hstep : (s side).step (s side.other) (.update current) = some { s side with
      kcp := { (s side).kcp with
        current := current, updated := true, tsFlush := tsFlush } }.flush := by
    rw [Endpoint.step, Endpoint.update, heq]
    rfl
  exact .of_step (a := .update current) trivial trivial trivial hstep

theorem Endpoint.mem_flush_out {d : List IkcpSeg} (hd : d ∈ (ikcpFlush x.kcp).2) :
    (⟨d, x.flush.numbered, x.flush.taken⟩ : Packet) ∈ x.flush.out :=
  List.mem_append_right _ (List.mem_map_of_mem hd)

/-- Bytes behind a datagram that end the loop of `ikcp_input`. -/
theorem exists_after (kcp : Ikcpcb) (p : Packet) : ∃ after, Ends kcp p after := by
  refine ⟨encode32u (kcp.conv + 1), .inr ⟨kcp.conv + 1, [], ?_, ?_⟩⟩
  · have hread := decode32u_encode32u (kcp.conv + 1) []
    rwa [List.append_nil] at hread
  · intro heq
    have hval := congrArg (· - kcp.conv) heq
    rw [UInt32.sub_self, UInt32.add_comm, UInt32.add_sub_cancel] at hval
    exact absurd hval (by decide)

theorem exists_deliver (side : Side) (h : Conversing s) {p : Packet} (hp : p ∈ (s side.other).out)
    (hnumbered : (s side.other).numbered ≤ p.numbered)
    (htaken : (s side.other).taken ≤ p.taken) :
    ∃ kcp, ReadTo (s side).kcp p.segs kcp ∧
      Moves s (Function.update s side ((s side).become kcp [])) := by
  obtain ⟨⟨conv, hproper⟩, -⟩ := h
  obtain ⟨i, hi⟩ := List.mem_iff_getElem?.mp hp
  obtain ⟨after, hends⟩ := exists_after (s side).kcp p
  have hsome : ∃ x', (s side).input p after = some x' := by
    obtain ⟨hne, hsend⟩ := (hproper side.other).out p hp
    rw [← (hproper side).conv_eq] at hsend
    unfold Endpoint.input
    rw [ikcpInput_encodeSegs hne hsend, inputLoop]
    split
    · exact ⟨_, rfl⟩
    next hlong =>
        rcases hends with hfew | ⟨conv', rest, hconv, hother⟩
        · refine absurd ?_ hlong
          unfold overhead
          omega
        · have hkeeps := keeps_inputSegs (p.segs.map IkcpSeg.received) ((s side).kcp, none)
          rw [← hkeeps.conv] at hother
          rw [hconv]
          dsimp only
          rw [if_pos hother]
          exact ⟨_, rfl⟩
  obtain ⟨x', hx'⟩ := hsome
  obtain ⟨kcp, hread, rfl⟩ := Endpoint.input_eq (hproper side) (hproper side.other) hp hends hx'
  refine ⟨kcp, hread, .of_step (a := .deliver i after) (fun p' hp' => ?_) trivial trivial ?_⟩
  · cases hi.symm.trans hp'
    exact ⟨hends, hnumbered.trans (Nat.le_add_right ..), htaken.trans (Nat.le_add_right ..)⟩
  · rw [Endpoint.step, hi]
    exact hx'

/-- What is next in a queue that is full or has everything is one of the messages, as a whole. -/
theorem Linked.peeksize {l : Link Piece} (h : Linked x y l) (hne : y.kcp.rcvQueue ≠ [])
    (hfull : y.kcp.rcvQueue.length = 8192 ∨ l.taken = l.items.length) :
    ∃ msg ∈ x.sent, ikcpPeeksize y.kcp = msg.length := by
  obtain ⟨rest, hrest⟩ := h.recv.got
  have hqueue := h.recv.receives.queue
  have hcount : (pieces y.got).length + y.kcp.rcvQueue.length = l.taken := h.recv.receives.count
  obtain ⟨nums, hwindow, -⟩ := h.recv.receives.window
  have hpre : y.kcp.rcvQueue.map IkcpSeg.piece <+: pieces rest := by
    rw [← hrest, pieces_append] at hqueue
    exact (List.prefix_append_right_inj _).mp hqueue
  cases rest with
  | nil =>
      rw [pieces, List.flatMap_nil, List.prefix_nil, List.map_eq_nil_iff] at hpre
      exact absurd hpre hne
  | cons msg rest =>
      have hmem : msg ∈ x.sent := hrest ▸ List.mem_append_right _ (List.mem_cons_self ..)
      have hsmall := h.send.small msg hmem
      have hpeek : 0 ≤ ikcpPeeksize y.kcp := by
        refine peeksize_nonneg hsmall hwindow.queue hpre ?_
        rcases hfull with hfull | hall
        · omega
        · rw [h.send.items, ← hrest, pieces_append, List.length_append] at hall
          have hlen : (pieces (msg :: rest)).length =
              fragmentCount 1376 msg.length + (pieces rest).length := by
            rw [pieces, List.flatMap_cons, List.length_append, messagePieces_length]
            rfl
          omega
      refine ⟨msg, hmem, ?_⟩
      rw [peeksize_eq hpeek, (firstMessage_pieces hsmall hwindow.queue hne hpre hpeek).2]

theorem Endpoint.recv_got {len : Nat} (hne : y.kcp.rcvQueue ≠ []) (hpeek : 0 ≤ ikcpPeeksize y.kcp)
    (hlen : ikcpPeeksize y.kcp ≤ len) : (y.recv len).got.length = y.got.length + 1 := by
  have hret := ikcpRecv_nonneg hne hpeek hlen
  have hval : (y.recv len).got = y.got ++ [(ikcpRecv y.kcp len).2.1] := if_pos hret
  rw [hval, List.length_append, List.length_singleton]

/-- Reading goes on until it may stop, when before that the queue is full or has everything. -/
theorem exists_read (h : Conversing s) (hshort : Short s) (stop : Endpoint → Prop)
    (hgo : ∀ y l, Linked (s side.other) y l → ¬stop y → y.kcp.rcvQueue ≠ [] ∧
      (y.kcp.rcvQueue.length = 8192 ∨ l.taken = l.items.length)) :
    ∃ y, Leads s (Function.update s side y) ∧ stop y := by
  generalize hn : (s side.other).sent.length - (s side).got.length = n
  induction n using Nat.strong_induction_on generalizing s with
  | h n ih =>
      by_cases hstop : stop (s side)
      · refine ⟨s side, ?_, hstop⟩
        rw [Function.update_eq_self]
      · obtain ⟨l, hl⟩ := h.linked side.other
        rw [Side.other_other] at hl
        obtain ⟨hne, hfull⟩ := hgo _ l hl hstop
        obtain ⟨msg, hmem, hpeek⟩ := hl.peeksize hne hfull
        have hfits := hshort side.other msg hmem
        have hmoves : Moves s (Function.update s side ((s side).recv bufLen)) :=
          .of_step (a := .recv bufLen) trivial trivial rfl rfl
        have hgot := Endpoint.recv_got hne (by omega) (show _ ≤ (bufLen : Int) by omega)
        have honward := hmoves.onward h
        obtain ⟨l', hl'⟩ := honward.conversing.linked side.other
        have hle := hl'.recv.got.length_le
        rw [Side.other_other, update_side, update_other] at hle
        obtain ⟨y, hleads, hy⟩ := ih _ (by
          rw [← hn, update_side, update_other]
          omega) honward.conversing (honward.short hshort) (by
          rw [update_other]
          exact hgo) rfl
        rw [Function.update_idem] at hleads
        exact ⟨y, .head hmoves hleads, hy⟩

/-! ## What has been read -/

section

variable {kcp' : Ikcpcb} {segs : List IkcpSeg}

theorem ReadTo.recv (h : ReadTo kcp segs kcp') : kcp'.flow.recv =
    ((segs.map IkcpSeg.received).foldl inputSeg (kcp, none)).1.flow.recv := by
  rcases h with rfl | rfl
  · exact recv_closeInput ..
  · rfl

theorem ReadTo.asks (h : ReadTo kcp segs kcp') : kcp'.asks =
    ((segs.map IkcpSeg.received).foldl inputSeg (kcp, none)).1.asks := by
  rcases h with rfl | rfl
  · exact asks_closeInput ..
  · rfl

theorem ReadTo.send {Q : Nat → Piece → Prop} {numbered una : Nat} {nums : List Nat}
    (h : ReadTo kcp segs kcp') (hw : SendWindow Q
      ((segs.map IkcpSeg.received).foldl inputSeg (kcp, none)).1.flow.send numbered una nums) :
    SendWindow Q kcp'.flow.send numbered una nums := by
  rcases h with rfl | rfl
  · exact hw.closeInput _
  · exact hw

theorem ReadTo.keeps (h : ReadTo kcp segs kcp') : Keeps kcp kcp' := by
  have hloop := keeps_inputSegs (segs.map IkcpSeg.received) (kcp, none)
  rcases h with rfl | rfl
  · exact hloop.trans (keeps_closeInput ..)
  · exact hloop

theorem ReadTo.recv_of_no_push (h : ReadTo kcp segs kcp') (hno : ∀ seg ∈ segs, seg.cmd ≠ cmdPush) :
    kcp'.flow.recv = kcp.flow.recv := by
  rw [h.recv]
  refine recv_inputSegs fun seg hseg => ?_
  obtain ⟨seg', hseg', rfl⟩ := List.mem_map.mp hseg
  exact hno seg' hseg'

theorem ReadTo.tell (h : ReadTo kcp segs kcp') (hask : ∃ seg ∈ segs, seg.cmd = cmdWask) :
    kcp'.probe &&& askTell ≠ 0 := by
  have hprobe : kcp'.probe = _ := congrArg Prod.snd h.asks
  obtain ⟨seg, hseg, hcmd⟩ := hask
  rw [hprobe]
  exact tell_inputSegs (.inr ⟨seg.received, List.mem_map_of_mem hseg, hcmd⟩)

theorem ReadTo.rmtWnd {wnd : UInt32} (h : ReadTo kcp segs kcp') (hne : segs ≠ [])
    (hwnd : ∀ seg ∈ segs, seg.wnd = wnd) : kcp'.rmtWnd = wnd := by
  have hrmt : kcp'.rmtWnd = _ := congrArg Prod.fst h.asks
  rw [hrmt]
  refine rmtWnd_inputSegs (by simpa using hne) fun seg hseg => ?_
  obtain ⟨seg', hseg', rfl⟩ := List.mem_map.mp hseg
  exact hwnd seg' hseg'

end

/-- The receive queue is not full. -/
def Endpoint.Room (y : Endpoint) : Prop := y.kcp.rcvQueue.length < 8192

@[simp] theorem update_other_side (s : Conversation) (side : Side) (y : Endpoint) :
    Function.update s side.other y side = s side :=
  Function.update_of_ne (Side.other_ne side).symm ..

theorem exists_room (h : Conversing s) (hshort : Short s) (side : Side) :
    ∃ y, Leads s (Function.update s side y) ∧ y.Room := by
  refine exists_read h hshort Endpoint.Room fun y l hl hfull => ?_
  obtain ⟨nums, hwindow, -⟩ := hl.recv.receives.window
  have hle : y.kcp.rcvQueue.length ≤ 8192 := hwindow.queue
  have hlen : y.kcp.rcvQueue.length = 8192 := Nat.le_antisymm hle (not_lt.mp hfull)
  exact ⟨List.ne_nil_of_length_pos (by omega), .inl hlen⟩

theorem Windowed.at_time (h : Windowed kcp) (current tsFlush : UInt32) :
    Windowed { kcp with current := current, updated := true, tsFlush := tsFlush } :=
  ⟨h.context.keeps ⟨rfl, rfl, rfl, rfl, rfl, rfl, List.Subset.refl _⟩, h.send, h.recv⟩

/-- With a window at the peer, something is moved to `snd_buf`. -/
theorem exists_fill (h : Conversing s) (hrmt : (s side).kcp.rmtWnd ≠ 0)
    (hbuf : (s side).kcp.sndBuf = []) (hqueue : (s side).kcp.sndQueue ≠ []) :
    ∃ x', Moves s (Function.update s side x') ∧ x'.kcp.sndBuf ≠ [] := by
  obtain ⟨⟨conv, hproper⟩, -⟩ := h
  obtain ⟨kcp, current, tsFlush, -, hkcp, hmoves⟩ := exists_update s side 0
  have hw : Windowed kcp := hkcp ▸ (hproper side).windowed.at_time current tsFlush
  obtain ⟨hc, ⟨numbered, una, nums, hsend⟩, -⟩ := hw
  obtain ⟨k, -, hsend', -, hpos, -⟩ := hsend.flush hc fun _ _ _ => trivial
  have hnil : nums = [] := by
    have hlen : kcp.sndBuf.length = nums.length := hsend.buf.length
    rw [hkcp, show _ = (s side).kcp.sndBuf from rfl, hbuf] at hlen
    exact List.eq_nil_of_length_eq_zero hlen.symm
  have hk : 0 < k := by
    subst hkcp
    exact hpos rfl hrmt hqueue hnil
  refine ⟨_, hmoves, List.ne_nil_of_length_pos ?_⟩
  have hlen' : (ikcpFlush kcp).1.sndBuf.length = (nums ++ List.range' numbered k).length :=
    hsend'.buf.length
  show 0 < (ikcpFlush kcp).1.sndBuf.length
  rw [hlen', List.length_append, List.length_range']
  omega

/-! ## A closed window -/

theorem Endpoint.sndQueue_ne_nil (h : 0 < x.waiting) (hbuf : x.kcp.sndBuf = []) :
    x.kcp.sndQueue ≠ [] := by
  intro hnil
  unfold Endpoint.waiting at h
  rw [hnil, hbuf] at h
  exact absurd h (by decide)

theorem wndUnused_ne_zero (hc : Context kcp) (hroom : kcp.rcvQueue.length < 8192) :
    wndUnused kcp ≠ 0 := by
  have hlt : nrcvQue kcp < kcp.rcvWnd := by
    rw [hc.rcvWnd]
    exact (queue_lt_wndRcv hroom.le).mpr hroom
  have hlt' := UInt32.lt_iff_toNat_lt.mp hlt
  unfold wndUnused
  rw [if_pos hlt]
  intro hzero
  have hval := congrArg UInt32.toNat hzero
  rw [UInt32.toNat_sub_of_le _ _ (UInt32.le_iff_toNat_le.mpr hlt'.le)] at hval
  change _ = 0 at hval
  omega

theorem exists_wask (h : Conversing s) (hrmt : (s side).kcp.rmtWnd = 0)
    (hwait : (s side).kcp.probeWait ≠ 0) :
    ∃ x', Moves s (Function.update s side x') ∧ x'.waiting = (s side).waiting ∧
      (x'.kcp.sndBuf = [] → ∃ p ∈ x'.out, x'.numbered = p.numbered ∧ x'.taken = p.taken ∧
        (∃ seg ∈ p.segs, seg.cmd = cmdWask) ∧ ∀ seg ∈ p.segs, seg.cmd ≠ cmdPush) := by
  obtain ⟨⟨conv, hproper⟩, -⟩ := h
  obtain ⟨kcp, current, tsFlush, hdue, hkcp, hmoves⟩ := exists_update s side (s side).kcp.tsProbe
  have hw : Windowed kcp := hkcp ▸ (hproper side).windowed.at_time current tsFlush
  obtain ⟨hc, ⟨numbered, una, nums, hsend⟩, -⟩ := id hw
  obtain ⟨k, -, hsend', -, -, hout⟩ := hsend.flush hc fun _ _ _ => trivial
  refine ⟨_, hmoves, ?_, fun hbuf => ?_⟩
  · rw [Endpoint.waiting_flush hw]
    subst hkcp
    rfl
  · have hnil : nums ++ List.range' numbered k = [] := by
      have hlen : (ikcpFlush kcp).1.sndBuf.length = (nums ++ List.range' numbered k).length :=
        hsend'.buf.length
      rw [show (ikcpFlush kcp).1.sndBuf = [] from hbuf] at hlen
      exact List.eq_nil_of_length_eq_zero hlen.symm
    have hask : (probeWindow { kcp with acklist := [] }).probe &&& askSend ≠ 0 := by
      have hprobe := @probeWindow_asks { kcp with acklist := [] }
        (by rw [hkcp]; exact hrmt) (by rw [hkcp]; exact hwait) (by rw [hkcp]; exact hdue)
      rw [hprobe]
      exact or_and_ne_zero (.inr (by decide))
    obtain ⟨d, hd, hwask⟩ := flush_wask (by rw [hkcp]) hask
    refine ⟨_, Endpoint.mem_flush_out hd, rfl, rfl, hwask, fun seg hseg hcmd => ?_⟩
    obtain ⟨n, hn, -⟩ := (hout d hd seg hseg).push hcmd
    rw [hnil] at hn
    exact absurd hn List.not_mem_nil

theorem exists_wins (side : Side) (h : Conversing s) (hroom : (s side).Room)
    (htell : (s side).kcp.probe &&& askTell ≠ 0) :
    ∃ y', Moves s (Function.update s side y') ∧ y'.Room ∧
      ∃ p ∈ y'.out, y'.numbered = p.numbered ∧ y'.taken = p.taken ∧ p.segs ≠ [] ∧
        ∃ wnd ≠ 0, ∀ seg ∈ p.segs, seg.wnd = wnd := by
  obtain ⟨⟨conv, hproper⟩, -⟩ := h
  obtain ⟨kcp, current, tsFlush, -, hkcp, hmoves⟩ := exists_update s side 0
  have hw : Windowed kcp := hkcp ▸ (hproper side).windowed.at_time current tsFlush
  obtain ⟨hc, ⟨numbered, una, nums, hsend⟩, -⟩ := hw
  obtain ⟨k, -, -, -, -, hout⟩ := hsend.flush hc fun _ _ _ => trivial
  have hqueue : kcp.rcvQueue.length < 8192 := by
    rw [hkcp]
    exact hroom
  have htell' : (probeWindow { kcp with acklist := [] }).probe &&& askTell ≠ 0 := by
    have hprobe : kcp.probe &&& askTell ≠ 0 := by
      rw [hkcp]
      exact htell
    rcases probeWindow_keeps { kcp with acklist := [] } with heq | heq
    · rw [heq]
      exact hprobe
    · rw [heq]
      exact or_and_ne_zero (.inl hprobe)
  obtain ⟨d, hd, seg, hseg, -⟩ := flush_wins (by rw [hkcp]) htell'
  refine ⟨_, hmoves, ?_, _, Endpoint.mem_flush_out hd, rfl, rfl, List.ne_nil_of_mem hseg,
    wndUnused kcp, wndUnused_ne_zero hc hqueue, fun seg hseg => (hout d hd seg hseg).wnd_eq⟩
  have hrecv := congrArg (fun g => g.queue.length) (recv_ikcpFlush kcp)
  show (ikcpFlush kcp).1.rcvQueue.length < 8192
  refine Nat.lt_of_le_of_lt (Nat.le_of_eq ?_) hqueue
  refine hrecv.trans ?_
  split <;> rfl

theorem exists_timer (h : Conversing s) (hrmt : (s side).kcp.rmtWnd = 0)
    (hwait : 0 < (s side).waiting) :
    ∃ x', Leads s (Function.update s side x') ∧ x'.kcp.rmtWnd = 0 ∧ x'.kcp.probeWait ≠ 0 ∧
      0 < x'.waiting := by
  by_cases hzero : (s side).kcp.probeWait = 0
  · obtain ⟨⟨conv, hproper⟩, -⟩ := h
    obtain ⟨kcp, current, tsFlush, -, hkcp, hmoves⟩ := exists_update s side 0
    have hw : Windowed kcp := hkcp ▸ (hproper side).windowed.at_time current tsFlush
    have hclosed : kcp.rmtWnd = 0 := by
      rw [hkcp]
      exact hrmt
    have hunset : kcp.probeWait = 0 := by
      rw [hkcp]
      exact hzero
    obtain ⟨hrmt', hwait'⟩ := probeTimer_ikcpFlush (show kcp.updated = true by rw [hkcp])
    refine ⟨_, .single hmoves, hrmt'.trans hclosed, ?_, ?_⟩
    · show (ikcpFlush kcp).1.probeWait ≠ 0
      rw [hwait']
      exact @probeWindow_starts { kcp with acklist := [] } hclosed hunset
    · rw [Endpoint.waiting_flush hw]
      subst hkcp
      exact hwait
  · exact ⟨s side, by rw [Function.update_eq_self], hrmt, hzero, hwait⟩

/-- A sender with a closed window learns of the room at the receiver. -/
theorem exists_window (h : Conversing s) (hroom : (s side.other).Room)
    (hwait : 0 < (s side).waiting) (hrmt : (s side).kcp.rmtWnd = 0) :
    ∃ t, Leads s t ∧ (t side.other).Room ∧ 0 < (t side).waiting ∧
      ((t side).kcp.sndBuf ≠ [] ∨ (t side).kcp.rmtWnd ≠ 0) := by
  obtain ⟨x₁, hleads₁, hrmt₁, hwait₁, hpos₁⟩ := exists_timer h hrmt hwait
  have h₁ := (hleads₁.onward h).conversing
  obtain ⟨x₂, hmoves₂, hsame₂, hask⟩ := exists_wask (s := Function.update s side x₁) h₁
    (by rwa [update_side]) (by rwa [update_side])
  have h₂ := (hmoves₂.onward h₁).conversing
  rw [Function.update_idem] at hmoves₂ h₂
  rw [update_side] at hsame₂
  have hleads₂ := hleads₁.tail hmoves₂
  have hpos₂ : 0 < x₂.waiting := hsame₂ ▸ hpos₁
  by_cases hbuf : x₂.kcp.sndBuf = []
  · obtain ⟨p, hp, hnumbered, htaken, hwask, hno⟩ := hask hbuf
    -- the receiver is asked
    obtain ⟨kcp₃, hread₃, hmoves₃⟩ := exists_deliver side.other h₂
      (by rwa [Side.other_other, update_side]) (by rw [Side.other_other, update_side, hnumbered])
      (by rw [Side.other_other, update_side, htaken])
    have h₃ := (hmoves₃.onward h₂).conversing
    rw [update_other] at hread₃ hmoves₃ h₃
    have hroom₃ : ((s side.other).become kcp₃ []).Room := by
      have hsame := congrArg (fun g => g.queue.length) (hread₃.recv_of_no_push hno)
      exact Nat.lt_of_le_of_lt (Nat.le_of_eq hsame) hroom
    -- and answers
    obtain ⟨y₄, hmoves₄, hroom₄, p', hp', hnumbered', htaken', hne, wnd, hwnd, hall⟩ :=
      exists_wins side.other h₃ (by rwa [update_side])
        (by rw [update_side]; exact hread₃.tell hwask)
    have h₄ := (hmoves₄.onward h₃).conversing
    rw [Function.update_idem] at hmoves₄ h₄
    obtain ⟨kcp₅, hread₅, hmoves₅⟩ := exists_deliver side h₄ (by rwa [update_side])
      (by rw [update_side, hnumbered']) (by rw [update_side, htaken'])
    rw [update_other_side, update_side] at hread₅ hmoves₅
    refine ⟨_, ((hleads₂.tail hmoves₃).tail hmoves₄).tail hmoves₅, ?_, ?_, .inr ?_⟩
    · rwa [update_other, update_side]
    · rw [update_side]
      have hqueue := Endpoint.sndQueue_ne_nil hpos₂ hbuf
      rw [← hread₅.keeps.sndQueue] at hqueue
      exact Nat.add_pos_left (List.length_pos_iff.mpr hqueue) _
    · rw [update_side]
      show kcp₅.rmtWnd ≠ 0
      rw [hread₅.rmtWnd hne hall]
      exact hwnd
  · refine ⟨_, hleads₂, ?_, ?_, .inl ?_⟩
    · rwa [update_other]
    · rwa [update_side]
    · rwa [update_side]

theorem exists_buffered (side : Side) (h : Conversing s) (hroom : (s side.other).Room)
    (hwait : 0 < (s side).waiting) :
    ∃ t, Leads s t ∧ (t side.other).Room ∧ (t side).kcp.sndBuf ≠ [] := by
  have hopen : ∃ t, Leads s t ∧ (t side.other).Room ∧ 0 < (t side).waiting ∧
      ((t side).kcp.sndBuf ≠ [] ∨ (t side).kcp.rmtWnd ≠ 0) := by
    by_cases hrmt : (s side).kcp.rmtWnd = 0
    · exact exists_window h hroom hwait hrmt
    · exact ⟨s, .refl, hroom, hwait, .inr hrmt⟩
  obtain ⟨t, hleads, hroom', hwait', hcase⟩ := hopen
  by_cases hbuf : (t side).kcp.sndBuf = []
  · have hrmt := hcase.resolve_left fun hne => hne hbuf
    obtain ⟨x', hmoves, hfilled⟩ := exists_fill (hleads.onward h).conversing hrmt hbuf
      (Endpoint.sndQueue_ne_nil hwait' hbuf)
    refine ⟨_, hleads.tail hmoves, ?_, ?_⟩
    · rwa [update_other]
    · rwa [update_side]
  · exact ⟨t, hleads, hroom', hbuf⟩

/-! ## One round -/

/-- What waits at the sender is at most the next number of a receiver with room. -/
theorem Linked.una_le_taken {l : Link Piece} (h : Linked x y l) (hroom : y.Room) :
    l.una ≤ l.taken := by
  by_contra hlt
  have huna := h.inv.una_le
  have hclosed : l.taken ∉ l.unacked := fun hopen => hlt (h.inv.unacked _ hopen).1
  have hgot := (h.inv.got l.taken (by omega) hclosed).1
  obtain ⟨nums, hwindow, hheld⟩ := h.recv.receives.window
  have hfull : y.kcp.rcvQueue.length = 8192 :=
    hwindow.settled ((hheld _).mp (hgot.resolve_left (Nat.lt_irrefl _)))
  exact absurd hroom (by rw [Endpoint.Room, hfull]; exact Nat.lt_irrefl _)

theorem exists_push (h : Conversing s) (hbuf : (s side).kcp.sndBuf ≠ []) {l : Link Piece}
    (hl : Linked (s side) (s side.other) l) :
    ∃ x' nums k, Moves s (Function.update s side x') ∧ x'.waiting = (s side).waiting ∧
      SendWindow AnyPiece x'.kcp.flow.send (l.numbered + k) l.una nums ∧ l.una ∈ nums ∧
      ∃ p ∈ x'.out, x'.numbered = p.numbered ∧ x'.taken = p.taken ∧
        ∃ seg ∈ p.segs, seg.cmd = cmdPush ∧ seg.sn = UInt32.ofNat l.una := by
  obtain ⟨⟨conv, hproper⟩, -⟩ := h
  obtain ⟨seg, buf, hcons⟩ := List.exists_cons_of_ne_nil hbuf
  obtain ⟨kcp, current, tsFlush, hdue, hkcp, hmoves⟩ := exists_update s side seg.resendts
  have hw : Windowed kcp := hkcp ▸ (hproper side).windowed.at_time current tsFlush
  obtain ⟨nums, hwindow, -⟩ := hl.send.sends.window
  have hsend : SendWindow AnyPiece kcp.flow.send l.numbered l.una nums := by
    rw [hkcp]
    exact hwindow.mono fun _ _ _ => trivial
  obtain ⟨k, -, hsend', -, -, -⟩ := hsend.flush hw.context fun _ _ _ => trivial
  have hkbuf : kcp.sndBuf = seg :: buf := by
    rw [hkcp]
    exact hcons
  have hnums : ∃ rest, nums = l.una :: rest ∧ seg.sn = UInt32.ofNat l.una := by
    have hnum : Numbered AnyPiece (seg :: buf) nums := hkbuf ▸ hsend.buf
    have hfirst := hsend.first
    cases hnum with
    | cons hn _ =>
        rw [show l.una = _ from hfirst]
        exact ⟨_, rfl, hn.1⟩
  obtain ⟨rest, hnums, hsn⟩ := hnums
  have hcmd : seg.cmd = cmdPush :=
    (hw.context.buffered seg (hkbuf ▸ List.mem_cons_self ..)).2.1
  obtain ⟨d, hd, seg', hseg', hcmd', hsn'⟩ := flush_due (by rw [hkcp])
    (show seg ∈ kcp.sndBuf by rw [hkbuf]; exact List.mem_cons_self ..)
    (.inr (by rw [hkcp]; exact hdue)) hcmd
  refine ⟨_, _, k, hmoves, ?_, hsend', ?_, _, Endpoint.mem_flush_out hd, rfl, rfl, seg', hseg',
    hcmd', hsn'.trans hsn⟩
  · rw [Endpoint.waiting_flush hw]
    subst hkcp
    rfl
  · rw [hnums]
    exact List.mem_append_left _ (List.mem_cons_self ..)

theorem exists_report (side : Side) (h : Conversing s) (hacks : (s side).kcp.acklist ≠ []) :
    ∃ y', Moves s (Function.update s side y') ∧
      ∃ p ∈ y'.out, y'.numbered = p.numbered ∧ y'.taken = p.taken ∧ p.segs ≠ [] ∧
        ∀ seg ∈ p.segs, seg.una = (s side).kcp.rcvNxt := by
  obtain ⟨⟨conv, hproper⟩, -⟩ := h
  obtain ⟨kcp, current, tsFlush, -, hkcp, hmoves⟩ := exists_update s side 0
  have hw : Windowed kcp := hkcp ▸ (hproper side).windowed.at_time current tsFlush
  obtain ⟨hc, ⟨numbered, una, nums, hsend⟩, -⟩ := hw
  obtain ⟨k, -, -, -, -, hout⟩ := hsend.flush hc fun _ _ _ => trivial
  have hupdated : kcp.updated = true := by rw [hkcp]
  obtain ⟨d, hd, seg, hseg, -⟩ := flush_acks hupdated (by rw [hkcp]; exact hacks)
  refine ⟨_, hmoves, _, Endpoint.mem_flush_out hd, rfl, rfl, List.ne_nil_of_mem hseg,
    fun seg hseg => ?_⟩
  have huna := (hout d hd seg hseg).una
  rwa [hkcp] at huna

theorem Conversing.taken_le (h : Conversing s) (side : Side) :
    (s side.other).taken ≤ (pieces (s side).sent).length := by
  obtain ⟨l, hl⟩ := h.linked side
  rw [hl.recv.taken, ← hl.send.items]
  exact hl.inv.taken_le.trans hl.inv.numbered_le

theorem Onward.left_lt_of_taken (h : Onward s t)
    (hlt : (s side.other).taken < (t side.other).taken) : left t side < left s side := by
  have hle := h.conversing.taken_le side
  have hwaiting := h.waiting side
  rw [h.sent] at hle
  unfold left
  rw [h.sent]
  omega

theorem Onward.left_lt_of_waiting (h : Onward s t) (hlt : (t side).waiting < (s side).waiting) :
    left t side < left s side := by
  have htaken := h.taken side.other
  unfold left
  rw [h.sent]
  omega

/-- The first segment is resent, and taken or acknowledged. -/
theorem exists_round (h : Conversing s) (hroom : (s side.other).Room)
    (hbuf : (s side).kcp.sndBuf ≠ []) : ∃ t, Leads s t ∧ left t side < left s side := by
  obtain ⟨l, hl⟩ := h.linked side
  obtain ⟨x₂, nums, k, hmoves₂, hsame₂, hsend₂, huna, p, hp, hnumbered, htaken, seg, hseg, hcmd,
    hsn⟩ := exists_push h hbuf hl
  have h₂ := (hmoves₂.onward h).conversing
  obtain ⟨kcp₃, hread₃, hmoves₃⟩ := exists_deliver side.other h₂
    (by rwa [Side.other_other, update_side]) (by rw [Side.other_other, update_side, hnumbered])
    (by rw [Side.other_other, update_side, htaken])
  rw [update_other] at hread₃ hmoves₃
  have hleads₃ : Leads s _ := (Relation.ReflTransGen.single hmoves₂).tail hmoves₃
  have honward₃ := hleads₃.onward h
  have hle := hl.una_le_taken hroom
  have hnear : l.taken < l.una + 2 ^ 30 := by
    have hwindow := hl.inv.window
    have htop := hl.inv.taken_le
    rw [kcpWindows_send] at hwindow
    omega
  obtain ⟨rnums, hrecv, -⟩ := hl.recv.receives.window
  have hstart : RecvWindow AnyPiece (((s side.other).kcp, none) : Ikcpcb × MaxAck).1.flow.recv
      l.taken rnums := hrecv.mono fun _ _ _ => trivial
  obtain ⟨j, rnums', hrecv₃, hlen₃, -, hcase⟩ := hstart.arrives (p.segs.map IkcpSeg.received)
  rw [← hread₃.recv] at hrecv₃
  have hcase₃ := hcase l.una ⟨seg.received, List.mem_map_of_mem hseg, hcmd, hsn⟩ hle hnear hroom
  have hnxt₃ : kcp₃.rcvNxt = UInt32.ofNat (l.taken + j) := hrecv₃.nxt_eq
  by_cases hj : 0 < j
  · refine ⟨_, hleads₃, honward₃.left_lt_of_taken ?_⟩
    have hnxt : (s side.other).kcp.rcvNxt = UInt32.ofNat l.taken := hrecv.nxt_eq
    have hqueue := hrecv₃.queue
    have hlen : kcp₃.flow.recv.queue.length = (s side.other).kcp.rcvQueue.length + j :=
      (congrArg (fun g => g.queue.length) hread₃.recv).trans hlen₃
    rw [update_side]
    show _ < (s side.other).taken + (kcp₃.rcvNxt - (s side.other).kcp.rcvNxt).toNat
    rw [hnxt₃, hnxt, toNat_ofNat_sub (Nat.le_add_right ..) (by omega)]
    omega
  · obtain ⟨hlt, hacks⟩ := hcase₃.resolve_left hj
    have hacks₃ : kcp₃.acklist ≠ [] := by
      rw [show kcp₃.acklist = _ from congrArg RecvSide.acklist hread₃.recv]
      exact hacks
    obtain ⟨y₄, hmoves₄, p', hp', hnumbered', htaken', hne, hall⟩ :=
      exists_report side.other honward₃.conversing (by rwa [update_side])
    have h₄ := (hmoves₄.onward honward₃.conversing).conversing
    rw [update_side] at hall
    rw [Function.update_idem] at hmoves₄ h₄
    obtain ⟨kcp₅, hread₅, hmoves₅⟩ := exists_deliver side h₄ (by rwa [update_side])
      (by rw [update_side, hnumbered']) (by rw [update_side, htaken'])
    rw [update_other_side, update_side] at hread₅ hmoves₅
    have hleads₅ : Leads s _ := (hleads₃.tail hmoves₄).tail hmoves₅
    refine ⟨_, hleads₅, (hleads₅.onward h).left_lt_of_waiting ?_⟩
    have hreports : ∀ seg ∈ p'.segs.map IkcpSeg.received, seg.una = UInt32.ofNat l.taken := by
      intro seg hseg
      obtain ⟨seg', hseg', rfl⟩ := List.mem_map.mp hseg
      have hval : seg'.una = kcp₃.rcvNxt := hall seg' hseg'
      rw [show seg'.received.una = seg'.una from rfl, hval, hnxt₃]
      congr 1
      omega
    have hsend₄ : SendWindow AnyPiece ((x₂.kcp, none) : Ikcpcb × MaxAck).1.flow.send
        (l.numbered + k) l.una nums := hsend₂
    have htop := hl.inv.taken_le
    have hwindow := hsend₂.window
    obtain ⟨una', nums', hsend₅, hsub, habove⟩ :=
      hsend₄.reports (by omega) (by omega) hreports
    have hgone : nums'.length < nums.length := by
      refine Nat.lt_of_le_of_ne hsub.length_le fun heq => ?_
      rw [← hsub.eq_of_length heq] at huna
      exact absurd (habove (by simpa using hne) _ huna) (Nat.not_le.mpr hlt)
    have hbuf₂ : x₂.kcp.sndBuf.length = nums.length := hsend₂.buf.length
    have hbuf₅ : kcp₅.sndBuf.length = nums'.length := (hread₅.send hsend₅).buf.length
    rw [update_side, ← hsame₂]
    show kcp₅.sndQueue.length + kcp₅.sndBuf.length < _
    rw [hread₅.keeps.sndQueue, Endpoint.waiting]
    omega

/-! ## To the end -/

theorem exists_acknowledged (h : Conversing s) (hshort : Short s) :
    ∃ t, Leads s t ∧ ∀ side, (t side).waiting = 0 := by
  generalize hn : rank s = n
  induction n using Nat.strong_induction_on generalizing s with
  | h n ih =>
      by_cases hdone : ∀ side, (s side).waiting = 0
      · exact ⟨s, .refl, hdone⟩
      · push Not at hdone
        obtain ⟨side, hwait⟩ := hdone
        obtain ⟨y, hroomed, hroom⟩ := exists_room h hshort side.other
        have h₁ := (hroomed.onward h).conversing
        obtain ⟨t₂, hbuffered, hroom₂, hbuf⟩ := exists_buffered side h₁
          (by rwa [update_side]) (by rw [update_other_side]; exact Nat.pos_of_ne_zero hwait)
        have h₂ := (hbuffered.onward h₁).conversing
        obtain ⟨t₃, hround, hless⟩ := exists_round h₂ hroom₂ hbuf
        have honward := hround.onward h₂
        have hrank : rank t₃ < n := hn ▸ Nat.lt_of_lt_of_le (honward.rank_lt hless)
          ((hbuffered.onward h₁).rank_le.trans (hroomed.onward h).rank_le)
        have hleads₃ : Leads s t₃ := (hroomed.trans hbuffered).trans hround
        have hshort₃ := (hleads₃.onward h).short hshort
        obtain ⟨t, hleads, hall⟩ := ih _ hrank honward.conversing hshort₃ rfl
        exact ⟨t, hleads₃.trans hleads, hall⟩

/-- With nothing waiting at the other end, everything can be read. -/
theorem exists_emptied (side : Side) (h : Conversing s) (hshort : Short s)
    (hwait : (s side.other).waiting = 0) :
    ∃ y, Leads s (Function.update s side y) ∧ y.kcp.rcvQueue = [] := by
  refine exists_read h hshort (fun y => y.kcp.rcvQueue = []) fun y l hl hne => ⟨hne, ?_⟩
  obtain ⟨hqueue, hbuf⟩ := Nat.add_eq_zero_iff.mp hwait
  obtain ⟨hall, hopen⟩ := hl.idle (List.eq_nil_of_length_eq_zero hqueue)
    (List.eq_nil_of_length_eq_zero hbuf)
  by_cases hfull : y.kcp.rcvQueue.length = 8192
  · exact .inl hfull
  · obtain ⟨nums, hwindow, hheld⟩ := hl.recv.receives.window
    refine .inr (hl.inv.all_taken hall hopen fun hin => hfull ?_)
    exact hwindow.settled ((hheld _).mp hin)

/-- From every state that a run with no longer message reaches, the ends can go on until each has
received all that the other has sent. -/
theorem exists_drained (h : conversationMachine.Run Timely s) (hshort : Short s) :
    ∃ t, Leads s t ∧ ∀ side, (t side.other).got = (s side).sent := by
  have h₀ := Conversing.of_run h
  obtain ⟨t₁, hleads₁, hwait₁⟩ := exists_acknowledged h₀ hshort
  have h₁ := (hleads₁.onward h₀).conversing
  have hshort₁ := (hleads₁.onward h₀).short hshort
  obtain ⟨x, hleads₂, hx⟩ := exists_emptied .client h₁ hshort₁ (hwait₁ .server)
  have honward₂ := hleads₂.onward h₁
  have hwait₂ : ∀ side, (Function.update t₁ .client x side).waiting = 0 := fun side =>
    Nat.eq_zero_of_le_zero ((honward₂.waiting side).trans (hwait₁ side).le)
  obtain ⟨y, hleads₃, hy⟩ := exists_emptied .server honward₂.conversing (honward₂.short hshort₁)
    (hwait₂ .client)
  have honward₃ := hleads₃.onward honward₂.conversing
  have hleads : Leads s _ := (hleads₁.trans hleads₂).trans hleads₃
  refine ⟨_, hleads, fun side => ?_⟩
  rw [← (hleads.onward h₀).sent side]
  have hwait₃ := (honward₃.waiting side).trans (hwait₂ side).le
  obtain ⟨hqueue, hbuf⟩ := Nat.add_eq_zero_iff.mp (Nat.eq_zero_of_le_zero hwait₃)
  refine honward₃.conversing.all_got side (List.eq_nil_of_length_eq_zero hqueue)
    (List.eq_nil_of_length_eq_zero hbuf) ?_
  cases side with
  | client => exact (congrArg (fun e : Endpoint => e.kcp.rcvQueue) (update_side ..)).trans hy
  | server =>
      have hkept : Function.update (Function.update t₁ .client x) .server y .client = x := rfl
      exact (congrArg (fun e : Endpoint => e.kcp.rcvQueue) hkept).trans hx

/-- The datagram with the first message is lost, and the second message waits for it. -/
theorem exists_drained_lost : ∃ s : Conversation, (s .client).sent = [[7], [8, 9]] ∧
    (s .server).got = [] ∧ (s .server).sent = [[5]] ∧ Short s ∧
    ∃ t, Leads s t ∧ ∀ side, (t side.other).got = (s side).sent := by
  have hrun : ((conversationMachine.guarded Timely).exec (fun _ => { kcp := newContext 5 })
      [(.client, .update 1000), (.server, .update 1000), (.client, .sendPkt [7]),
        (.client, .sendPkt [8, 9]), (.server, .sendPkt [5]), (.server, .deliver 1 []),
        (.server, .recv bufLen)]).map
        (fun s => ((s .client).sent, (s .server).got, (s .server).sent)) =
          some ([[7], [8, 9]], [], [[5]]) := by
    decide +kernel
  obtain ⟨s, hs, hview⟩ := Option.map_eq_some_iff.mp hrun
  simp only [Prod.mk.injEq] at hview
  obtain ⟨hclient, hgot, hserver⟩ := hview
  have hshort : Short s := by
    intro side
    cases side with
    | client =>
        rw [hclient]
        decide
    | server =>
        rw [hserver]
        decide
  exact ⟨s, hclient, hgot, hserver, hshort,
    exists_drained (Machine.run_of_exec hs ⟨5, rfl⟩) hshort⟩

end

end Hprd.Net.Kcp

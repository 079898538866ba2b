import Hprd.Net.Kcp.Window

/-!
# What the calls do to the windows

`ikcp_input` closes numbers of the send window and moves the receive window on, one
segment after the other; `ikcp_flush` gives numbers to what is queued, as far as the
send window has room, and outputs segments of the window and the acks. Whatever comes
in, in any run, the windows stay bounded and in order.
-/

namespace Hprd.Net.Kcp

open Hprd.Core Hprd.Core.Serial

variable {Q R : Nat → Piece → Prop} {kcp : Ikcpcb} {numbered una taken : Nat} {nums : List Nat}

/-! ## Reading -/

theorem recv_shrinkBuf (kcp : Ikcpcb) : (shrinkBuf kcp).flow.recv = kcp.flow.recv := by
  rw [flow_shrinkBuf]

theorem recv_parseAck (kcp : Ikcpcb) (sn : UInt32) :
    (parseAck kcp sn).flow.recv = kcp.flow.recv := by
  unfold parseAck
  split <;> rfl

theorem send_parseData (kcp : Ikcpcb) (seg : IkcpSeg) :
    (parseData kcp seg).flow.send = kcp.flow.send := by
  unfold parseData
  split <;> rfl

theorem acklist_parseData (kcp : Ikcpcb) (seg : IkcpSeg) :
    (parseData kcp seg).acklist = kcp.acklist := by
  unfold parseData
  split <;> rfl

def readUna (kcp : Ikcpcb) (seg : IkcpSeg) : Ikcpcb :=
  shrinkBuf (parseUna { kcp with rmtWnd := seg.wnd } seg.una)

def readAck (kcp : Ikcpcb) (seg : IkcpSeg) : Ikcpcb :=
  let rtt := itimediff kcp.current seg.ts
  shrinkBuf (parseAck (if 0 ≤ rtt then updateAck kcp rtt else kcp) seg.sn)

def readPush (kcp : Ikcpcb) (seg : IkcpSeg) : Ikcpcb :=
  if itimediff seg.sn (kcp.rcvNxt + kcp.rcvWnd) < 0 then
    let kcp := ackPush kcp seg.sn seg.ts
    if 0 ≤ itimediff seg.sn kcp.rcvNxt then parseData kcp seg else kcp
  else kcp

theorem flow_inputSeg (st : Ikcpcb × MaxAck) (seg : IkcpSeg) :
    (inputSeg st seg).1.flow =
      if seg.cmd = cmdAck then (readAck (readUna st.1 seg) seg).flow
      else if seg.cmd = cmdPush then (readPush (readUna st.1 seg) seg).flow
      else (readUna st.1 seg).flow := by
  obtain ⟨kcp, maxack⟩ := st
  unfold inputSeg readAck readPush
  dsimp only
  rw [← readUna]
  generalize readUna kcp seg = kcp
  split
  · cases maxack <;> rfl
  · split
    · split <;> rfl
    · split <;> rfl

theorem recv_readUna (kcp : Ikcpcb) (seg : IkcpSeg) : (readUna kcp seg).flow.recv = kcp.flow.recv :=
  recv_shrinkBuf _

theorem send_readPush (kcp : Ikcpcb) (seg : IkcpSeg) :
    (readPush kcp seg).flow.send = kcp.flow.send := by
  unfold readPush
  split
  · dsimp only
    split
    · exact send_parseData ..
    · rfl
  · rfl

theorem recv_readAck (kcp : Ikcpcb) (seg : IkcpSeg) : (readAck kcp seg).flow.recv = kcp.flow.recv := by
  unfold readAck
  dsimp only
  rw [recv_shrinkBuf, recv_parseAck]
  split
  · rw [flow_updateAck]
  · rfl

theorem SendWindow.readUna (h : SendWindow Q kcp.flow.send numbered una nums) (seg : IkcpSeg) :
    ∃ una' nums', SendWindow Q (readUna kcp seg).flow.send numbered una' nums' ∧ una ≤ una' ∧
      nums'.Sublist nums ∧
      ∀ n, seg.una = UInt32.ofNat n → n ≤ numbered → numbered < n + 2 ^ 31 →
        ∀ m, m ∈ nums' ↔ m ∈ nums ∧ n ≤ m := by
  have hset : SendBuf Q ({ kcp with rmtWnd := seg.wnd } : Ikcpcb).flow.send numbered una nums :=
    h.toSendBuf
  obtain ⟨nums', hwindow, hsub, hexact⟩ := hset.parseUna seg.una
  obtain ⟨una', hwindow', hle⟩ := hwindow.shrink
  exact ⟨una', nums', hwindow', hle, hsub, hexact⟩

theorem SendWindow.readAck (h : SendWindow Q kcp.flow.send numbered una nums) (seg : IkcpSeg) :
    ∃ una' nums', SendWindow Q (readAck kcp seg).flow.send numbered una' nums' ∧ una ≤ una' ∧
      nums'.Sublist nums ∧
      ∀ i, seg.sn = UInt32.ofNat i → i < numbered → numbered < i + 2 ^ 31 →
        ∀ m, m ∈ nums' ↔ m ∈ nums ∧ m ≠ i := by
  have hset : SendBuf Q (if 0 ≤ itimediff kcp.current seg.ts then
      updateAck kcp (itimediff kcp.current seg.ts) else kcp).flow.send numbered una nums := by
    split
    · rw [flow_updateAck]
      exact h.toSendBuf
    · exact h.toSendBuf
  obtain ⟨nums', hwindow, hsub, hexact⟩ := hset.parseAck seg.sn
  obtain ⟨una', hwindow', hle⟩ := hwindow.shrink
  exact ⟨una', nums', hwindow', hle, hsub, hexact⟩

/-- What a push can do: nothing, an ack for a number before the window, an ack and a move of the
window for one inside. -/
theorem RecvWindow.readPush (h : RecvWindow Q kcp.flow.recv taken nums) (seg : IkcpSeg) :
    (¬itimediff seg.sn (UInt32.ofNat taken + wndRcv) < 0 ∧
      (readPush kcp seg).flow.recv = kcp.flow.recv) ∨
    (itimediff seg.sn (UInt32.ofNat taken) < 0 ∧ (readPush kcp seg).flow.recv =
      { kcp.flow.recv with acklist := kcp.acklist ++ [(seg.sn, seg.ts)] }) ∨
    ∃ d < 8192, seg.sn = UInt32.ofNat (taken + d) ∧ (Q (taken + d) seg.piece →
      ∃ segs nums', RecvWindow Q (readPush kcp seg).flow.recv (taken + segs.length) nums' ∧
        (readPush kcp seg).rcvQueue = kcp.rcvQueue ++ segs ∧
        (readPush kcp seg).acklist = kcp.acklist ++ [(seg.sn, seg.ts)] ∧
        Numbered Q segs (List.range' taken segs.length) ∧
        ∀ n, n ∈ List.range' taken segs.length ++ nums' ↔ n = taken + d ∨ n ∈ nums) := by
  have hnxt : kcp.rcvNxt = UInt32.ofNat taken := h.nxt_eq
  have hwnd : kcp.rcvWnd = wndRcv := h.wnd_eq
  have hacked : RecvWindow Q (ackPush kcp seg.sn seg.ts).flow.recv taken nums :=
    ⟨⟨h.nxt_eq, h.wnd_eq, h.buf, h.sorted, h.mem, h.queue⟩, h.settled⟩
  unfold Kcp.readPush
  dsimp only
  split
  next htop =>
      have hnxt' : (ackPush kcp seg.sn seg.ts).rcvNxt = UInt32.ofNat taken := hnxt
      rw [hnxt']
      split
      next hlow =>
          rw [hnxt, hwnd] at htop
          obtain ⟨d, hd, hsn⟩ := inWindow_iff.mp ⟨htop, hlow⟩
          refine .inr (.inr ⟨d, hd, hsn, fun hseg => ?_⟩)
          obtain ⟨segs, nums', hwindow, hqueue, hsegs, hnums⟩ := hacked.parseData hd hsn hseg
          exact ⟨segs, nums', hwindow, hqueue, acklist_parseData .., hsegs, hnums⟩
      next hlow => exact .inr (.inl ⟨Int32.not_le.mp hlow, rfl⟩)
  next htop =>
      rw [hnxt, hwnd] at htop
      exact .inl ⟨htop, rfl⟩

/-- Whatever a segment says, numbers only leave the buffer; those below its `una` do. -/
theorem SendWindow.inputSeg {st : Ikcpcb × MaxAck}
    (h : SendWindow Q st.1.flow.send numbered una nums) (seg : IkcpSeg) :
    ∃ una' nums', SendWindow Q (inputSeg st seg).1.flow.send numbered una' nums' ∧
      nums'.Sublist nums ∧ ∀ t, seg.una = UInt32.ofNat t → t ≤ numbered →
        numbered < t + 2 ^ 31 → ∀ m ∈ nums', t ≤ m := by
  obtain ⟨una₁, nums₁, hwindow₁, -, hsub₁, hexact₁⟩ := h.readUna seg
  have hlow : ∀ t, seg.una = UInt32.ofNat t → t ≤ numbered → numbered < t + 2 ^ 31 →
      ∀ m ∈ nums₁, t ≤ m := fun t huna ht hnear m hm => ((hexact₁ t huna ht hnear m).mp hm).2
  rw [flow_inputSeg]
  split
  · obtain ⟨una₂, nums₂, hwindow₂, -, hsub₂, -⟩ := hwindow₁.readAck seg
    exact ⟨una₂, nums₂, hwindow₂, hsub₂.trans hsub₁, fun t huna ht hnear m hm =>
      hlow t huna ht hnear m (hsub₂.subset hm)⟩
  · refine ⟨una₁, nums₁, ?_, hsub₁, hlow⟩
    split
    · rw [send_readPush]
      exact hwindow₁
    · exact hwindow₁

theorem SendWindow.closeInput {st : Ikcpcb × MaxAck} (prevUna : UInt32)
    (h : SendWindow Q st.1.flow.send numbered una nums) :
    SendWindow Q (closeInput prevUna st).flow.send numbered una nums := by
  have hfast : SendWindow Q (closeFastack st).flow.send numbered una nums := by
    unfold closeFastack
    split
    · exact h
    · unfold parseFastack
      split
      · exact h
      · exact { h with buf := h.buf.parseFastackLoop _ }
  unfold Kcp.closeInput
  dsimp only
  split
  · rw [flow_openWindow]
    exact hfast
  · exact hfast

theorem recv_closeInput (prevUna : UInt32) (st : Ikcpcb × MaxAck) :
    (closeInput prevUna st).flow.recv = st.1.flow.recv := by
  have hfast : (closeFastack st).flow.recv = st.1.flow.recv := by
    unfold closeFastack
    split
    · rfl
    · unfold parseFastack
      split <;> rfl
  unfold closeInput
  dsimp only
  split
  · rw [flow_openWindow]
    exact hfast
  · exact hfast

/-- What every segment keeps, the loop keeps, wherever it ends. -/
theorem inputLoop_invariant {P : Ikcpcb → Prop} (hP : ∀ st seg, P st.1 → P (inputSeg st seg).1)
    {st st' : Ikcpcb × MaxAck} {data : Bytes} {size : Nat} {ret : Int}
    (h : inputLoop st data size = some (ret, st')) (hst : P st.1) : P st'.1 := by
  fun_induction inputLoop st data size with
  | case1 => cases h; exact hst
  | case2 => cases h
  | case3 => cases h; exact hst
  | case4 => cases h
  | case5 => cases h; exact hst
  | case6 => cases h; exact hst
  | case7 => cases h
  | case8 _ _ _ _ _ _ _ _ _ _ _ _ _ _ _ ih => exact ih h (hP _ _ hst)

/-! ## Writing -/

theorem sendWindow_le (hwnd : kcp.sndWnd = wndSnd) : (sendWindow kcp).toNat ≤ 4096 := by
  have hmin : min kcp.sndWnd kcp.rmtWnd ≤ wndSnd := hwnd ▸ Std.min_le_left
  have hle : sendWindow kcp ≤ wndSnd := by
    unfold sendWindow
    dsimp only
    split
    · exact UInt32.le_trans Std.min_le_right hmin
    · exact hmin
  exact UInt32.le_iff_toNat_le.mp hle

/-- Nothing but the window of the peer closes the send window. -/
theorem sendWindow_pos (hwnd : kcp.sndWnd = wndSnd) (hnocwnd : kcp.nocwnd ≠ 0)
    (hrmt : kcp.rmtWnd ≠ 0) : 0 < (sendWindow kcp).toNat := by
  have hmin : sendWindow kcp = wndSnd ∨ sendWindow kcp = kcp.rmtWnd := by
    unfold sendWindow
    dsimp only
    rw [if_neg hnocwnd, hwnd]
    exact Std.min_eq_or
  rcases hmin with heq | heq
  · rw [heq]
    decide
  · rw [heq]
    exact Nat.pos_of_ne_zero fun hzero => hrmt (UInt32.toNat_inj.mp hzero)

theorem rmtWnd_probeWindow (kcp : Ikcpcb) : (probeWindow kcp).rmtWnd = kcp.rmtWnd := by
  unfold probeWindow
  split
  · split
    · rfl
    · split <;> rfl
  · rfl

/-- What is queued gets the next numbers until the window or the queue ends. -/
theorem fillWindow_numbered (kcp : Ikcpcb) (wnd : UInt32) {cwnd : UInt32} {queue : List IkcpSeg}
    (huna : kcp.sndUna = UInt32.ofNat una) (hcwnd : cwnd.toNat ≤ 4096) (hle : una ≤ numbered)
    (hwindow : numbered ≤ una + 4096)
    (hqueue : ∀ j seg, queue[j]? = some seg → Q (numbered + j) seg.piece) :
    ∃ k ≤ queue.length, (fillWindow kcp wnd cwnd queue (UInt32.ofNat numbered)).2 =
        (queue.drop k, UInt32.ofNat (numbered + k)) ∧
      Numbered Q (fillWindow kcp wnd cwnd queue (UInt32.ofNat numbered)).1
        (List.range' numbered k) ∧
      numbered + k ≤ una + 4096 ∧ (k < queue.length → una + cwnd.toNat ≤ numbered + k) := by
  induction queue generalizing numbered with
  | nil => exact ⟨0, Nat.le_refl _, rfl, .nil, hwindow, fun hk => absurd hk (Nat.lt_irrefl _)⟩
  | cons newseg queue ih =>
      have hend : kcp.sndUna + cwnd = UInt32.ofNat (una + cwnd.toNat) := by
        rw [huna, UInt32.ofNat_add, UInt32.ofNat_toNat]
      have htest : itimediff (UInt32.ofNat numbered) (kcp.sndUna + cwnd) < 0 ↔
          numbered < una + cwnd.toNat := by
        rw [hend]
        exact itimediff_neg ⟨by omega, by omega⟩
      rw [fillWindow]
      split
      next hroom =>
          have hlt := htest.mp hroom
          have hrest : ∀ j seg, queue[j]? = some seg → Q (numbered + 1 + j) seg.piece := by
            intro j seg hj
            have hj' := hqueue (j + 1) seg (by rw [List.getElem?_cons_succ]; exact hj)
            rwa [Nat.add_assoc, Nat.add_comm 1 j]
          obtain ⟨k, hk, hfill, hmoved, htop, hfull⟩ := ih (by omega) (by omega) hrest
          have hnxt : UInt32.ofNat numbered + 1 = UInt32.ofNat (numbered + 1) := by
            rw [UInt32.ofNat_add]
            rfl
          have hcount : numbered + (k + 1) = numbered + 1 + k := by omega
          refine ⟨k + 1, Nat.succ_le_succ hk, ?_⟩
          rw [hnxt, hcount]
          exact ⟨hfill, .cons ⟨rfl, hqueue 0 newseg rfl⟩ hmoved, htop,
            fun hlong => hfull (Nat.lt_of_succ_lt_succ hlong)⟩
      next hroom =>
          exact ⟨0, Nat.zero_le _, rfl, .nil, hwindow, fun _ =>
            Nat.not_lt.mp fun hlt => hroom (htest.mpr hlt)⟩

theorem SendWindow.fillSndBuf (h : SendWindow Q kcp.flow.send numbered una nums) (wnd : UInt32)
    {cwnd : UInt32} (hcwnd : cwnd.toNat ≤ 4096)
    (hqueue : ∀ j seg, kcp.sndQueue[j]? = some seg → Q (numbered + j) seg.piece) :
    ∃ k ≤ kcp.sndQueue.length,
      SendWindow Q (fillSndBuf kcp wnd cwnd).flow.send (numbered + k) una
        (nums ++ List.range' numbered k) ∧
      (fillSndBuf kcp wnd cwnd).sndQueue = kcp.sndQueue.drop k ∧
      (k < kcp.sndQueue.length → una + cwnd.toNat ≤ numbered + k) := by
  have hnxt : kcp.sndNxt = UInt32.ofNat numbered := h.nxt_eq
  obtain ⟨k, hk, hfill, hmoved, htop, hfull⟩ :=
    fillWindow_numbered kcp wnd h.una_eq hcwnd h.una_le h.window hqueue
  unfold Kcp.fillSndBuf
  rw [hnxt]
  generalize fillWindow kcp wnd cwnd kcp.sndQueue (UInt32.ofNat numbered) = filled at *
  obtain ⟨moved, stay, nxt⟩ := filled
  obtain ⟨rfl, rfl⟩ := Prod.mk.inj hfill
  refine ⟨k, hk, ⟨⟨rfl, h.una_eq, h.wnd_eq, h.nocwnd, h.buf.append hmoved, ?_, fun n hn => ?_,
    h.una_le.trans (Nat.le_add_right ..), htop⟩, ?_⟩, rfl, hfull⟩
  · refine List.pairwise_append.mpr ⟨h.sorted, List.pairwise_lt_range', fun m hm n hn => ?_⟩
    have hlow := (List.mem_range'_1.mp hn).1
    exact Nat.lt_of_lt_of_le (h.mem m hm).2 hlow
  · rcases List.mem_append.mp hn with hn | hn
    · obtain ⟨hlow, hhigh⟩ := h.mem n hn
      exact ⟨hlow, hhigh.trans_le (Nat.le_add_right ..)⟩
    · obtain ⟨hlow, hhigh⟩ := List.mem_range'_1.mp hn
      exact ⟨h.una_le.trans hlow, hhigh⟩
  · rw [h.first]
    cases nums with
    | nil => cases k <;> rfl
    | cons n nums => rfl

/-- Every segment in the buffer and in the datagrams is as `E` says. -/
structure FlushBuf.Holds (E : IkcpSeg → Prop) (b : FlushBuf) : Prop where
  cur : ∀ seg ∈ b.cur, E seg
  out : ∀ d ∈ b.out, ∀ seg ∈ d, E seg

section

variable {E F : IkcpSeg → Prop} {b : FlushBuf}

theorem FlushBuf.Holds.mono (h : b.Holds E) (himp : ∀ seg, E seg → F seg) : b.Holds F :=
  ⟨fun seg hseg => himp seg (h.cur seg hseg), fun d hd seg hseg => himp seg (h.out d hd seg hseg)⟩

theorem FlushBuf.Holds.output (h : b.Holds E) : b.output.Holds E := by
  unfold FlushBuf.output
  split
  · exact ⟨fun _ hseg => absurd hseg List.not_mem_nil, h.out⟩
  · refine ⟨fun _ hseg => absurd hseg List.not_mem_nil, fun d hd => ?_⟩
    rcases List.mem_append.mp hd with hd | hd
    · exact h.out d hd
    · rw [List.mem_singleton] at hd
      subst hd
      exact h.cur

theorem FlushBuf.Holds.put (h : b.Holds E) (mtu : UInt32) {seg : IkcpSeg} (hseg : E seg) :
    (b.put mtu seg).Holds E := by
  have hb : (if mtu.toNat < (encodeSegs b.cur).length + (overhead + seg.data.length) then b.output
      else b).Holds E := by
    split
    · exact h.output
    · exact h
  unfold FlushBuf.put
  refine ⟨fun seg' hmem => ?_, hb.out⟩
  rcases List.mem_append.mp hmem with hmem | hmem
  · exact hb.cur seg' hmem
  · rw [List.mem_singleton.mp hmem]
    exact hseg

end

/-- What a segment that is output says: the acks are of `acks`, the pushes of the numbers `nums`. -/
structure Emitted (Q : Nat → Piece → Prop) (nxt wnd : UInt32) (acks : List (UInt32 × UInt32))
    (nums : List Nat) (seg : IkcpSeg) : Prop where
  una : seg.una = nxt
  wnd_eq : seg.wnd = wnd
  ack : seg.cmd = cmdAck → ∃ a ∈ acks, seg.sn = a.1
  push : seg.cmd = cmdPush → ∃ n ∈ nums, seg.sn = UInt32.ofNat n ∧ Q n seg.piece

section

variable {nxt wnd : UInt32} {acks : List (UInt32 × UInt32)} {b : FlushBuf}

theorem Emitted.of_cmd {seg : IkcpSeg} (huna : seg.una = nxt) (hwnd : seg.wnd = wnd)
    (hack : seg.cmd ≠ cmdAck) (hpush : seg.cmd ≠ cmdPush) : Emitted Q nxt wnd acks nums seg :=
  ⟨huna, hwnd, fun he => absurd he hack, fun he => absurd he hpush⟩

theorem holds_flushAcks (mtu : UInt32) {seg : IkcpSeg} (huna : seg.una = nxt) (hwnd : seg.wnd = wnd)
    (hcmd : seg.cmd = cmdAck) (todo : List (UInt32 × UInt32)) (htodo : todo ⊆ acks)
    (hb : b.Holds (Emitted Q nxt wnd acks nums)) :
    ((flushAcks mtu seg b todo).1.una = nxt ∧ (flushAcks mtu seg b todo).1.wnd = wnd) ∧
      (flushAcks mtu seg b todo).2.Holds (Emitted Q nxt wnd acks nums) := by
  induction todo generalizing seg b with
  | nil => exact ⟨⟨huna, hwnd⟩, hb⟩
  | cons ack todo ih =>
      obtain ⟨hin, htodo'⟩ := List.cons_subset.mp htodo
      have hack : Emitted Q nxt wnd acks nums { seg with sn := ack.1, ts := ack.2 } :=
        ⟨huna, hwnd, fun _ => ⟨ack, hin, rfl⟩, fun he => absurd (hcmd.symm.trans he) (by decide)⟩
      exact ih huna hwnd hcmd htodo' (hb.put mtu hack)

theorem holds_flushProbes (kcp : Ikcpcb) {seg : IkcpSeg} (huna : seg.una = nxt)
    (hwnd : seg.wnd = wnd) (hb : b.Holds (Emitted Q nxt wnd acks nums)) :
    (flushProbes kcp seg b).Holds (Emitted Q nxt wnd acks nums) := by
  have hask : (if kcp.probe &&& askSend ≠ 0 then b.put kcp.mtu { seg with cmd := cmdWask }
      else b).Holds (Emitted Q nxt wnd acks nums) := by
    split
    · exact hb.put _ (.of_cmd huna hwnd (show cmdWask ≠ _ by decide) (show cmdWask ≠ _ by decide))
    · exact hb
  unfold flushProbes
  dsimp only
  split
  · exact hask.put _ (.of_cmd huna hwnd (show cmdWins ≠ _ by decide) (show cmdWins ≠ _ by decide))
  · exact hask

theorem restamp_same (kcp : Ikcpcb) (rtomin : UInt32) (seg : IkcpSeg) (need : Needsend) :
    (restamp kcp rtomin seg need).sn = seg.sn ∧ (restamp kcp rtomin seg need).piece = seg.piece ∧
      (restamp kcp rtomin seg need).cmd = seg.cmd := by
  cases need <;> exact ⟨rfl, rfl, rfl⟩

theorem holds_flushData (resent rtomin : UInt32) {buf : List IkcpSeg} (c : FlushCount)
    (hbuf : ∀ seg ∈ buf, ∃ n ∈ nums, seg.sn = UInt32.ofNat n ∧ Q n seg.piece)
    (hcmd : ∀ seg ∈ buf, seg.cmd = cmdPush) (hb : b.Holds (Emitted Q kcp.rcvNxt wnd acks nums)) :
    (flushData kcp wnd resent rtomin buf c b).1.map (fun seg => (seg.sn, seg.piece)) =
        buf.map (fun seg => (seg.sn, seg.piece)) ∧
      (flushData kcp wnd resent rtomin buf c b).2.2.Holds (Emitted Q kcp.rcvNxt wnd acks nums) := by
  induction buf generalizing c b with
  | nil => exact ⟨rfl, hb⟩
  | cons segment buf ih =>
      have hbuf' := fun seg hseg => hbuf seg (List.mem_cons_of_mem _ hseg)
      have hcmd' := fun seg hseg => hcmd seg (List.mem_cons_of_mem _ hseg)
      rw [flushData]
      dsimp only
      split
      · obtain ⟨hsame, hholds⟩ := ih c hbuf' hcmd' hb
        exact ⟨by rw [List.map_cons, List.map_cons, hsame], hholds⟩
      · obtain ⟨hsn, hpiece, hpush⟩ :=
          restamp_same kcp rtomin segment (needsend kcp resent segment)
        have hkind : (restamp kcp rtomin segment (needsend kcp resent segment)).cmd = cmdPush :=
          hpush.trans (hcmd segment (List.mem_cons_self ..))
        have hdue : Emitted Q kcp.rcvNxt wnd acks nums
            { restamp kcp rtomin segment (needsend kcp resent segment) with
              ts := kcp.current, wnd := wnd, una := kcp.rcvNxt } := by
          refine ⟨rfl, rfl, fun he => ?_, fun _ => ?_⟩
          · exact absurd (hkind.symm.trans he) (by decide)
          · obtain ⟨n, hn, heq, hQ⟩ := hbuf segment (List.mem_cons_self ..)
            exact ⟨n, hn, hsn.trans heq, hpiece.symm ▸ hQ⟩
        obtain ⟨hsame, hholds⟩ := ih _ hbuf' hcmd' (hb.put kcp.mtu hdue)
        refine ⟨?_, hholds⟩
        rw [List.map_cons, List.map_cons, hsame, List.cons_eq_cons]
        exact ⟨Prod.ext hsn hpiece, rfl⟩

end

/-- A flush gives the next numbers to what it moves; what it outputs is of the window or an ack. -/
theorem SendWindow.flush (h : SendWindow Q kcp.flow.send numbered una nums) (hc : Context kcp)
    (hqueue : ∀ j seg, kcp.sndQueue[j]? = some seg → Q (numbered + j) seg.piece) :
    ∃ k ≤ kcp.sndQueue.length,
      SendWindow Q (ikcpFlush kcp).1.flow.send (numbered + k) una
        (nums ++ List.range' numbered k) ∧
      (ikcpFlush kcp).1.sndQueue = kcp.sndQueue.drop k ∧
      (kcp.updated = true → kcp.rmtWnd ≠ 0 → kcp.sndQueue ≠ [] → nums = [] → 0 < k) ∧
      ∀ d ∈ (ikcpFlush kcp).2, ∀ seg ∈ d,
        Emitted Q kcp.rcvNxt (wndUnused kcp) kcp.acklist (nums ++ List.range' numbered k) seg := by
  unfold ikcpFlush
  split
  next hidle =>
      refine ⟨0, Nat.zero_le _, ?_, rfl, fun hupdated => ?_, fun _ hd => absurd hd List.not_mem_nil⟩
      · rw [List.range'_zero, List.append_nil]
        exact h
      · exact absurd (hidle.symm.trans hupdated) Bool.false_ne_true
  next =>
      dsimp only
      have hflow : (probeWindow { kcp with acklist := [] }).flow =
          { kcp.flow with recv := { kcp.flow.recv with acklist := [] } } := flow_probeWindow _
      have hrmt : (probeWindow { kcp with acklist := [] }).rmtWnd = kcp.rmtWnd :=
        rmtWnd_probeWindow _
      have hkeeps : Keeps kcp (probeWindow { kcp with acklist := [] }) :=
        (show Keeps kcp { kcp with acklist := [] } from
          ⟨rfl, rfl, rfl, rfl, rfl, rfl, List.Subset.refl _⟩).trans (keeps_probeWindow _)
      generalize probeWindow { kcp with acklist := [] } = kcp₁ at *
      have hc₁ : Context { kcp₁ with probe := 0 } :=
        (hc.keeps hkeeps).keeps ⟨rfl, rfl, rfl, rfl, rfl, rfl, List.Subset.refl _⟩
      have hsend : kcp₁.flow.send = kcp.flow.send := by rw [hflow]
      have hnxt : kcp₁.rcvNxt = kcp.rcvNxt := congrArg (fun f => f.recv.nxt) hflow
      have h₁ : SendWindow Q ({ kcp₁ with probe := 0 } : Ikcpcb).flow.send numbered una nums := by
        show SendWindow Q kcp₁.flow.send numbered una nums
        rw [hsend]
        exact h
      have hcwnd : (sendWindow kcp₁).toNat ≤ 4096 := sendWindow_le h₁.wnd_eq
      have hqueue₁ : kcp₁.sndQueue = kcp.sndQueue := hkeeps.sndQueue
      obtain ⟨k, hk, hfilled, hstay, hfull⟩ :=
        h₁.fillSndBuf (wndUnused kcp) hcwnd (by rw [hqueue₁]; exact hqueue)
      have hpos : kcp.rmtWnd ≠ 0 → kcp.sndQueue ≠ [] → nums = [] → 0 < k := by
        rintro hopen hne rfl
        have hcwnd' := sendWindow_pos h₁.wnd_eq h₁.nocwnd (hrmt ▸ hopen)
        have hlen := List.length_pos_iff.mpr hne
        by_contra hnone
        have hstuck := hfull (show k < kcp₁.sndQueue.length by rw [hqueue₁]; omega)
        have hfirst : una = numbered := h.first
        omega
      have hempty : FlushBuf.Holds (Emitted Q kcp.rcvNxt (wndUnused kcp) kcp.acklist
          (nums ++ List.range' numbered k)) {} := ⟨nofun, nofun⟩
      have hacks := holds_flushAcks kcp.mtu (rfl : (ackSeg kcp).una = kcp.rcvNxt)
        (rfl : (ackSeg kcp).wnd = wndUnused kcp) rfl kcp.acklist (List.Subset.refl _) hempty
      generalize flushAcks kcp.mtu (ackSeg kcp) {} kcp.acklist = acks at *
      obtain ⟨seg, b⟩ := acks
      have hprobes : FlushBuf.Holds (Emitted Q kcp.rcvNxt (wndUnused kcp) kcp.acklist
          (nums ++ List.range' numbered k)) (flushProbes kcp₁ seg b) :=
        holds_flushProbes kcp₁ hacks.1.1 hacks.1.2 hacks.2
      have hbuffered := (hc₁.fillSndBuf (wndUnused kcp) (sendWindow kcp₁)).buffered
      have hnxt₂ : (Kcp.fillSndBuf { kcp₁ with probe := 0 } (wndUnused kcp)
          (sendWindow kcp₁)).rcvNxt = kcp.rcvNxt := hnxt
      generalize Kcp.fillSndBuf { kcp₁ with probe := 0 } (wndUnused kcp) (sendWindow kcp₁) =
        kcp₂ at *
      rw [← hnxt₂] at hprobes
      have hdata := holds_flushData (resentLimit kcp₂)
        (rtoMargin kcp₂) { xmit := kcp₂.xmit, state := kcp₂.state }
        (fun seg (hseg : seg ∈ kcp₂.sndBuf) => hfilled.buf.mem hseg) (fun seg hseg => (hbuffered seg hseg).2.1) hprobes
      dsimp only
      generalize flushData kcp₂ (wndUnused kcp) (resentLimit kcp₂) (rtoMargin kcp₂) kcp₂.sndBuf
        { xmit := kcp₂.xmit, state := kcp₂.state } (flushProbes kcp₁ seg b) = data at *
      obtain ⟨buf, c, b'⟩ := data
      have hlast := flow_updateSsthresh { kcp₂ with sndBuf := buf, xmit := c.xmit, state := c.state }
        c (resentLimit kcp₂) (sendWindow kcp₁)
      rw [← hnxt₂]
      refine ⟨k, hqueue₁ ▸ hk, ?_, ?_, fun _ => hpos, hdata.2.output.out⟩
      · rw [hlast]
        exact { hfilled with buf := hfilled.buf.congr hdata.1 }
      · rw [← hqueue₁, ← hstay]
        exact congrArg (fun f => f.send.queue) hlast

theorem recv_ikcpFlush (kcp : Ikcpcb) : (ikcpFlush kcp).1.flow.recv =
    if kcp.updated = false then kcp.flow.recv else { kcp.flow.recv with acklist := [] } := by
  unfold ikcpFlush
  split
  next hno => rfl
  next =>
      dsimp only
      rw [flow_updateSsthresh]
      show (probeWindow { kcp with acklist := [] }).flow.recv = _
      rw [flow_probeWindow]
      rfl

theorem ikcpUpdate_eq (kcp : Ikcpcb) (current : UInt32) :
    ∃ kcp', kcp'.flow = kcp.flow ∧ Keeps kcp kcp' ∧
      (ikcpUpdate kcp current = ikcpFlush kcp' ∨ ikcpUpdate kcp current = (kcp', [])) := by
  obtain ⟨tsFlush, heq⟩ := ikcpUpdate_clock kcp current
  exact ⟨{ kcp with current := current, updated := true, tsFlush := tsFlush }, rfl,
    ⟨rfl, rfl, rfl, rfl, rfl, rfl, List.Subset.refl _⟩, heq⟩

/-! ## Sending and receiving -/

theorem Context.ikcpSend (h : Context kcp) (buffer : Bytes) :
    ((ikcpSend kcp buffer).1 < 0 ∧ (ikcpSend kcp buffer).2 = kcp) ∨
    ∃ msg, (ikcpSend kcp buffer).1 = msg.length ∧
      msg = buffer.take (ikcpSend kcp buffer).1.toNat ∧ fragmentCount 1376 msg.length < 8192 ∧
      (ikcpSend kcp buffer).2 = { kcp with
        sndQueue := kcp.sndQueue ++ fragments 1376 0 (fragmentCount 1376 msg.length) msg } := by
  have hmss : kcp.mss.toNat = 1376 := by
    rw [h.mss]
    rfl
  have hle : (Int32.ofNat buffer.length).toInt ≤ buffer.length := by
    show (BitVec.ofNat 32 buffer.length).toInt ≤ buffer.length
    rw [BitVec.toInt_ofNat', Int.bmod_def]
    omega
  unfold Kcp.ikcpSend
  dsimp only
  generalize (Int32.ofNat buffer.length).toInt = len at *
  split
  next hneg => exact .inl ⟨show (-1 : Int) < 0 by omega, rfl⟩
  next hlen =>
      have htake : (buffer.take len.toNat).length = len.toNat := by
        rw [List.length_take]
        omega
      rw [h.fillLast]
      dsimp only
      rw [if_neg (by simp [h.stream]), hmss, h.stream, List.drop_zero]
      split
      next =>
          rw [if_neg (by simp)]
          exact .inl ⟨show (-2 : Int) < 0 by omega, rfl⟩
      next hcount =>
          have hwnd : wndRcv.toNat = 8192 := rfl
          have hret : ((0 : Nat) : Int) + (buffer.take len.toNat).length =
              (buffer.take len.toNat).length := Int.zero_add _
          refine .inr ⟨buffer.take len.toNat, hret, ?_, by omega, rfl⟩
          rw [hret, Int.toNat_natCast, htake]

theorem ikcpRecv_cases (kcp : Ikcpcb) (len : Nat) :
    ((ikcpRecv kcp len).1 < 0 ∧ (ikcpRecv kcp len).2 = ([], kcp)) ∨
    (kcp.rcvQueue ≠ [] ∧ 0 ≤ ikcpPeeksize kcp ∧
      (ikcpRecv kcp len).1 = (messageData (firstMessage kcp.rcvQueue).1).length ∧
      (ikcpRecv kcp len).2.1 = messageData (firstMessage kcp.rcvQueue).1 ∧
      (ikcpRecv kcp len).2.2.flow =
        (moveToQueue { kcp with rcvQueue := (firstMessage kcp.rcvQueue).2 }).flow) := by
  unfold ikcpRecv
  split
  · exact .inl ⟨show (-1 : Int) < 0 by omega, rfl⟩
  next hne =>
      dsimp only
      split
      · exact .inl ⟨show (-2 : Int) < 0 by omega, rfl⟩
      next hpeek =>
          split
          · exact .inl ⟨show (-3 : Int) < 0 by omega, rfl⟩
          · refine .inr ⟨hne, not_lt.mp hpeek, rfl, rfl, ?_⟩
            dsimp only
            split <;> rfl

theorem firstMessage_append (queue : List IkcpSeg) :
    (firstMessage queue).1 ++ (firstMessage queue).2 = queue := by
  induction queue with
  | nil => rfl
  | cons seg queue ih =>
      rw [firstMessage]
      split
      · rfl
      · rw [List.cons_append, ih]

theorem RecvWindow.takeMessage (h : RecvWindow Q kcp.flow.recv taken nums) :
    ∃ segs nums',
      RecvWindow Q (moveToQueue { kcp with rcvQueue := (firstMessage kcp.rcvQueue).2 }).flow.recv
        (taken + segs.length) nums' ∧
      (moveToQueue { kcp with rcvQueue := (firstMessage kcp.rcvQueue).2 }).rcvQueue =
        (firstMessage kcp.rcvQueue).2 ++ segs ∧
      Numbered Q segs (List.range' taken segs.length) ∧
      nums = List.range' taken segs.length ++ nums' := by
  have hlen := congrArg List.length (firstMessage_append kcp.rcvQueue)
  rw [List.length_append] at hlen
  have hqueue : kcp.rcvQueue.length ≤ 8192 := h.queue
  have hshort : RecvBuf Q ({ kcp with
      rcvQueue := (firstMessage kcp.rcvQueue).2 } : Ikcpcb).flow.recv taken nums :=
    ⟨h.nxt_eq, h.wnd_eq, h.buf, h.sorted, h.mem, show (firstMessage kcp.rcvQueue).2.length ≤ 8192 by
      omega⟩
  exact hshort.move

end Hprd.Net.Kcp

import Hprd.Net.Kcp.WindowSteps

/-!
# Bounds that hold whatever comes in

A peer can send anything, also segments that nobody has numbered and acks of what was
never sent. `snd_buf` and `rcv_buf` stay in order and inside their windows all the
same, and what is kept for the upper layer stays bounded.
-/

namespace Hprd.Net.Kcp

open Hprd.Core Hprd.Core.Serial

/-- How far behind `base` the number of a segment is. -/
def IkcpSeg.ahead (base : UInt32) (seg : IkcpSeg) : Nat := (seg.sn - base).toNat

/-- `snd_buf` has numbers from `snd_una` to `snd_nxt`, at most 4096 of them; `rcv_buf` has numbers
out of the 8192 from `rcv_nxt` on, and `rcv_nxt` itself only while the queue is full. -/
structure Bounded (kcp : Ikcpcb) : Prop where
  sent : (kcp.sndNxt - kcp.sndUna).toNat ≤ 4096
  sndBuf : ∀ seg ∈ kcp.sndBuf, seg.ahead kcp.sndUna < (kcp.sndNxt - kcp.sndUna).toNat
  sndBuf_sorted : (kcp.sndBuf.map (IkcpSeg.ahead kcp.sndUna)).Pairwise (· < ·)
  sndBuf_length : kcp.sndBuf.length ≤ 4096
  rcvBuf : ∀ seg ∈ kcp.rcvBuf, seg.ahead kcp.rcvNxt < 8192
  rcvBuf_sorted : (kcp.rcvBuf.map (IkcpSeg.ahead kcp.rcvNxt)).Pairwise (· < ·)
  rcvBuf_length : kcp.rcvBuf.length ≤ 8192
  rcvQueue_length : kcp.rcvQueue.length ≤ 8192
  next : ∀ seg ∈ kcp.rcvBuf, seg.sn = kcp.rcvNxt → kcp.rcvQueue.length = 8192

section

variable {Q : Nat → Piece → Prop} {buf : List IkcpSeg} {nums : List Nat} {base top : Nat}

theorem toNat_ofNat_sub {n : Nat} (hlow : base ≤ n) (hhigh : n < base + 2 ^ 32) :
    (UInt32.ofNat n - UInt32.ofNat base).toNat = n - base := by
  obtain ⟨d, rfl⟩ := Nat.exists_eq_add_of_le hlow
  rw [UInt32.ofNat_add, UInt32.add_comm, UInt32.add_sub_cancel, UInt32.toNat_ofNat']
  omega

theorem Numbered.ahead (h : Numbered Q buf nums)
    (hmem : ∀ n ∈ nums, base ≤ n ∧ n < base + 2 ^ 32) :
    buf.map (IkcpSeg.ahead (UInt32.ofNat base)) = nums.map fun n => n - base := by
  induction h with
  | nil => rfl
  | @cons seg n buf nums hn _ ih =>
      obtain ⟨hlow, hhigh⟩ := hmem n (List.mem_cons_self ..)
      rw [List.map_cons, List.map_cons, ih fun m hm => hmem m (List.mem_cons_of_mem _ hm),
        IkcpSeg.ahead, hn.1, toNat_ofNat_sub hlow hhigh]

theorem Numbered.inside (h : Numbered Q buf nums) (hsorted : nums.Pairwise (· < ·))
    (hmem : ∀ n ∈ nums, base ≤ n ∧ n < top) (htop : top ≤ base + 2 ^ 32) :
    (∀ seg ∈ buf, seg.ahead (UInt32.ofNat base) < top - base) ∧
      (buf.map (IkcpSeg.ahead (UInt32.ofNat base))).Pairwise (· < ·) ∧
      buf.length ≤ top - base := by
  have hahead := h.ahead fun n hn => ⟨(hmem n hn).1, (hmem n hn).2.trans_le htop⟩
  have hlt : ∀ d ∈ buf.map (IkcpSeg.ahead (UInt32.ofNat base)), d < top - base := by
    rw [hahead]
    intro d hd
    obtain ⟨n, hn, rfl⟩ := List.mem_map.mp hd
    obtain ⟨hlow, hhigh⟩ := hmem n hn
    omega
  have hpair : (buf.map (IkcpSeg.ahead (UInt32.ofNat base))).Pairwise (· < ·) := by
    rw [hahead, List.pairwise_map]
    refine hsorted.imp_of_mem fun hm hn hmn => ?_
    have hlow := (hmem _ hm).1
    omega
  refine ⟨fun seg hseg => hlt _ (List.mem_map_of_mem hseg), hpair, ?_⟩
  have hnodup : (buf.map (IkcpSeg.ahead (UInt32.ofNat base))).Nodup := hpair.imp Nat.ne_of_lt
  have hsub := hnodup.subperm fun d hd => List.mem_range.mpr (hlt d hd)
  simpa using hsub.length_le

end

/-! ## Every run -/

section

variable {kcp kcp' : Ikcpcb}

/-- There are counters that the words stand for. -/
structure Windowed (kcp : Ikcpcb) : Prop where
  context : Context kcp
  send : ∃ numbered una nums, SendWindow (fun _ _ => True) kcp.flow.send numbered una nums
  recv : ∃ taken nums, RecvWindow (fun _ _ => True) kcp.flow.recv taken nums

theorem Windowed.new (conv : UInt32) : Windowed (newContext conv) where
  context := Context.new conv
  send := ⟨0, 0, [], ⟨rfl, rfl, rfl, show (1 : Int32) ≠ 0 by decide, .nil, .nil, nofun,
    Nat.le_refl _, Nat.zero_le _⟩, rfl⟩
  recv := ⟨0, [], ⟨rfl, rfl, .nil, .nil, nofun, Nat.zero_le _⟩, nofun⟩

theorem Windowed.inputSeg {st : Ikcpcb × MaxAck} (h : Windowed st.1) (seg : IkcpSeg) :
    Windowed (inputSeg st seg).1 := by
  obtain ⟨hc, ⟨numbered, una, nums, hsend⟩, taken, rnums, hrecv⟩ := h
  obtain ⟨una', nums', hsend', -⟩ := hsend.inputSeg seg
  have hrecv₁ : RecvWindow (fun _ _ => True) (readUna st.1 seg).flow.recv taken rnums := by
    rw [recv_readUna]
    exact hrecv
  refine ⟨hc.keeps (keeps_inputSeg st seg), ⟨numbered, una', nums', hsend'⟩, ?_⟩
  rw [flow_inputSeg]
  split
  · rw [recv_readAck]
    exact ⟨taken, rnums, hrecv₁⟩
  · split
    · rcases hrecv₁.readPush seg with ⟨-, hsame⟩ | ⟨-, hold⟩ | ⟨d, -, -, hmove⟩
      · rw [hsame]
        exact ⟨taken, rnums, hrecv₁⟩
      · rw [hold]
        exact ⟨taken, rnums, ⟨hrecv₁.nxt_eq, hrecv₁.wnd_eq, hrecv₁.buf, hrecv₁.sorted,
          hrecv₁.mem, hrecv₁.queue⟩, hrecv₁.settled⟩
      · obtain ⟨segs, nums', hwindow, -⟩ := hmove trivial
        exact ⟨_, nums', hwindow⟩
    · exact ⟨taken, rnums, hrecv₁⟩

theorem Windowed.closeInput {st : Ikcpcb × MaxAck} (h : Windowed st.1) (prevUna : UInt32) :
    Windowed (closeInput prevUna st) := by
  obtain ⟨hc, ⟨numbered, una, nums, hsend⟩, hrecv⟩ := h
  refine ⟨hc.keeps (keeps_closeInput prevUna st), ⟨numbered, una, nums, hsend.closeInput prevUna⟩,
    ?_⟩
  rw [recv_closeInput]
  exact hrecv

theorem Windowed.input (h : Windowed kcp) {data : Bytes} {size : Nat} {ret : Int}
    (hin : ikcpInput kcp data size = some (ret, kcp')) : Windowed kcp' := by
  unfold ikcpInput at hin
  split at hin
  · cases hin
    exact h
  · obtain ⟨⟨ret', st⟩, hloop, hout⟩ := Option.map_eq_some_iff.mp hin
    have hst : Windowed st.1 := inputLoop_invariant (fun _ seg h => h.inputSeg seg) hloop h
    dsimp only at hout
    split at hout
    · cases hout
      exact hst.closeInput _
    · cases hout
      exact hst

theorem Windowed.flush (h : Windowed kcp) : Windowed (ikcpFlush kcp).1 := by
  obtain ⟨hc, ⟨numbered, una, nums, hsend⟩, taken, rnums, hrecv⟩ := h
  obtain ⟨k, -, hsend', -⟩ := hsend.flush hc fun _ _ _ => trivial
  refine ⟨hc.flush.1, ⟨_, _, _, hsend'⟩, taken, rnums, ?_⟩
  rw [recv_ikcpFlush]
  split
  · exact hrecv
  · exact ⟨⟨hrecv.nxt_eq, hrecv.wnd_eq, hrecv.buf, hrecv.sorted, hrecv.mem, hrecv.queue⟩,
      hrecv.settled⟩

/-- The send queue does not count. -/
theorem Windowed.step {a : KcpAction} (h : Windowed kcp) (hs : kcpStep kcp a = some kcp') :
    Windowed kcp' := by
  have hcontext := h.context.step hs
  cases a with
  | send buffer =>
      cases hs
      rcases h.context.ikcpSend buffer with ⟨-, hsame⟩ | ⟨msg, -, -, -, hqueued⟩
      · rw [hsame]
        exact h
      · obtain ⟨-, ⟨numbered, una, nums, hsend⟩, hrecv⟩ := h
        refine ⟨hcontext, ?_, ?_⟩
        · rw [hqueued]
          exact ⟨numbered, una, nums, ⟨hsend.nxt_eq, hsend.una_eq, hsend.wnd_eq, hsend.nocwnd,
            hsend.buf, hsend.sorted, hsend.mem, hsend.una_le, hsend.window⟩, hsend.first⟩
        · rw [hqueued]
          exact hrecv
  | input data size =>
      obtain ⟨⟨ret, st⟩, hin, rfl⟩ := Option.map_eq_some_iff.mp hs
      exact h.input hin
  | update current =>
      cases hs
      obtain ⟨kcp₁, hflow, hkeeps, heq⟩ := ikcpUpdate_eq kcp current
      have h₁ : Windowed kcp₁ := ⟨h.context.keeps hkeeps, hflow ▸ h.send, hflow ▸ h.recv⟩
      rcases heq with heq | heq
      · rw [heq]
        exact h₁.flush
      · rw [heq]
        exact h₁
  | flush =>
      cases hs
      exact h.flush
  | recv len =>
      cases hs
      rcases ikcpRecv_cases kcp len with ⟨-, hsame⟩ | ⟨-, -, -, -, hflow⟩
      · rw [hsame]
        exact h
      · obtain ⟨-, hsend, taken, rnums, hrecv⟩ := h
        obtain ⟨segs, nums', hwindow, -⟩ := hrecv.takeMessage
        refine ⟨hcontext, ?_, ?_⟩
        · rw [hflow]
          exact hsend
        · rw [hflow]
          exact ⟨_, nums', hwindow⟩

theorem Windowed.bounded (h : Windowed kcp) : Bounded kcp := by
  obtain ⟨-, ⟨numbered, una, nums, hsend⟩, taken, rnums, hrecv⟩ := h
  have huna : kcp.sndUna = UInt32.ofNat una := hsend.una_eq
  have hsnd : kcp.sndNxt = UInt32.ofNat numbered := hsend.nxt_eq
  have hrcv : kcp.rcvNxt = UInt32.ofNat taken := hrecv.nxt_eq
  have hle := hsend.una_le
  have hwindow := hsend.window
  have hcount : (kcp.sndNxt - kcp.sndUna).toNat = numbered - una := by
    rw [hsnd, huna, toNat_ofNat_sub hle (by omega)]
  obtain ⟨hin, hsorted, hlen⟩ := hsend.buf.inside hsend.sorted hsend.mem (by omega)
  obtain ⟨hrin, hrsorted, hrlen⟩ := hrecv.buf.inside hrecv.sorted hrecv.mem (by omega)
  rw [Nat.add_sub_cancel_left] at hrin hrlen
  rw [← huna] at hin hsorted
  rw [← hrcv] at hrin hrsorted
  have hlen' : kcp.sndBuf.length ≤ numbered - una := hlen
  refine ⟨by omega, hcount ▸ hin, hsorted, by omega, hrin, hrsorted, hrlen, hrecv.queue, ?_⟩
  intro seg hseg hnext
  obtain ⟨n, hn, hsn, -⟩ := hrecv.buf.mem hseg
  obtain ⟨hlow, hhigh⟩ := hrecv.mem n hn
  rw [hrcv, hsn, ofNat_eq_iff ⟨by omega, by omega⟩] at hnext
  exact hrecv.settled (hnext ▸ hn)

theorem Windowed.of_reachable (h : kcpMachine.Reachable kcp) : Windowed kcp := by
  refine Machine.Run.invariant ?_ (fun _ _ _ hi _ hs => hi.step hs) h
  rintro _ ⟨conv, rfl⟩
  exact Windowed.new conv

/-- Whatever is sent, received and fed in. -/
theorem bounded_of_reachable (h : kcpMachine.Reachable kcp) : Bounded kcp :=
  (Windowed.of_reachable h).bounded

end

/-- A push of number 3 that comes first waits in `rcv_buf`. -/
theorem bounded_of_reachable_early : ∃ kcp, kcpMachine.Reachable kcp ∧
    kcp.rcvBuf.map (IkcpSeg.ahead kcp.rcvNxt) = [3] ∧ Bounded kcp := by
  have hrun : (kcpMachine.exec (newContext 5) [.input (encodeSeg
      { conv := 5, cmd := cmdPush, wnd := 128, sn := 3, data := [7] }) 27]).map
      (fun kcp => kcp.rcvBuf.map (IkcpSeg.ahead kcp.rcvNxt)) = some [3] := by
    decide +kernel
  obtain ⟨kcp, hs, hview⟩ := Option.map_eq_some_iff.mp hrun
  have hreach := Machine.Reachable.exec (reachable_new 5) hs
  exact ⟨kcp, hreach, hview, bounded_of_reachable hreach⟩

end Hprd.Net.Kcp

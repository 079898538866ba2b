import Hprd.Net.Kcp.WindowBounds

/-!
# What reading a datagram is sure to do

A push of the next number is taken or answered, what the peer has taken leaves
`snd_buf`, the window that the peer has left becomes `rmt_wnd`, and a question for our
own window is answered with the next flush.
-/

namespace Hprd.Net.Kcp

open Hprd.Core Hprd.Core.Serial

/-- Any piece will do. -/
abbrev AnyPiece : Nat → Piece → Prop := fun _ _ => True

section

variable {kcp : Ikcpcb} {st : Ikcpcb × MaxAck} {seg : IkcpSeg} {segs : List IkcpSeg}
  {numbered una taken : Nat} {nums : List Nat}

/-! ## The window of the peer and its questions -/

/-- The fields that the windows are announced by. -/
def Ikcpcb.asks (kcp : Ikcpcb) : UInt32 × UInt32 := (kcp.rmtWnd, kcp.probe)

theorem asks_shrinkBuf (kcp : Ikcpcb) : (shrinkBuf kcp).asks = kcp.asks := by
  unfold shrinkBuf
  split <;> rfl

theorem asks_readUna (kcp : Ikcpcb) (seg : IkcpSeg) :
    (readUna kcp seg).asks = (seg.wnd, kcp.probe) := by
  rw [readUna, asks_shrinkBuf]
  rfl

theorem asks_readAck (kcp : Ikcpcb) (seg : IkcpSeg) : (readAck kcp seg).asks = kcp.asks := by
  have hrtt : ∀ rtt, (updateAck kcp rtt).asks = kcp.asks := by
    intro rtt
    unfold updateAck smoothRtt
    split <;> rfl
  have hack : ∀ kcp : Ikcpcb, (parseAck kcp seg.sn).asks = kcp.asks := by
    intro kcp
    unfold parseAck
    split <;> rfl
  unfold readAck
  dsimp only
  rw [asks_shrinkBuf, hack]
  split
  · exact hrtt _
  · rfl

theorem asks_readPush (kcp : Ikcpcb) (seg : IkcpSeg) : (readPush kcp seg).asks = kcp.asks := by
  have hdata : ∀ kcp : Ikcpcb, (parseData kcp seg).asks = kcp.asks := by
    intro kcp
    unfold parseData
    split <;> rfl
  unfold readPush
  split
  · dsimp only
    split
    · rw [hdata]
      rfl
    · rfl
  · rfl

theorem asks_inputSeg (st : Ikcpcb × MaxAck) (seg : IkcpSeg) :
    (inputSeg st seg).1.asks = (seg.wnd,
      if seg.cmd = cmdWask then st.1.probe ||| askTell else st.1.probe) := by
  obtain ⟨kcp, maxack⟩ := st
  have huna := asks_readUna kcp seg
  have hack := asks_readAck (readUna kcp seg) seg
  have hpush := asks_readPush (readUna kcp seg) seg
  unfold readAck at hack
  unfold readPush at hpush
  unfold inputSeg
  dsimp only at hack hpush ⊢
  rw [← readUna]
  generalize readUna kcp seg = kcp' at *
  by_cases hcmd : seg.cmd = cmdAck
  · have hne : seg.cmd ≠ cmdWask := by
      rw [hcmd]
      decide
    rw [if_pos hcmd, if_neg hne, ← huna, ← hack]
    cases maxack <;> rfl
  · rw [if_neg hcmd]
    by_cases hcmd' : seg.cmd = cmdPush
    · have hne : seg.cmd ≠ cmdWask := by
        rw [hcmd']
        decide
      rw [if_pos hcmd', if_neg hne, ← huna, ← hpush]
      split <;> rfl
    · rw [if_neg hcmd']
      obtain ⟨hwnd, hprobe⟩ := Prod.mk.inj huna
      split
      · exact Prod.ext hwnd (congrArg (· ||| askTell) hprobe)
      · exact huna

theorem asks_closeInput (prevUna : UInt32) (st : Ikcpcb × MaxAck) :
    (closeInput prevUna st).asks = st.1.asks := by
  have hfast : (closeFastack st).asks = st.1.asks := by
    unfold closeFastack
    split
    · rfl
    · unfold parseFastack
      split <;> rfl
  have hgrow : ∀ kcp : Ikcpcb, (growWindow kcp).asks = kcp.asks := by
    intro kcp
    unfold growWindow
    dsimp only
    split <;> rfl
  have hopen : ∀ kcp : Ikcpcb, (openWindow kcp).asks = kcp.asks := by
    intro kcp
    unfold openWindow
    split
    · rw [← hgrow kcp]
      generalize growWindow kcp = grown
      dsimp only
      split <;> rfl
    · rfl
  unfold closeInput
  dsimp only
  split
  · rw [hopen, hfast]
  · exact hfast

theorem rmtWnd_inputSegs {wnd : UInt32} (hne : segs ≠ []) (hwnd : ∀ seg ∈ segs, seg.wnd = wnd) :
    (segs.foldl inputSeg st).1.rmtWnd = wnd := by
  induction segs generalizing st with
  | nil => exact absurd rfl hne
  | cons seg segs ih =>
      rw [List.foldl_cons]
      by_cases hlast : segs = []
      · rw [hlast]
        have hasks := congrArg Prod.fst (asks_inputSeg st seg)
        exact hasks.trans (hwnd seg (List.mem_cons_self ..))
      · exact ih hlast fun seg' hmem => hwnd seg' (List.mem_cons_of_mem _ hmem)

theorem or_and_ne_zero {p q a : UInt32} (h : p &&& a ≠ 0 ∨ q &&& a ≠ 0) : (p ||| q) &&& a ≠ 0 := by
  have hdistrib : (p ||| q) &&& a = (p &&& a) ||| (q &&& a) := by
    rw [← UInt32.toBitVec_inj]
    exact BitVec.and_or_distrib_right
  rw [hdistrib, Ne, UInt32.or_eq_zero_iff, not_and_or]
  exact h

/-- A question is not forgotten. -/
theorem tell_inputSegs (h : st.1.probe &&& askTell ≠ 0 ∨ ∃ seg ∈ segs, seg.cmd = cmdWask) :
    (segs.foldl inputSeg st).1.probe &&& askTell ≠ 0 := by
  induction segs generalizing st with
  | nil => exact h.resolve_right fun ⟨_, hseg, _⟩ => absurd hseg List.not_mem_nil
  | cons seg segs ih =>
      rw [List.foldl_cons]
      have hprobe : (inputSeg st seg).1.probe =
          if seg.cmd = cmdWask then st.1.probe ||| askTell else st.1.probe :=
        congrArg Prod.snd (asks_inputSeg st seg)
      apply ih
      rcases h with h | ⟨seg', hseg, hcmd⟩
      · left
        rw [hprobe]
        split
        · exact or_and_ne_zero (.inl h)
        · exact h
      · rcases List.mem_cons.mp hseg with rfl | hseg
        · left
          rw [hprobe, if_pos hcmd]
          exact or_and_ne_zero (.inr (by decide))
        · exact .inr ⟨seg', hseg, hcmd⟩

/-! ## Pushes -/

theorem recv_inputSegs (h : ∀ seg ∈ segs, seg.cmd ≠ cmdPush) :
    (segs.foldl inputSeg st).1.flow.recv = st.1.flow.recv := by
  induction segs generalizing st with
  | nil => rfl
  | cons seg segs ih =>
      rw [List.foldl_cons, ih fun seg' hmem => h seg' (List.mem_cons_of_mem _ hmem), flow_inputSeg]
      split
      · rw [recv_readAck, recv_readUna]
      · rw [if_neg (h seg (List.mem_cons_self ..)), recv_readUna]

/-- A push of a number up to the next one is answered, and taken when it is the next one and the
queue has room. -/
theorem RecvWindow.inputSeg (h : RecvWindow AnyPiece st.1.flow.recv taken nums) (seg : IkcpSeg) :
    ∃ k nums', RecvWindow AnyPiece (inputSeg st seg).1.flow.recv (taken + k) nums' ∧
      (inputSeg st seg).1.rcvQueue.length = st.1.rcvQueue.length + k ∧
      st.1.acklist <+: (inputSeg st seg).1.acklist ∧
      ∀ n, seg.cmd = cmdPush → seg.sn = UInt32.ofNat n → n ≤ taken → taken < n + 2 ^ 30 →
        st.1.rcvQueue.length < 8192 → 0 < k ∨ n < taken ∧ (inputSeg st seg).1.acklist ≠ [] := by
  have hsame : (Kcp.inputSeg st seg).1.flow.recv = st.1.flow.recv →
      RecvWindow AnyPiece (Kcp.inputSeg st seg).1.flow.recv (taken + 0) nums ∧
      (Kcp.inputSeg st seg).1.rcvQueue.length = st.1.rcvQueue.length + 0 ∧
      st.1.acklist <+: (Kcp.inputSeg st seg).1.acklist := by
    intro heq
    refine ⟨heq ▸ h, congrArg (fun g => g.queue.length) heq, ?_⟩
    rw [show (Kcp.inputSeg st seg).1.acklist = st.1.acklist from congrArg RecvSide.acklist heq]
  by_cases hcmd : seg.cmd = cmdPush
  · have hack : seg.cmd ≠ cmdAck := by
      rw [hcmd]
      decide
    have hread : (Kcp.inputSeg st seg).1.flow.recv =
        (Kcp.readPush (Kcp.readUna st.1 seg) seg).flow.recv := by
      rw [flow_inputSeg, if_neg hack, if_pos hcmd]
    have huna : (Kcp.readUna st.1 seg).flow.recv = st.1.flow.recv := recv_readUna ..
    have hqueue : (Kcp.readUna st.1 seg).rcvQueue = st.1.rcvQueue := congrArg RecvSide.queue huna
    have hacks : (Kcp.readUna st.1 seg).acklist = st.1.acklist := congrArg RecvSide.acklist huna
    have h₁ : RecvWindow AnyPiece (Kcp.readUna st.1 seg).flow.recv taken nums := huna ▸ h
    rcases h₁.readPush seg with ⟨htop, hno⟩ | ⟨hbefore, hold⟩ | ⟨d, hd, hsn, hmove⟩
    · obtain ⟨hwindow, hlen, hpre⟩ := hsame (hread.trans (hno.trans huna))
      refine ⟨0, nums, hwindow, hlen, hpre, fun n _ hn hle hnear _ => ?_⟩
      refine absurd ?_ htop
      rw [hn, show wndRcv = UInt32.ofNat 8192 from rfl, ← UInt32.ofNat_add,
        itimediff_neg ⟨by omega, by omega⟩]
      omega
    · have hrecv := hread.trans hold
      have hlist : (Kcp.inputSeg st seg).1.acklist = st.1.acklist ++ [(seg.sn, seg.ts)] := by
        rw [← hacks]
        exact congrArg RecvSide.acklist hrecv
      refine ⟨0, nums, ?_, ?_, ?_, fun n _ hn hle hnear _ => ?_⟩
      · rw [hrecv]
        exact ⟨⟨h₁.nxt_eq, h₁.wnd_eq, h₁.buf, h₁.sorted, h₁.mem, h₁.queue⟩, h₁.settled⟩
      · rw [← hqueue]
        exact congrArg (fun g => g.queue.length) hrecv
      · rw [hlist]
        exact List.prefix_append ..
      · rw [hn, itimediff_neg ⟨by omega, by omega⟩] at hbefore
        exact .inr ⟨hbefore, by rw [hlist]; simp⟩
    · obtain ⟨segs, nums', hwindow, hqueue', hlist, hsegs, hnums⟩ := hmove trivial
      have hlist' : (Kcp.inputSeg st seg).1.acklist = st.1.acklist ++ [(seg.sn, seg.ts)] := by
        rw [← hacks, ← hlist]
        exact congrArg RecvSide.acklist hread
      have hqueue₂ : (Kcp.inputSeg st seg).1.rcvQueue = st.1.rcvQueue ++ segs := by
        rw [← hqueue, ← hqueue']
        exact congrArg RecvSide.queue hread
      refine ⟨segs.length, nums', hread ▸ hwindow, ?_, ?_, fun n _ hn hle hnear hroom => ?_⟩
      · rw [hqueue₂, List.length_append]
      · rw [hlist']
        exact List.prefix_append ..
      · left
        -- what is next never stays in the buffer while the queue has room
        by_contra hnone
        have hzero : segs.length = 0 := by omega
        rw [hn, ofNat_eq_iff ⟨by omega, by omega⟩] at hsn
        have hin : taken ∈ nums' := by
          have hmem := (hnums taken).mpr (.inl (by omega))
          rwa [hzero, List.range'_zero, List.nil_append] at hmem
        have hfull := hwindow.settled (by rwa [hzero, Nat.add_zero])
        have hlen : (Kcp.readPush (Kcp.readUna st.1 seg) seg).rcvQueue.length = 8192 := hfull
        rw [hqueue', List.length_append, hzero, Nat.add_zero, hqueue] at hlen
        omega
  · have heq : (Kcp.inputSeg st seg).1.flow.recv = st.1.flow.recv := by
      have hone : ([seg].foldl Kcp.inputSeg st).1.flow.recv = st.1.flow.recv :=
        recv_inputSegs fun seg' hmem => by
          rwa [List.mem_singleton.mp hmem]
      exact hone
    obtain ⟨hwindow, hlen, hpre⟩ := hsame heq
    exact ⟨0, nums, hwindow, hlen, hpre, fun _ he => absurd he hcmd⟩

theorem RecvWindow.arrives (h : RecvWindow AnyPiece st.1.flow.recv taken nums)
    (segs : List IkcpSeg) :
    ∃ k nums', RecvWindow AnyPiece (segs.foldl Kcp.inputSeg st).1.flow.recv (taken + k) nums' ∧
      (segs.foldl Kcp.inputSeg st).1.rcvQueue.length = st.1.rcvQueue.length + k ∧
      st.1.acklist <+: (segs.foldl Kcp.inputSeg st).1.acklist ∧
      ∀ n, (∃ seg ∈ segs, seg.cmd = cmdPush ∧ seg.sn = UInt32.ofNat n) → n ≤ taken →
        taken < n + 2 ^ 30 → st.1.rcvQueue.length < 8192 →
        0 < k ∨ n < taken ∧ (segs.foldl Kcp.inputSeg st).1.acklist ≠ [] := by
  induction segs generalizing st taken nums with
  | nil =>
      exact ⟨0, nums, h, rfl, List.prefix_refl _, fun _ ⟨_, hseg, _⟩ =>
        absurd hseg List.not_mem_nil⟩
  | cons seg segs ih =>
      obtain ⟨k₁, nums₁, hwindow₁, hlen₁, hpre₁, hone⟩ := h.inputSeg seg
      obtain ⟨k₂, nums₂, hwindow₂, hlen₂, hpre₂, hrest⟩ := ih hwindow₁
      rw [List.foldl_cons]
      refine ⟨k₁ + k₂, nums₂, Nat.add_assoc taken k₁ k₂ ▸ hwindow₂, by omega, hpre₁.trans hpre₂,
        fun n ⟨seg', hseg, hcmd, hsn⟩ hle hnear hroom => ?_⟩
      rcases List.mem_cons.mp hseg with rfl | hseg
      · rcases hone n hcmd hsn hle hnear hroom with hk | ⟨hlt, hacks⟩
        · exact .inl (Nat.add_pos_left hk _)
        · refine .inr ⟨hlt, fun hnil => hacks ?_⟩
          exact List.prefix_nil.mp (hnil ▸ hpre₂)
      · rcases Nat.eq_zero_or_pos k₁ with rfl | hk
        · rcases hrest n ⟨seg', hseg, hcmd, hsn⟩ hle hnear (by omega) with hk | hacked
          · exact .inl (Nat.add_pos_right _ hk)
          · exact .inr hacked
        · exact .inl (Nat.add_pos_left hk _)

/-! ## Reports -/

/-- What the peer has taken leaves the buffer. -/
theorem SendWindow.reports {t : Nat} (h : SendWindow AnyPiece st.1.flow.send numbered una nums)
    (ht : t ≤ numbered) (hnear : numbered < t + 2 ^ 31)
    (huna : ∀ seg ∈ segs, seg.una = UInt32.ofNat t) :
    ∃ una' nums', SendWindow AnyPiece (segs.foldl Kcp.inputSeg st).1.flow.send numbered una' nums' ∧
      nums'.Sublist nums ∧ (segs ≠ [] → ∀ m ∈ nums', t ≤ m) := by
  induction segs generalizing st una nums with
  | nil => exact ⟨una, nums, h, List.Sublist.refl _, fun hne => absurd rfl hne⟩
  | cons seg segs ih =>
      obtain ⟨una₁, nums₁, hwindow₁, hsub₁, hlow⟩ := h.inputSeg seg
      obtain ⟨una₂, nums₂, hwindow₂, hsub₂, -⟩ :=
        ih hwindow₁ fun seg' hmem => huna seg' (List.mem_cons_of_mem _ hmem)
      exact ⟨una₂, nums₂, hwindow₂, hsub₂.trans hsub₁, fun _ m hm =>
        hlow t (huna seg (List.mem_cons_self ..)) ht hnear m (hsub₂.subset hm)⟩

end

end Hprd.Net.Kcp

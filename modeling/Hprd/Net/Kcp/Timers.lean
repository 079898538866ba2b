import Hprd.Net.Kcp.Emission
import Hprd.Net.Kcp.WindowBounds

/-!
# When a segment is sent again

The timer of a segment in `snd_buf` runs from the last time that it was sent. It starts
with the estimate `rx_rto`, which `ikcp_update_ack` bounds, and every timeout makes it
longer by half of the estimate. So the time up to the next sending has a lower bound and
an upper bound that grows with the number of times it was sent.
-/

namespace Hprd.Net.Kcp

open Hprd.Core Hprd.Core.Serial

/-- The timer of a segment. -/
def IkcpSeg.timer (seg : IkcpSeg) : UInt32 × UInt32 × UInt32 × UInt32 :=
  (seg.xmit, seg.ts, seg.rto, seg.resendts)

/-- The segment is still to be sent, or its timer runs from `ts` for 10 milliseconds at least, and
for half a minute at most for each time that it was sent and another one. -/
def Armed (seg : IkcpSeg) : Prop :=
  seg.xmit = 0 ∨ seg.xmit.toNat ≤ 70000 ∧ seg.resendts = seg.ts + seg.rto ∧ 10 ≤ seg.rto.toNat ∧
    seg.rto.toNat ≤ 30000 * (seg.xmit.toNat + 1)

/-- The settings of the timers, the bounds of the estimate, and the timers themselves. -/
structure Timed (kcp : Ikcpcb) : Prop where
  nodelay : kcp.nodelay = 2
  minrto : kcp.rxMinrto = 10
  rto : ∃ rto : UInt32, kcp.rxRto = rto.toInt32 ∧ 10 ≤ rto.toNat ∧ rto.toNat ≤ 60000
  armed : ∀ seg ∈ kcp.sndBuf, Armed seg

/-- No segment that waits for its ack was sent 70000 times. -/
def FewSends (kcp : Ikcpcb) (_ : KcpAction) : Prop := ∀ seg ∈ kcp.sndBuf, seg.xmit.toNat < 70000

instance (kcp : Ikcpcb) (a : KcpAction) : Decidable (FewSends kcp a) :=
  inferInstanceAs (Decidable (∀ seg ∈ kcp.sndBuf, _))

section

variable {kcp kcp' kcp'' : Ikcpcb} {seg : IkcpSeg}

/-! ## Reading -/

/-- The estimate may be made anew, and `snd_buf` loses segments. -/
structure Ticks (kcp kcp' : Ikcpcb) : Prop where
  nodelay : kcp'.nodelay = kcp.nodelay
  minrto : kcp'.rxMinrto = kcp.rxMinrto
  rto : kcp'.rxRto = kcp.rxRto ∨
    ∃ rto, kcp'.rxRto = (ibound kcp.rxMinrto.toUInt32 rto rtoMax).toInt32
  sndBuf : kcp'.sndBuf.map IkcpSeg.timer ⊆ kcp.sndBuf.map IkcpSeg.timer

theorem Ticks.refl (kcp : Ikcpcb) : Ticks kcp kcp := ⟨rfl, rfl, .inl rfl, List.Subset.refl _⟩

theorem Ticks.trans (h : Ticks kcp kcp') (h' : Ticks kcp' kcp'') : Ticks kcp kcp'' := by
  refine ⟨h'.nodelay.trans h.nodelay, h'.minrto.trans h.minrto, ?_,
    List.Subset.trans h'.sndBuf h.sndBuf⟩
  rcases h'.rto with hsame | hnew
  · rw [hsame]
    exact h.rto
  · rw [h.minrto] at hnew
    exact .inr hnew

theorem Ticks.of_sndBuf {buf : List IkcpSeg}
    (h : buf.map IkcpSeg.timer ⊆ kcp.sndBuf.map IkcpSeg.timer) :
    Ticks kcp { kcp with sndBuf := buf } :=
  ⟨rfl, rfl, .inl rfl, h⟩

theorem ibound_ten (rto : UInt32) : 10 ≤ (ibound 10 rto rtoMax).toNat ∧
    (ibound 10 rto rtoMax).toNat ≤ 60000 := by
  have hmax : rtoMax.toNat = 60000 := rfl
  have hmin : (10 : UInt32).toNat = 10 := rfl
  unfold ibound
  rw [UInt32.toNat_min, UInt32.toNat_max]
  omega

theorem Timed.ticks (h : Timed kcp) (ht : Ticks kcp kcp') : Timed kcp' := by
  refine ⟨ht.nodelay.trans h.nodelay, ht.minrto.trans h.minrto, ?_, fun seg hseg => ?_⟩
  · rcases ht.rto with hsame | ⟨rto, hnew⟩
    · rw [hsame]
      exact h.rto
    · rw [h.minrto] at hnew
      exact ⟨_, hnew, ibound_ten rto⟩
  · obtain ⟨seg', hmem, htimer⟩ := List.mem_map.mp (ht.sndBuf (List.mem_map_of_mem hseg))
    have harmed := h.armed seg' hmem
    simp only [IkcpSeg.timer, Prod.mk.injEq] at htimer
    obtain ⟨hxmit, hts, hrto, hresendts⟩ := htimer
    rw [Armed, ← hxmit, ← hts, ← hrto, ← hresendts]
    exact harmed

theorem parseAckLoop_timer (sn : UInt32) (buf : List IkcpSeg) :
    (parseAckLoop sn buf).map IkcpSeg.timer ⊆ buf.map IkcpSeg.timer := by
  induction buf with
  | nil => exact List.Subset.refl _
  | cons seg buf ih =>
      rw [parseAckLoop]
      split
      · exact List.subset_cons_self ..
      · split
        · exact List.Subset.refl _
        · exact List.cons_subset_cons _ ih

theorem parseFastackLoop_timer (sn : UInt32) (buf : List IkcpSeg) :
    (parseFastackLoop sn buf).map IkcpSeg.timer = buf.map IkcpSeg.timer := by
  induction buf with
  | nil => rfl
  | cons seg buf ih =>
      rw [parseFastackLoop]
      split
      · rfl
      · split
        · rw [List.map_cons, List.map_cons, ih]
          rfl
        · rw [List.map_cons, List.map_cons, ih]

theorem ticks_parseAck (kcp : Ikcpcb) (sn : UInt32) : Ticks kcp (parseAck kcp sn) := by
  unfold parseAck
  split
  · exact Ticks.refl _
  · exact Ticks.of_sndBuf (parseAckLoop_timer ..)

theorem ticks_parseFastack (kcp : Ikcpcb) (sn : UInt32) : Ticks kcp (parseFastack kcp sn) := by
  unfold parseFastack
  split
  · exact Ticks.refl _
  · refine Ticks.of_sndBuf ?_
    rw [parseFastackLoop_timer]
    exact List.Subset.refl _

theorem ticks_parseUna (kcp : Ikcpcb) (una : UInt32) : Ticks kcp (parseUna kcp una) :=
  Ticks.of_sndBuf (((List.dropWhile_sublist _).map _).subset)

theorem ticks_shrinkBuf (kcp : Ikcpcb) : Ticks kcp (shrinkBuf kcp) := by
  unfold shrinkBuf
  split <;> exact ⟨rfl, rfl, .inl rfl, List.Subset.refl _⟩

theorem ticks_updateAck (kcp : Ikcpcb) (rtt : Int32) : Ticks kcp (updateAck kcp rtt) := by
  have hsmooth : Ticks kcp (smoothRtt kcp rtt) := by
    unfold smoothRtt
    split <;> exact ⟨rfl, rfl, .inl rfl, List.Subset.refl _⟩
  exact hsmooth.trans ⟨rfl, rfl, .inr ⟨_, rfl⟩, List.Subset.refl _⟩

theorem ticks_parseData (kcp : Ikcpcb) (newseg : IkcpSeg) : Ticks kcp (parseData kcp newseg) := by
  unfold parseData
  split
  · exact Ticks.refl _
  · exact ⟨rfl, rfl, .inl rfl, List.Subset.refl _⟩

theorem ticks_openWindow (kcp : Ikcpcb) : Ticks kcp (openWindow kcp) := by
  have hgrow : Ticks kcp (growWindow kcp) := by
    unfold growWindow
    dsimp only
    split <;> exact ⟨rfl, rfl, .inl rfl, List.Subset.refl _⟩
  unfold openWindow
  split
  · refine hgrow.trans ?_
    dsimp only
    split
    · exact ⟨rfl, rfl, .inl rfl, List.Subset.refl _⟩
    · exact Ticks.refl _
  · exact Ticks.refl _

theorem ticks_inputSeg (st : Ikcpcb × MaxAck) (seg : IkcpSeg) :
    Ticks st.1 (inputSeg st seg).1 := by
  obtain ⟨kcp, maxack⟩ := st
  have hpre : Ticks kcp (shrinkBuf (parseUna { kcp with rmtWnd := seg.wnd } seg.una)) :=
    ((show Ticks kcp { kcp with rmtWnd := seg.wnd } from
      ⟨rfl, rfl, .inl rfl, List.Subset.refl _⟩).trans (ticks_parseUna ..)).trans
      (ticks_shrinkBuf _)
  simp only [inputSeg]
  refine hpre.trans ?_
  generalize shrinkBuf (parseUna { kcp with rmtWnd := seg.wnd } seg.una) = kcp
  split
  · have hack : Ticks kcp (shrinkBuf (parseAck
        (if 0 ≤ itimediff kcp.current seg.ts then updateAck kcp (itimediff kcp.current seg.ts)
          else kcp) seg.sn)) := by
      refine Ticks.trans ?_ ((ticks_parseAck ..).trans (ticks_shrinkBuf _))
      split
      · exact ticks_updateAck ..
      · exact Ticks.refl _
    cases maxack with
    | none => exact hack
    | some m => exact hack
  · split
    · split
      · have hpush : Ticks kcp (ackPush kcp seg.sn seg.ts) :=
          ⟨rfl, rfl, .inl rfl, List.Subset.refl _⟩
        dsimp only
        split
        · exact hpush.trans (ticks_parseData ..)
        · exact hpush
      · exact Ticks.refl _
    · split
      · exact ⟨rfl, rfl, .inl rfl, List.Subset.refl _⟩
      · exact Ticks.refl _

theorem ticks_closeInput (prevUna : UInt32) (st : Ikcpcb × MaxAck) :
    Ticks st.1 (closeInput prevUna st) := by
  have hfast : Ticks st.1 (closeFastack st) := by
    unfold closeFastack
    split
    · exact Ticks.refl _
    · exact ticks_parseFastack ..
  unfold closeInput
  refine hfast.trans ?_
  dsimp only
  split
  · exact ticks_openWindow _
  · exact Ticks.refl _

theorem ticks_inputLoop {st st' : Ikcpcb × MaxAck} {data : Bytes} {size : Nat} {ret : Int}
    (h : inputLoop st data size = some (ret, st')) : Ticks st.1 st'.1 := by
  fun_induction inputLoop st data size with
  | case1 => cases h; exact Ticks.refl _
  | case2 => cases h
  | case3 => cases h; exact Ticks.refl _
  | case4 => cases h
  | case5 => cases h; exact Ticks.refl _
  | case6 => cases h; exact Ticks.refl _
  | case7 => cases h
  | case8 _ _ _ _ _ _ _ _ _ _ _ _ _ _ _ ih => exact (ticks_inputSeg ..).trans (ih h)

theorem ticks_ikcpInput {data : Bytes} {size : Nat} {ret : Int}
    (h : ikcpInput kcp data size = some (ret, kcp')) : Ticks kcp kcp' := by
  unfold ikcpInput at h
  split at h
  · cases h
    exact Ticks.refl _
  · obtain ⟨⟨ret', st⟩, hloop, hout⟩ := Option.map_eq_some_iff.mp h
    have hticks := ticks_inputLoop hloop
    dsimp only at hout
    split at hout
    · cases hout
      exact hticks.trans (ticks_closeInput ..)
    · cases hout
      exact hticks

/-! ## Flushing -/

theorem ticks_probeWindow (kcp : Ikcpcb) : Ticks kcp (probeWindow kcp) := by
  unfold probeWindow
  split
  · split
    · exact ⟨rfl, rfl, .inl rfl, List.Subset.refl _⟩
    · split
      · exact ⟨rfl, rfl, .inl rfl, List.Subset.refl _⟩
      · exact Ticks.refl _
  · exact ⟨rfl, rfl, .inl rfl, List.Subset.refl _⟩

theorem ticks_updateSsthresh (kcp : Ikcpcb) (c : FlushCount) (resent cwnd : UInt32) :
    Ticks kcp (updateSsthresh kcp c resent cwnd) := by
  have hchange : Ticks kcp (if c.change then onChange kcp resent else kcp) := by
    split
    · exact ⟨rfl, rfl, .inl rfl, List.Subset.refl _⟩
    · exact Ticks.refl _
  unfold updateSsthresh
  refine hchange.trans ?_
  generalize (if c.change then onChange kcp resent else kcp) = kcp
  have hlost : Ticks kcp (if c.lost then onLost kcp cwnd else kcp) := by
    split
    · exact ⟨rfl, rfl, .inl rfl, List.Subset.refl _⟩
    · exact Ticks.refl _
  refine hlost.trans ?_
  dsimp only
  generalize (if c.lost then onLost kcp cwnd else kcp) = kcp
  split
  · exact ⟨rfl, rfl, .inl rfl, List.Subset.refl _⟩
  · exact Ticks.refl _

theorem fillWindow_xmit (kcp : Ikcpcb) (wnd cwnd nxt : UInt32) (queue : List IkcpSeg) :
    ∀ seg ∈ (fillWindow kcp wnd cwnd queue nxt).1, seg.xmit = 0 := by
  induction queue generalizing nxt with
  | nil => exact fun _ hseg => absurd hseg List.not_mem_nil
  | cons newseg queue ih =>
      rw [fillWindow]
      split
      · intro seg hseg
        rcases List.mem_cons.mp hseg with rfl | hseg
        · rfl
        · exact ih (nxt + 1) seg hseg
      · exact fun _ hseg => absurd hseg List.not_mem_nil

theorem toInt_toInt32_of_lt {w : UInt32} (h : w.toNat < 2 ^ 31) : w.toInt32.toInt = w.toNat := by
  show w.toBitVec.toInt = _
  rw [BitVec.toInt_eq_toNat_cond]
  exact if_pos (show 2 * w.toNat < 2 ^ 32 by omega)

/-- The estimate is positive as a signed number too, so its half is. -/
theorem half_estimate {rto : UInt32} (h : rto.toNat ≤ 60000) :
    (rto.toInt32 / 2).toUInt32 = rto / 2 := by
  have hhalf : (rto / 2).toNat = rto.toNat / 2 := UInt32.toNat_div ..
  have heq : rto.toInt32 / 2 = (rto / 2).toInt32 := by
    rw [← Int32.toInt_inj, toInt_toInt32_of_lt (by omega), hhalf,
      Int32.toInt_div_of_ne_right _ _ (by decide), toInt_toInt32_of_lt (by omega)]
    exact (Int.ofNat_tdiv ..).symm
  rw [heq, UInt32.toUInt32_toInt32]

theorem flushData_mem {wnd resent rtomin : UInt32} {buf : List IkcpSeg} {c : FlushCount}
    {b : FlushBuf} (h : seg ∈ (flushData kcp wnd resent rtomin buf c b).1) :
    seg ∈ buf ∨ ∃ seg' ∈ buf, needsend kcp resent seg' ≠ .no ∧
      seg = { restamp kcp rtomin seg' (needsend kcp resent seg') with
        ts := kcp.current, wnd := wnd, una := kcp.rcvNxt } := by
  induction buf generalizing c b with
  | nil => cases h
  | cons segment buf ih =>
      have hrest : ∀ c b, seg ∈ (flushData kcp wnd resent rtomin buf c b).1 →
          seg ∈ segment :: buf ∨ ∃ seg' ∈ segment :: buf, needsend kcp resent seg' ≠ .no ∧
            seg = { restamp kcp rtomin seg' (needsend kcp resent seg') with
              ts := kcp.current, wnd := wnd, una := kcp.rcvNxt } := by
        intro c b hmem
        rcases ih hmem with hmem | ⟨seg', hmem, hsent⟩
        · exact .inl (List.mem_cons_of_mem _ hmem)
        · exact .inr ⟨seg', List.mem_cons_of_mem _ hmem, hsent⟩
      rw [flushData] at h
      dsimp only at h
      split at h
      · rcases List.mem_cons.mp h with rfl | h
        · exact .inl (List.mem_cons_self ..)
        · exact hrest _ _ h
      next hsent =>
        rcases List.mem_cons.mp h with rfl | h
        · exact .inr ⟨segment, List.mem_cons_self .., hsent, rfl⟩
        · exact hrest _ _ h

theorem flushData_stays (wnd rtomin : UInt32) {resent : UInt32} {buf : List IkcpSeg}
    (c : FlushCount) (b : FlushBuf) (hseg : seg ∈ buf) (hno : needsend kcp resent seg = .no) :
    seg ∈ (flushData kcp wnd resent rtomin buf c b).1 := by
  induction buf generalizing c b with
  | nil => cases hseg
  | cons segment buf ih =>
      rw [flushData]
      dsimp only
      rcases List.mem_cons.mp hseg with rfl | hseg
      · rw [if_pos hno]
        exact List.mem_cons_self ..
      · split
        · exact List.mem_cons_of_mem _ (ih c b hseg)
        · exact List.mem_cons_of_mem _ (ih _ _ hseg)

theorem flushData_sn (wnd resent rtomin : UInt32) (buf : List IkcpSeg) (c : FlushCount)
    (b : FlushBuf) :
    (flushData kcp wnd resent rtomin buf c b).1.map IkcpSeg.sn = buf.map IkcpSeg.sn := by
  induction buf generalizing c b with
  | nil => rfl
  | cons segment buf ih =>
      rw [flushData]
      dsimp only
      split
      · rw [List.map_cons, List.map_cons, ih]
      · rw [List.map_cons, List.map_cons, ih]
        exact congrArg (· :: _) (restamp_same ..).1

/-- Nothing is put out under a number whose segment is left. -/
theorem flushData_silent (wnd rtomin sn : UInt32) {resent : UInt32} {buf : List IkcpSeg}
    (c : FlushCount) {b : FlushBuf} (hbuf : ∀ seg ∈ buf, seg.sn = sn → needsend kcp resent seg = .no)
    (hb : b.Holds fun s => s.cmd = cmdPush → s.sn ≠ sn) :
    (flushData kcp wnd resent rtomin buf c b).2.2.Holds fun s => s.cmd = cmdPush → s.sn ≠ sn := by
  induction buf generalizing c b with
  | nil => exact hb
  | cons segment buf ih =>
      have hrest := fun seg hseg => hbuf seg (List.mem_cons_of_mem _ hseg)
      rw [flushData]
      dsimp only
      split
      · exact ih c hrest hb
      next hsent =>
        refine ih _ hrest (hb.put _ fun _ heq => hsent ?_)
        exact hbuf segment (List.mem_cons_self ..) ((restamp_same ..).1.symm.trans heq)

theorem holds_flushHead (mtu : UInt32) (todo : List (UInt32 × UInt32)) (kcp' : Ikcpcb) :
    (flushProbes kcp' (flushAcks mtu (ackSeg kcp) {} todo).1
      (flushAcks mtu (ackSeg kcp) {} todo).2).Holds fun s => s.cmd ≠ cmdPush := by
  have hempty : ({} : FlushBuf).Holds
      (Emitted (fun _ _ => True) kcp.rcvNxt (wndUnused kcp) todo []) :=
    ⟨fun _ hseg => absurd hseg List.not_mem_nil, fun _ hd => absurd hd List.not_mem_nil⟩
  obtain ⟨⟨huna, hwnd⟩, hacks⟩ :=
    holds_flushAcks mtu (show (ackSeg kcp).una = _ from rfl) rfl rfl todo (List.Subset.refl _) hempty
  refine (holds_flushProbes kcp' huna hwnd hacks).mono fun s hs hpush => ?_
  obtain ⟨n, hn, -⟩ := hs.push hpush
  exact absurd hn List.not_mem_nil

/-- A sent segment is armed anew. -/
theorem Timed.resent (h : Timed kcp) (harmed : Armed seg) (hfew : seg.xmit.toNat < 70000)
    {resent : UInt32} (hsent : needsend kcp resent seg ≠ .no) (wnd : UInt32) :
    Armed { restamp kcp (rtoMargin kcp) seg (needsend kcp resent seg) with
      ts := kcp.current, wnd := wnd, una := kcp.rcvNxt } := by
  obtain ⟨rto, hrto, hge, hle⟩ := h.rto
  have hmargin : rtoMargin kcp = 0 := by
    unfold rtoMargin
    rw [if_neg (by rw [h.nodelay]; decide)]
  have hxmit : (seg.xmit + 1).toNat = seg.xmit.toNat + 1 := by
    rw [UInt32.toNat_add]
    show (seg.xmit.toNat + 1) % 2 ^ 32 = _
    omega
  have hestimate : kcp.rxRto.toUInt32 = rto := by
    rw [hrto, UInt32.toUInt32_toInt32]
  have hafter : needsend kcp resent seg ≠ .first → seg.xmit ≠ 0 := by
    intro hfirst hzero
    exact hfirst (if_pos hzero)
  right
  cases hneed : needsend kcp resent seg with
  | no => exact absurd hneed hsent
  | first =>
      refine ⟨?_, ?_, ?_, ?_⟩
      · show (seg.xmit + 1).toNat ≤ 70000
        omega
      · show kcp.current + kcp.rxRto.toUInt32 + rtoMargin kcp = kcp.current + kcp.rxRto.toUInt32
        rw [hmargin, UInt32.add_zero]
      · show 10 ≤ kcp.rxRto.toUInt32.toNat
        rw [hestimate]
        exact hge
      · show kcp.rxRto.toUInt32.toNat ≤ 30000 * ((seg.xmit + 1).toNat + 1)
        rw [hestimate]
        omega
  | lost =>
      rw [hneed] at hafter
      have hwas := harmed.resolve_left (hafter Needsend.noConfusion)
      have hstamped : restamp kcp (rtoMargin kcp) seg .lost = { seg with
          xmit := seg.xmit + 1, rto := seg.rto + rto / 2,
          resendts := kcp.current + (seg.rto + rto / 2) } := by
        unfold restamp
        dsimp only
        rw [if_neg (by rw [h.nodelay]; decide), if_neg (by rw [h.nodelay]; decide), hrto,
          half_estimate hle]
      -- The sum does not wrap: the estimate is a minute at most.
      have hsum : (seg.rto + rto / 2).toNat = seg.rto.toNat + rto.toNat / 2 := by
        rw [UInt32.toNat_add, UInt32.toNat_div]
        show (seg.rto.toNat + rto.toNat / 2) % 2 ^ 32 = _
        omega
      rw [hstamped]
      refine ⟨?_, rfl, ?_, ?_⟩
      · show (seg.xmit + 1).toNat ≤ 70000
        omega
      · show 10 ≤ (seg.rto + rto / 2).toNat
        omega
      · show (seg.rto + rto / 2).toNat ≤ 30000 * ((seg.xmit + 1).toNat + 1)
        omega
  | fast =>
      rw [hneed] at hafter
      have hwas := harmed.resolve_left (hafter Needsend.noConfusion)
      refine ⟨?_, rfl, hwas.2.2.1, ?_⟩
      · show (seg.xmit + 1).toNat ≤ 70000
        omega
      · show seg.rto.toNat ≤ 30000 * ((seg.xmit + 1).toNat + 1)
        omega

/-- A flush: `snd_buf` grows, and the loop goes over it. -/
theorem ikcpFlush_ticks (h : kcp.updated = true) : ∃ kcp₂ moved wnd c b,
    kcp₂.current = kcp.current ∧ kcp₂.sndBuf = kcp.sndBuf ++ moved ∧
    (∀ seg ∈ moved, seg.xmit = 0) ∧ Ticks kcp { kcp₂ with sndBuf := kcp.sndBuf } ∧
    (ikcpFlush kcp).1.sndBuf =
      (flushData kcp₂ wnd (resentLimit kcp₂) (rtoMargin kcp₂) kcp₂.sndBuf c b).1 ∧
    Ticks { kcp₂ with
      sndBuf := (flushData kcp₂ wnd (resentLimit kcp₂) (rtoMargin kcp₂) kcp₂.sndBuf c b).1 }
      (ikcpFlush kcp).1 ∧
    (b.Holds fun s => s.cmd ≠ cmdPush) ∧ (ikcpFlush kcp).2 =
      (flushData kcp₂ wnd (resentLimit kcp₂) (rtoMargin kcp₂) kcp₂.sndBuf c b).2.2.output.out := by
  have hcurrent := current_probeWindow { kcp with acklist := [] }
  have hbuf : (probeWindow { kcp with acklist := [] }).sndBuf = kcp.sndBuf :=
    congrArg (fun f => f.send.buf) (flow_probeWindow { kcp with acklist := [] })
  have hprobe : Ticks kcp (probeWindow { kcp with acklist := [] }) :=
    (show Ticks kcp { kcp with acklist := [] } from
      ⟨rfl, rfl, .inl rfl, List.Subset.refl _⟩).trans (ticks_probeWindow _)
  have hhead := @holds_flushHead kcp kcp.mtu kcp.acklist (probeWindow { kcp with acklist := [] })
  unfold ikcpFlush
  rw [if_neg (by rw [h]; exact Bool.noConfusion)]
  dsimp only
  generalize flushAcks kcp.mtu (ackSeg kcp) {} kcp.acklist = first at *
  obtain ⟨seg, b⟩ := first
  dsimp only at *
  generalize probeWindow { kcp with acklist := [] } = kcp₁ at *
  have hmoved := fillWindow_xmit { kcp₁ with probe := 0 } (wndUnused kcp) (sendWindow kcp₁)
    kcp₁.sndNxt kcp₁.sndQueue
  have hgrown : (Kcp.fillSndBuf { kcp₁ with probe := 0 } (wndUnused kcp) (sendWindow kcp₁)).sndBuf =
      kcp.sndBuf ++ (fillWindow { kcp₁ with probe := 0 } (wndUnused kcp) (sendWindow kcp₁)
        kcp₁.sndQueue kcp₁.sndNxt).1 := congrArg (· ++ _) hbuf
  have hfilled : Ticks kcp { Kcp.fillSndBuf { kcp₁ with probe := 0 } (wndUnused kcp)
      (sendWindow kcp₁) with sndBuf := kcp.sndBuf } :=
    ⟨hprobe.nodelay, hprobe.minrto, hprobe.rto, List.Subset.refl _⟩
  have hcurrent₂ : (Kcp.fillSndBuf { kcp₁ with probe := 0 } (wndUnused kcp)
      (sendWindow kcp₁)).current = kcp.current := hcurrent
  generalize Kcp.fillSndBuf { kcp₁ with probe := 0 } (wndUnused kcp) (sendWindow kcp₁) = kcp₂ at *
  generalize (fillWindow { kcp₁ with probe := 0 } (wndUnused kcp) (sendWindow kcp₁)
    kcp₁.sndQueue kcp₁.sndNxt).1 = moved at *
  refine ⟨kcp₂, moved, wndUnused kcp, { xmit := kcp₂.xmit, state := kcp₂.state },
    flushProbes kcp₁ seg b, hcurrent₂, hgrown, hmoved, hfilled,
    congrArg (fun f => f.send.buf) (flow_updateSsthresh ..), ?_, hhead, rfl⟩
  refine Ticks.trans ?_ (ticks_updateSsthresh ..)
  exact ⟨rfl, rfl, .inl rfl, List.Subset.refl _⟩

theorem Timed.flush (h : Timed kcp) (hfew : ∀ seg ∈ kcp.sndBuf, seg.xmit.toNat < 70000) :
    Timed (ikcpFlush kcp).1 := by
  by_cases hidle : kcp.updated = true
  · obtain ⟨kcp₂, moved, wnd, c, b, -, hbuf, hmoved, hbefore, -, hafter, -⟩ :=
      ikcpFlush_ticks hidle
    have hbefore := h.ticks hbefore
    refine Timed.ticks ?_ hafter
    refine ⟨hbefore.nodelay, hbefore.minrto, hbefore.rto, fun seg hseg => ?_⟩
    have hwas : ∀ seg ∈ kcp₂.sndBuf, Armed seg ∧ seg.xmit.toNat < 70000 := by
      rw [hbuf]
      intro seg hseg
      rcases List.mem_append.mp hseg with hseg | hseg
      · exact ⟨h.armed seg hseg, hfew seg hseg⟩
      · have hzero := hmoved seg hseg
        refine ⟨.inl hzero, ?_⟩
        rw [hzero]
        decide
    have hfilled : Timed kcp₂ :=
      ⟨hbefore.nodelay, hbefore.minrto, hbefore.rto, fun seg hseg => (hwas seg hseg).1⟩
    rcases flushData_mem hseg with hseg | ⟨seg', hseg', hsent, rfl⟩
    · exact (hwas seg hseg).1
    · exact hfilled.resent (hwas seg' hseg').1 (hwas seg' hseg').2 hsent wnd
  · unfold ikcpFlush
    rw [if_pos (by simpa using hidle)]
    exact h

theorem ticks_ikcpRecv (kcp : Ikcpcb) (len : Nat) : Ticks kcp (ikcpRecv kcp len).2.2 := by
  unfold ikcpRecv
  split
  · exact Ticks.refl _
  · dsimp only
    split
    · exact Ticks.refl _
    · split
      · exact Ticks.refl _
      · dsimp only
        split <;> exact ⟨rfl, rfl, .inl rfl, List.Subset.refl _⟩

theorem ticks_ikcpSend (h : Context kcp) (buffer : Bytes) : Ticks kcp (ikcpSend kcp buffer).2 := by
  rcases h.ikcpSend buffer with ⟨-, hsame⟩ | ⟨msg, -, -, -, hqueued⟩
  · rw [hsame]
    exact Ticks.refl _
  · rw [hqueued]
    exact ⟨rfl, rfl, .inl rfl, List.Subset.refl _⟩

theorem Timed.step {a : KcpAction} (h : Timed kcp) (hc : Context kcp) (hfew : FewSends kcp a)
    (hs : kcpStep kcp a = some kcp') : Timed kcp' := by
  cases a with
  | send buffer =>
      cases hs
      exact h.ticks (ticks_ikcpSend hc buffer)
  | input data size =>
      obtain ⟨⟨ret, st⟩, hin, rfl⟩ := Option.map_eq_some_iff.mp hs
      exact h.ticks (ticks_ikcpInput hin)
  | update current =>
      cases hs
      obtain ⟨tsFlush, hflush | hidle⟩ := ikcpUpdate_clock kcp current
      · rw [hflush]
        refine Timed.flush (h.ticks ?_) hfew
        exact ⟨rfl, rfl, .inl rfl, List.Subset.refl _⟩
      · rw [hidle]
        exact h.ticks ⟨rfl, rfl, .inl rfl, List.Subset.refl _⟩
  | flush =>
      cases hs
      exact h.flush hfew
  | recv len =>
      cases hs
      exact h.ticks (ticks_ikcpRecv ..)

theorem Timed.new (conv : UInt32) : Timed (newContext conv) :=
  ⟨rfl, rfl, ⟨200, rfl, by decide, by decide⟩, fun _ hseg => absurd hseg List.not_mem_nil⟩

theorem Timed.of_run (h : kcpMachine.Run FewSends kcp) : Timed kcp := by
  have hboth : Context kcp ∧ Timed kcp := by
    refine h.invariant (P := fun kcp => Context kcp ∧ Timed kcp) ?_ ?_
    · rintro _ ⟨conv, rfl⟩
      exact ⟨Context.new conv, Timed.new conv⟩
    · intro kcp a kcp' hi hfew hs
      exact ⟨hi.1.step hs, hi.2.step hi.1 hfew hs⟩
  exact hboth.2

/-! ## The time of the next sending -/

/-- What is left of the timer, when the clock is not half its range ahead. -/
theorem itimediff_since {current ts rto : UInt32} (hsince : (current - ts).toNat < 2 ^ 31)
    (hrto : rto.toNat < 2 ^ 31) :
    (itimediff current (ts + rto)).toInt = (current - ts).toNat - rto.toNat := by
  have hnow : UInt32.ofNat (ts.toNat + (current - ts).toNat) = current := by
    rw [UInt32.ofNat_add, UInt32.ofNat_toNat, UInt32.ofNat_toNat, UInt32.add_comm,
      UInt32.sub_add_cancel]
  have hend : UInt32.ofNat (ts.toNat + rto.toNat) = ts + rto := by
    rw [UInt32.ofNat_add, UInt32.ofNat_toNat, UInt32.ofNat_toNat]
  have hnear : Near 32 (ts.toNat + (current - ts).toNat) (ts.toNat + rto.toNat) :=
    ⟨by omega, by omega⟩
  have hdiff := itimediff_toInt hnear
  rw [hnow, hend] at hdiff
  rw [hdiff]
  omega

theorem Armed.due {current : UInt32} (h : Armed seg)
    (hlate : seg.xmit = 0 ∨ 30000 * (seg.xmit.toNat + 1) ≤ (current - seg.ts).toNat ∧
      (current - seg.ts).toNat < 2 ^ 31) : Due current seg := by
  rcases h with hnew | ⟨hfew, hresendts, hge, hle⟩
  · exact .inl hnew
  · rcases hlate with hnew | ⟨hlate, hhalf⟩
    · exact .inl hnew
    · right
      rw [hresendts, Int32.le_iff_toInt_le, itimediff_since hhalf (by omega)]
      show (0 : Int) ≤ _
      omega

theorem resentLimit_ne_zero (kcp : Ikcpcb) : resentLimit kcp ≠ 0 := by
  unfold resentLimit
  split
  next hpos =>
    intro hzero
    have hlimit : kcp.fastresend = 0 := by
      rw [← Int32.toInt32_toUInt32 kcp.fastresend, hzero]
      rfl
    rw [hlimit] at hpos
    exact absurd hpos (by decide)
  · decide

theorem Armed.waits {resent : UInt32} (h : Armed seg) (hxmit : seg.xmit ≠ 0)
    (hfast : seg.fastack = 0) (hearly : (kcp.current - seg.ts).toNat < 10) (hresent : resent ≠ 0) :
    needsend kcp resent seg = .no := by
  obtain ⟨hfew, hresendts, hge, hle⟩ := h.resolve_left hxmit
  have hleft : itimediff kcp.current seg.resendts < 0 := by
    rw [hresendts, Int32.lt_iff_toInt_lt, itimediff_since (by omega) (by omega)]
    show _ < (0 : Int)
    omega
  have hnone : ¬ resent ≤ seg.fastack := by
    rw [hfast]
    intro hle
    exact hresent (UInt32.le_antisymm hle UInt32.zero_le)
  unfold needsend
  rw [if_neg hxmit, if_neg (Int32.not_le.mpr hleft), if_neg hnone]

/-- No two segments of `snd_buf` have one number after a flush at whatever time. -/
theorem nodup_sn (h : kcpMachine.Reachable kcp) (current : UInt32) :
    ((ikcpFlush { kcp with current := current }).1.sndBuf.map IkcpSeg.sn).Nodup := by
  have hwindowed := Windowed.of_reachable h
  have hflushed : Windowed (ikcpFlush { kcp with current := current }).1 :=
    Windowed.flush ⟨hwindowed.context.keeps ⟨rfl, rfl, rfl, rfl, rfl, rfl, List.Subset.refl _⟩,
      hwindowed.send, hwindowed.recv⟩
  generalize (ikcpFlush { kcp with current := current }).1 = kcp' at *
  have hahead : (kcp'.sndBuf.map (IkcpSeg.ahead kcp'.sndUna)).Nodup :=
    hflushed.bounded.sndBuf_sorted.imp Nat.ne_of_lt
  refine List.Nodup.of_map (fun sn => (sn - kcp'.sndUna).toNat) ?_
  rw [List.map_map]
  exact hahead

/-- A segment that waits for its ack is sent again by the next flush once half a minute has passed
for each time that it was sent and another one, and by no flush in the first 10 milliseconds unless
acks came for later segments. -/
theorem resent_in_time (h : kcpMachine.Run FewSends kcp) (hupdated : kcp.updated = true)
    (hseg : seg ∈ kcp.sndBuf) (current : UInt32) :
    ((seg.xmit = 0 ∨ 30000 * (seg.xmit.toNat + 1) ≤ (current - seg.ts).toNat ∧
        (current - seg.ts).toNat < 2 ^ 31) →
      ∃ d ∈ (ikcpFlush { kcp with current := current }).2, ∃ s ∈ d,
        s.cmd = cmdPush ∧ s.sn = seg.sn) ∧
    (seg.xmit ≠ 0 → seg.fastack = 0 → (current - seg.ts).toNat < 10 →
      seg ∈ (ikcpFlush { kcp with current := current }).1.sndBuf ∧
      ∀ d ∈ (ikcpFlush { kcp with current := current }).2, ∀ s ∈ d,
        s.cmd = cmdPush → s.sn ≠ seg.sn) := by
  have harmed := (Timed.of_run h).armed seg hseg
  constructor
  · intro hlate
    exact flush_due hupdated hseg (harmed.due hlate)
      ((Context.of_reachable h.reachable).buffered seg hseg).2.1
  · intro hxmit hfast hearly
    have hnodup := nodup_sn h.reachable current
    obtain ⟨kcp₂, moved, wnd, c, b, hcurrent, hbuf, -, -, hdata, -, hhead, hout⟩ :=
      ikcpFlush_ticks (show ({ kcp with current := current } : Ikcpcb).updated = true from hupdated)
    have hmem : seg ∈ kcp₂.sndBuf := hbuf ▸ List.mem_append_left _ hseg
    have hno : needsend kcp₂ (resentLimit kcp₂) seg = .no := by
      refine harmed.waits hxmit hfast ?_ (resentLimit_ne_zero kcp₂)
      rw [hcurrent]
      exact hearly
    rw [hdata, flushData_sn] at hnodup
    have hsilent := flushData_silent wnd (rtoMargin kcp₂) seg.sn c
      (fun seg' hseg' heq => by rwa [List.inj_on_of_nodup_map hnodup hseg' hmem heq])
      (hhead.mono fun s hs he => absurd he hs)
    rw [hout, hdata]
    exact ⟨flushData_stays wnd (rtoMargin kcp₂) c b hmem hno, hsilent.output.out⟩

end

/-- A byte that was sent at 1000, and one that waits behind it. -/
theorem resent_in_time_two : ∃ kcp seg, kcpMachine.Run FewSends kcp ∧ kcp.sndBuf = [seg] ∧
    seg.sn = 0 ∧ seg.xmit = 1 ∧
    (∃ d ∈ (ikcpFlush { kcp with current := 61000 }).2, ∃ s ∈ d,
      s.cmd = cmdPush ∧ s.sn = seg.sn) ∧
    seg ∈ (ikcpFlush { kcp with current := 1009 }).1.sndBuf ∧
    (ikcpFlush { kcp with current := 1009 }).2.map (List.map IkcpSeg.sn) = [[1]] ∧
    ∀ d ∈ (ikcpFlush { kcp with current := 1009 }).2, ∀ s ∈ d, s.cmd = cmdPush → s.sn ≠ seg.sn := by
  have hrun : ((kcpMachine.guarded FewSends).exec (newContext 5)
      [.update 1000, .send [7], .flush, .send [8]]).map (fun kcp => (kcp.updated,
        kcp.sndBuf.map fun seg => [seg.sn, seg.xmit, seg.ts, seg.fastack],
        (ikcpFlush { kcp with current := 1009 }).2.map (List.map IkcpSeg.sn))) =
      some (true, [[0, 1, 1000, 0]], [[1]]) := by
    decide +kernel
  obtain ⟨kcp, hs, hview⟩ := Option.map_eq_some_iff.mp hrun
  have hreach : kcpMachine.Run FewSends kcp := Machine.run_of_exec hs ⟨5, rfl⟩
  simp only [Prod.mk.injEq] at hview
  obtain ⟨hupdated, htimers, houtput⟩ := hview
  obtain ⟨seg, hbuf, htimer⟩ := List.map_eq_singleton_iff.mp htimers
  simp only [List.cons.injEq, and_true] at htimer
  obtain ⟨hsn, hxmit, hts, hfast⟩ := htimer
  have hseg : seg ∈ kcp.sndBuf := by
    rw [hbuf]
    exact List.mem_cons_self ..
  have hleft := (resent_in_time hreach hupdated hseg 1009).2 (by rw [hxmit]; decide) hfast
    (by rw [hts]; decide)
  refine ⟨kcp, seg, hreach, hbuf, hsn, hxmit, ?_, hleft.1, houtput, hleft.2⟩
  refine (resent_in_time hreach hupdated hseg 61000).1 (.inr ?_)
  rw [hxmit, hts]
  decide

end Hprd.Net.Kcp

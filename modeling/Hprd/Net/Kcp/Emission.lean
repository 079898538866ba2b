import Hprd.Net.Kcp.WindowSteps

/-!
# What a flush is sure to output

Acks that wait, a probe that is asked for and a segment whose time has come all get
into a datagram, and there is always a time at which `ikcp_update` flushes.
-/

namespace Hprd.Net.Kcp

open Hprd.Core

/-- Some segment in the buffer or in a datagram is as `P` says. -/
def FlushBuf.Has (P : IkcpSeg → Prop) (b : FlushBuf) : Prop :=
  (∃ seg ∈ b.cur, P seg) ∨ ∃ d ∈ b.out, ∃ seg ∈ d, P seg

section

variable {P : IkcpSeg → Prop} {b : FlushBuf} {kcp : Ikcpcb} {seg : IkcpSeg}

theorem encodeSegs_length_eq_zero {segs : List IkcpSeg} (h : (encodeSegs segs).length = 0) :
    segs = [] := by
  rw [encodeSegs_length] at h
  exact List.eq_nil_of_length_eq_zero (by omega)

theorem FlushBuf.Has.output (h : b.Has P) : ∃ d ∈ b.output.out, ∃ seg ∈ d, P seg := by
  unfold FlushBuf.output
  rcases h with ⟨seg, hseg, hP⟩ | ⟨d, hd, hP⟩
  · rw [if_neg fun hzero => List.ne_nil_of_mem hseg (encodeSegs_length_eq_zero hzero)]
    exact ⟨b.cur, List.mem_append_right _ (List.mem_cons_self ..), seg, hseg, hP⟩
  · split
    · exact ⟨d, hd, hP⟩
    · exact ⟨d, List.mem_append_left _ hd, hP⟩

theorem FlushBuf.Has.put (h : b.Has P) (mtu : UInt32) (seg : IkcpSeg) : (b.put mtu seg).Has P := by
  unfold FlushBuf.put
  dsimp only
  split
  · exact .inr h.output
  · rcases h with ⟨seg', hseg, hP⟩ | h
    · exact .inl ⟨seg', List.mem_append_left _ hseg, hP⟩
    · exact .inr h

theorem FlushBuf.put_has (mtu : UInt32) (hP : P seg) : (b.put mtu seg).Has P :=
  .inl ⟨seg, List.mem_append_right _ (List.mem_cons_self ..), hP⟩

theorem FlushBuf.Has.acks (h : b.Has P) (mtu : UInt32) (seg : IkcpSeg)
    (todo : List (UInt32 × UInt32)) : (flushAcks mtu seg b todo).2.Has P := by
  induction todo generalizing seg b with
  | nil => exact h
  | cons ack todo ih => exact ih (h.put ..) _

theorem flushAcks_has (mtu : UInt32) (seg : IkcpSeg) {todo : List (UInt32 × UInt32)}
    (hne : todo ≠ []) : (flushAcks mtu seg b todo).2.Has fun _ => True := by
  cases todo with
  | nil => exact absurd rfl hne
  | cons ack todo => exact (FlushBuf.put_has mtu trivial).acks ..

theorem FlushBuf.Has.probes (h : b.Has P) (kcp : Ikcpcb) (seg : IkcpSeg) :
    (flushProbes kcp seg b).Has P := by
  have hask : (if kcp.probe &&& askSend ≠ 0 then b.put kcp.mtu { seg with cmd := cmdWask }
      else b).Has P := by
    split
    · exact h.put ..
    · exact h
  unfold flushProbes
  dsimp only
  split
  · exact hask.put ..
  · exact hask

theorem flushProbes_wask (seg : IkcpSeg) (h : kcp.probe &&& askSend ≠ 0) :
    (flushProbes kcp seg b).Has fun seg => seg.cmd = cmdWask := by
  unfold flushProbes
  dsimp only
  rw [if_pos h]
  have hput : (b.put kcp.mtu { seg with cmd := cmdWask }).Has fun seg => seg.cmd = cmdWask :=
    FlushBuf.put_has _ rfl
  split
  · exact hput.put ..
  · exact hput

theorem flushProbes_wins (seg : IkcpSeg) (h : kcp.probe &&& askTell ≠ 0) :
    (flushProbes kcp seg b).Has fun seg => seg.cmd = cmdWins := by
  unfold flushProbes
  dsimp only
  rw [if_pos h]
  exact FlushBuf.put_has _ rfl

theorem FlushBuf.Has.data (h : b.Has P) (kcp : Ikcpcb) (wnd resent rtomin : UInt32)
    (buf : List IkcpSeg) (c : FlushCount) : (flushData kcp wnd resent rtomin buf c b).2.2.Has P := by
  induction buf generalizing c b with
  | nil => exact h
  | cons segment buf ih =>
      rw [flushData]
      dsimp only
      split
      · exact ih h c
      · exact ih (h.put ..) _

def Due (current : UInt32) (seg : IkcpSeg) : Prop :=
  seg.xmit = 0 ∨ 0 ≤ itimediff current seg.resendts

theorem needsend_of_due (h : Due kcp.current seg) (resent : UInt32) :
    needsend kcp resent seg ≠ .no := by
  unfold needsend
  split
  · exact Needsend.noConfusion
  next hxmit =>
      rw [if_pos (h.resolve_left hxmit)]
      exact Needsend.noConfusion

theorem flushData_has (wnd resent rtomin : UInt32) {buf : List IkcpSeg} (c : FlushCount)
    (hseg : seg ∈ buf) (hdue : Due kcp.current seg) (hcmd : seg.cmd = cmdPush) :
    (flushData kcp wnd resent rtomin buf c b).2.2.Has fun s =>
      s.cmd = cmdPush ∧ s.sn = seg.sn := by
  induction buf generalizing c b with
  | nil => cases hseg
  | cons segment buf ih =>
      rw [flushData]
      dsimp only
      rcases List.mem_cons.mp hseg with rfl | hseg
      · rw [if_neg (needsend_of_due hdue resent)]
        obtain ⟨hsn, -, hkind⟩ := restamp_same kcp rtomin seg (needsend kcp resent seg)
        exact (FlushBuf.put_has _ ⟨hkind.trans hcmd, hsn⟩).data ..
      · split
        · exact ih c hseg
        · exact ih _ hseg

theorem current_probeWindow (kcp : Ikcpcb) : (probeWindow kcp).current = kcp.current := by
  unfold probeWindow
  split
  · split
    · rfl
    · split <;> rfl
  · rfl

theorem ikcpFlush_out (h : kcp.updated = true) : ∃ kcp₂ moved c,
    kcp₂.current = kcp.current ∧ (ikcpFlush kcp).2 =
      (flushData kcp₂ (wndUnused kcp) (resentLimit kcp₂) (rtoMargin kcp₂) (kcp.sndBuf ++ moved) c
        (flushProbes (probeWindow { kcp with acklist := [] })
          (flushAcks kcp.mtu (ackSeg kcp) {} kcp.acklist).1
          (flushAcks kcp.mtu (ackSeg kcp) {} kcp.acklist).2)).2.2.output.out := by
  have hcurrent := current_probeWindow { kcp with acklist := [] }
  have hbuf : (probeWindow { kcp with acklist := [] }).sndBuf = kcp.sndBuf :=
    congrArg (fun f => f.send.buf) (flow_probeWindow { kcp with acklist := [] })
  unfold ikcpFlush
  rw [if_neg (by rw [h]; exact Bool.noConfusion)]
  dsimp only
  generalize probeWindow { kcp with acklist := [] } = kcp₁ at *
  rw [← hbuf]
  exact ⟨Kcp.fillSndBuf { kcp₁ with probe := 0 } (wndUnused kcp) (sendWindow kcp₁), _, _, hcurrent,
    rfl⟩

theorem flush_acks (h : kcp.updated = true) (hacks : kcp.acklist ≠ []) :
    ∃ d ∈ (ikcpFlush kcp).2, ∃ seg ∈ d, True := by
  obtain ⟨kcp₂, moved, c, -, hout⟩ := ikcpFlush_out h
  rw [hout]
  exact (((flushAcks_has _ _ hacks).probes ..).data ..).output

theorem flush_wask (h : kcp.updated = true)
    (hprobe : (probeWindow { kcp with acklist := [] }).probe &&& askSend ≠ 0) :
    ∃ d ∈ (ikcpFlush kcp).2, ∃ seg ∈ d, seg.cmd = cmdWask := by
  obtain ⟨kcp₂, moved, c, -, hout⟩ := ikcpFlush_out h
  rw [hout]
  exact ((flushProbes_wask _ hprobe).data ..).output

theorem flush_wins (h : kcp.updated = true)
    (hprobe : (probeWindow { kcp with acklist := [] }).probe &&& askTell ≠ 0) :
    ∃ d ∈ (ikcpFlush kcp).2, ∃ seg ∈ d, seg.cmd = cmdWins := by
  obtain ⟨kcp₂, moved, c, -, hout⟩ := ikcpFlush_out h
  rw [hout]
  exact ((flushProbes_wins _ hprobe).data ..).output

theorem flush_due (h : kcp.updated = true) (hseg : seg ∈ kcp.sndBuf) (hdue : Due kcp.current seg)
    (hcmd : seg.cmd = cmdPush) :
    ∃ d ∈ (ikcpFlush kcp).2, ∃ s ∈ d, s.cmd = cmdPush ∧ s.sn = seg.sn := by
  obtain ⟨kcp₂, moved, c, hcurrent, hout⟩ := ikcpFlush_out h
  rw [hout]
  rw [← hcurrent] at hdue
  exact (flushData_has _ _ _ c (List.mem_append_left _ hseg) hdue hcmd).output

/-! ## The probe timer -/

theorem probeTimer_updateSsthresh (kcp : Ikcpcb) (c : FlushCount) (resent cwnd : UInt32) :
    (updateSsthresh kcp c resent cwnd).rmtWnd = kcp.rmtWnd ∧
      (updateSsthresh kcp c resent cwnd).probeWait = kcp.probeWait := by
  have hchange : ∀ kcp : Ikcpcb, (if c.change then onChange kcp resent else kcp).rmtWnd = kcp.rmtWnd ∧
      (if c.change then onChange kcp resent else kcp).probeWait = kcp.probeWait := by
    intro kcp
    split <;> exact ⟨rfl, rfl⟩
  have hlost : ∀ kcp : Ikcpcb, (if c.lost then onLost kcp cwnd else kcp).rmtWnd = kcp.rmtWnd ∧
      (if c.lost then onLost kcp cwnd else kcp).probeWait = kcp.probeWait := by
    intro kcp
    split <;> exact ⟨rfl, rfl⟩
  have hlast : ∀ kcp : Ikcpcb,
      (if kcp.cwnd < 1 then { kcp with cwnd := 1, incr := kcp.mss } else kcp).rmtWnd = kcp.rmtWnd ∧
      (if kcp.cwnd < 1 then { kcp with cwnd := 1, incr := kcp.mss } else kcp).probeWait =
        kcp.probeWait := by
    intro kcp
    split <;> exact ⟨rfl, rfl⟩
  exact ⟨(hlast _).1.trans ((hlost _).1.trans (hchange _).1),
    (hlast _).2.trans ((hlost _).2.trans (hchange _).2)⟩

/-- A flush goes by the window of the peer, and only its probe timer moves. -/
theorem probeTimer_ikcpFlush (h : kcp.updated = true) :
    (ikcpFlush kcp).1.rmtWnd = kcp.rmtWnd ∧
      (ikcpFlush kcp).1.probeWait = (probeWindow { kcp with acklist := [] }).probeWait := by
  have hrmt := rmtWnd_probeWindow { kcp with acklist := [] }
  unfold ikcpFlush
  rw [if_neg (by rw [h]; exact Bool.noConfusion)]
  dsimp only
  generalize probeWindow { kcp with acklist := [] } = kcp₁ at *
  obtain ⟨hlast, hlast'⟩ := probeTimer_updateSsthresh _ _ _ _
  exact ⟨hlast.trans hrmt, hlast'⟩

theorem probeWindow_starts (hrmt : kcp.rmtWnd = 0) (hwait : kcp.probeWait = 0) :
    (probeWindow kcp).probeWait ≠ 0 := by
  unfold probeWindow
  rw [if_pos hrmt, if_pos hwait]
  show probeInit ≠ 0
  decide

theorem probeWindow_asks (hrmt : kcp.rmtWnd = 0) (hwait : kcp.probeWait ≠ 0)
    (hdue : 0 ≤ itimediff kcp.current kcp.tsProbe) :
    (probeWindow kcp).probe = kcp.probe ||| askSend := by
  unfold probeWindow
  rw [if_pos hrmt, if_neg hwait, if_pos hdue]

theorem probeWindow_keeps (kcp : Ikcpcb) :
    (probeWindow kcp).probe = kcp.probe ∨ (probeWindow kcp).probe = kcp.probe ||| askSend := by
  unfold probeWindow
  split
  · split
    · exact .inl rfl
    · split
      · exact .inr rfl
      · exact .inl rfl
  · exact .inl rfl

/-! ## The time of the next flush -/

theorem itimediff_self (t : UInt32) : itimediff t t = 0 := by
  rw [itimediff, UInt32.sub_self]
  rfl

theorem itimediff_add (t u d : UInt32) : itimediff (t + d) u = itimediff t u + d.toInt32 := by
  have hsub : t + d - u = t - u + d := by
    rw [UInt32.sub_eq_add_neg, UInt32.sub_eq_add_neg, UInt32.add_assoc, UInt32.add_assoc,
      UInt32.add_comm d]
  rw [itimediff, hsub, UInt32.toInt32_add]
  rfl

/-- Twenty seconds later than up to ten seconds before is more than ten seconds after. -/
theorem later_flushes {d : Int32} (hneg : d < 0) (hnear : -10000 ≤ d) : 10000 ≤ d + 20000 := by
  rw [Int32.lt_iff_toInt_lt] at hneg
  rw [Int32.le_iff_toInt_le] at hnear ⊢
  have hneg' : d.toInt < 0 := hneg
  have hnear' : -10000 ≤ d.toInt := hnear
  rw [Int32.toInt_add, Int.bmod_eq_of_le_mul_two]
  · show (10000 : Int) ≤ d.toInt + 20000
    omega
  · show -((2 ^ 32 : Nat) : Int) ≤ (d.toInt + 20000) * 2
    omega
  · show (d.toInt + 20000) * 2 < ((2 ^ 32 : Nat) : Int)
    omega

theorem exists_flush (kcp : Ikcpcb) (t : UInt32) : ∃ current tsFlush,
    0 ≤ itimediff current t ∧ ikcpUpdate kcp current =
      ikcpFlush { kcp with current := current, updated := true, tsFlush := tsFlush } := by
  have hnow : 0 ≤ itimediff t t := by
    rw [itimediff_self]
    decide
  by_cases hidle : kcp.updated = false
  · have hfirst : ∃ tsFlush, ikcpUpdate kcp t = ikcpFlush { kcp with
        current := t, updated := true, tsFlush := tsFlush } := by
      unfold ikcpUpdate
      dsimp only
      rw [if_pos hidle]
      dsimp only
      rw [itimediff_self, if_pos (by decide)]
      exact ⟨_, rfl⟩
    obtain ⟨tsFlush, heq⟩ := hfirst
    exact ⟨t, tsFlush, hnow, heq⟩
  · have hupdated : kcp.updated = true := by simpa using hidle
    have hflush : ∀ current : UInt32, (10000 ≤ itimediff current kcp.tsFlush ∨
        itimediff current kcp.tsFlush < -10000 ∨ 0 ≤ itimediff current kcp.tsFlush) →
        ∃ tsFlush, ikcpUpdate kcp current = ikcpFlush { kcp with
          current := current, updated := true, tsFlush := tsFlush } := by
      intro current hcond
      unfold ikcpUpdate
      dsimp only
      rw [if_neg hidle, if_pos hcond, ← hupdated]
      split <;> exact ⟨_, rfl⟩
    by_cases hearly : itimediff t kcp.tsFlush < 0 ∧ -10000 ≤ itimediff t kcp.tsFlush
    · have hlate : 10000 ≤ itimediff (t + 20000) kcp.tsFlush := by
        rw [itimediff_add]
        exact later_flushes hearly.1 hearly.2
      obtain ⟨tsFlush, heq⟩ := hflush (t + 20000) (.inl hlate)
      refine ⟨t + 20000, tsFlush, ?_, heq⟩
      rw [itimediff_add, itimediff_self]
      decide
    · have hcond : itimediff t kcp.tsFlush < -10000 ∨ 0 ≤ itimediff t kcp.tsFlush := by
        rcases not_and_or.mp hearly with h | h
        · exact .inr (Int32.not_lt.mp h)
        · exact .inl (Int32.not_le.mp h)
      obtain ⟨tsFlush, heq⟩ := hflush t (.inr hcond)
      exact ⟨t, tsFlush, hnow, heq⟩

/-! ## The size of a datagram -/

/-- The mtu test counts 24 bytes for a header of 26. -/
structure FlushBuf.Short (b : FlushBuf) : Prop where
  cur : (encodeSegs b.cur).length ≤ 1402
  out : ∀ d ∈ b.out, (encodeSegs d).length ≤ 1402

theorem FlushBuf.Short.output (h : b.Short) : b.output.Short := by
  unfold FlushBuf.output
  split
  · exact ⟨Nat.zero_le _, h.out⟩
  · refine ⟨Nat.zero_le _, fun d hd => ?_⟩
    rcases List.mem_append.mp hd with hd | hd
    · exact h.out d hd
    · rw [List.mem_singleton.mp hd]
      exact h.cur

theorem FlushBuf.Short.put (h : b.Short) (hseg : seg.data.length ≤ 1376) :
    (b.put 1400 seg).Short := by
  have hone : ∀ segs, (encodeSegs (segs ++ [seg])).length =
      (encodeSegs segs).length + (26 + seg.data.length) := by
    intro segs
    rw [encodeSegs_length, encodeSegs_length, List.map_append, List.sum_append, List.length_append,
      List.map_singleton, List.sum_singleton, List.length_singleton]
    omega
  have hmtu : (1400 : UInt32).toNat = 1400 := rfl
  unfold FlushBuf.put
  dsimp only
  split
  · refine ⟨?_, h.output.out⟩
    have hnil : b.output.cur = [] := by
      unfold FlushBuf.output
      split <;> rfl
    rw [hone, hnil]
    show 0 + (26 + seg.data.length) ≤ 1402
    omega
  next hroom =>
    refine ⟨?_, h.out⟩
    rw [hone]
    unfold overhead at hroom
    omega

theorem flushAcks_puts (mtu : UInt32) (seg : IkcpSeg) (b : FlushBuf)
    (todo : List (UInt32 × UInt32)) : ∃ segs : List IkcpSeg, (flushAcks mtu seg b todo).2 =
      segs.foldl (FlushBuf.put mtu) b ∧ (flushAcks mtu seg b todo).1.data = seg.data ∧
      ∀ s ∈ segs, s.data = seg.data := by
  induction todo generalizing seg b with
  | nil => exact ⟨[], rfl, rfl, fun _ hs => absurd hs List.not_mem_nil⟩
  | cons ack todo ih =>
      obtain ⟨segs, heq, hdata, hall⟩ := ih { seg with sn := ack.1, ts := ack.2 }
        (b.put mtu { seg with sn := ack.1, ts := ack.2 })
      refine ⟨{ seg with sn := ack.1, ts := ack.2 } :: segs, heq, hdata, fun s hs => ?_⟩
      rcases List.mem_cons.mp hs with rfl | hs
      · rfl
      · exact hall s hs

theorem flushProbes_puts (kcp : Ikcpcb) (seg : IkcpSeg) (b : FlushBuf) : ∃ segs : List IkcpSeg,
    flushProbes kcp seg b = segs.foldl (FlushBuf.put kcp.mtu) b ∧ ∀ s ∈ segs, s.data = seg.data := by
  have hdata : ∀ cmd, ∀ s ∈ [({ seg with cmd := cmd } : IkcpSeg)], s.data = seg.data :=
    fun cmd s hs => by rw [List.mem_singleton.mp hs]
  unfold flushProbes
  dsimp only
  split
  · split
    · refine ⟨[{ seg with cmd := cmdWask }, { seg with cmd := cmdWins }], rfl, fun s hs => ?_⟩
      rcases List.mem_pair.mp hs with rfl | rfl <;> rfl
    · exact ⟨[{ seg with cmd := cmdWins }], rfl, hdata _⟩
  · split
    · exact ⟨[{ seg with cmd := cmdWask }], rfl, hdata _⟩
    · exact ⟨[], rfl, fun _ hs => absurd hs List.not_mem_nil⟩

theorem flushData_puts (kcp : Ikcpcb) (wnd resent rtomin : UInt32) (buf : List IkcpSeg)
    (c : FlushCount) (b : FlushBuf) : ∃ segs : List IkcpSeg,
      (flushData kcp wnd resent rtomin buf c b).2.2 = segs.foldl (FlushBuf.put kcp.mtu) b ∧ ∀ s ∈ segs, ∃ seg ∈ buf, s.data = seg.data := by
  induction buf generalizing c b with
  | nil => exact ⟨[], rfl, fun _ hs => absurd hs List.not_mem_nil⟩
  | cons segment buf ih =>
      rw [flushData]
      dsimp only
      split
      · obtain ⟨segs, heq, hall⟩ := ih c b
        exact ⟨segs, heq, fun s hs =>
          (hall s hs).imp fun seg h => ⟨List.mem_cons_of_mem _ h.1, h.2⟩⟩
      · have hsame := restamp_content kcp rtomin segment (needsend kcp resent segment)
        generalize restamp kcp rtomin segment (needsend kcp resent segment) = stamped at *
        obtain ⟨segs, heq, hall⟩ := ih _
          (b.put kcp.mtu { stamped with ts := kcp.current, wnd := wnd, una := kcp.rcvNxt })
        refine ⟨_ :: segs, heq, fun s hs => ?_⟩
        rcases List.mem_cons.mp hs with rfl | hs
        · simp only [IkcpSeg.content, Prod.mk.injEq] at hsame
          exact ⟨segment, List.mem_cons_self .., hsame.2.2.2⟩
        · exact (hall s hs).imp fun seg h => ⟨List.mem_cons_of_mem _ h.1, h.2⟩

theorem FlushBuf.Short.puts {segs : List IkcpSeg} (h : b.Short)
    (hsegs : ∀ seg ∈ segs, seg.data.length ≤ 1376) : (segs.foldl (FlushBuf.put 1400) b).Short := by
  induction segs generalizing b with
  | nil => exact h
  | cons seg segs ih =>
      exact ih (h.put (hsegs seg (List.mem_cons_self ..)))
        fun seg' hseg' => hsegs seg' (List.mem_cons_of_mem _ hseg')

/-- No datagram is longer than the mtu and the two bytes of a header that it does not count. -/
theorem Context.flush_short (h : Context kcp) :
    ∀ d ∈ (ikcpFlush kcp).2, (encodeSegs d).length ≤ 1402 := by
  unfold ikcpFlush
  split
  · exact fun _ hd => absurd hd List.not_mem_nil
  · obtain ⟨acks, hacks, hackData, hacksData⟩ := flushAcks_puts kcp.mtu (ackSeg kcp) {} kcp.acklist
    dsimp only
    generalize flushAcks kcp.mtu (ackSeg kcp) {} kcp.acklist = first at *
    obtain ⟨seg, b⟩ := first
    have hprobe : Keeps kcp (probeWindow { kcp with acklist := [] }) := by
      refine Keeps.trans ?_ (keeps_probeWindow _)
      exact ⟨rfl, rfl, rfl, rfl, rfl, rfl, List.Subset.refl _⟩
    have hcontext := h.keeps hprobe
    obtain ⟨probes, hprobes, hprobesData⟩ :=
      flushProbes_puts (probeWindow { kcp with acklist := [] }) seg b
    dsimp only
    generalize probeWindow { kcp with acklist := [] } = kcp₁ at *
    have hprobed : Context { kcp₁ with probe := 0 } :=
      hcontext.keeps ⟨rfl, rfl, rfl, rfl, rfl, rfl, List.Subset.refl _⟩
    have hfilled := hprobed.fillSndBuf (wndUnused kcp) (sendWindow kcp₁)
    generalize Kcp.fillSndBuf { kcp₁ with probe := 0 } (wndUnused kcp) (sendWindow kcp₁) = kcp₂ at *
    obtain ⟨pushes, hpushes, hpushesData⟩ := flushData_puts kcp₂ (wndUnused kcp) (resentLimit kcp₂)
      (rtoMargin kcp₂) kcp₂.sndBuf { xmit := kcp₂.xmit, state := kcp₂.state }
      (flushProbes kcp₁ seg b)
    have hshort : (flushData kcp₂ (wndUnused kcp) (resentLimit kcp₂) (rtoMargin kcp₂) kcp₂.sndBuf
        { xmit := kcp₂.xmit, state := kcp₂.state } (flushProbes kcp₁ seg b)).2.2.Short := by
      have hnone : ∀ s : IkcpSeg, s.data = (ackSeg kcp).data → s.data.length ≤ 1376 := by
        intro s hs
        rw [hs]
        exact Nat.zero_le _
      rw [h.mtu] at hacks
      rw [hcontext.mtu] at hprobes
      rw [hfilled.mtu] at hpushes
      rw [hpushes, hprobes, show b = _ from hacks]
      have hempty : FlushBuf.Short {} :=
        ⟨Nat.zero_le _, fun _ hd => absurd hd List.not_mem_nil⟩
      refine ((hempty.puts fun s hs => hnone s (hacksData s hs)).puts fun s hs =>
        hnone s ((hprobesData s hs).trans hackData)).puts fun s hs => ?_
      obtain ⟨seg', hseg', heq⟩ := hpushesData s hs
      rw [heq]
      exact (hfilled.buffered seg' hseg').2.2.2
    exact hshort.output.out

end

end Hprd.Net.Kcp

import Hprd.Core.Arq
import Hprd.Net.Kcp.Message
import Hprd.Net.Kcp.WindowBounds

/-!
# A control block follows two links

What a control block sends is the sender of one link of selective repeat, what it
receives is the receiver of the other. Every call takes steps of the links that end
where the control block ends, when the datagrams that come in are from the peer and
not too old.
-/

namespace Hprd.Net.Kcp

open Hprd.Core Hprd.Core.Serial Hprd.Core.Arq

/-- How far a counter may move on while a datagram is on the way. -/
def lifetime : Nat := 2 ^ 29

/-- The windows that both ends set up. -/
def kcpWindows : Windows := ⟨wndSnd.toNat, wndRcv.toNat, lifetime⟩

@[simp] theorem kcpWindows_send : kcpWindows.send = 4096 := rfl

@[simp] theorem kcpWindows_recv : kcpWindows.recv = 8192 := rfl

@[simp] theorem kcpWindows_life : kcpWindows.life = 2 ^ 29 := rfl

/-- The segments that nothing has numbered wait in the queue, those without an ack in the buffer. -/
structure Sends (f : SendSide) (s : Sender Piece) : Prop where
  queue : f.queue.map IkcpSeg.piece = s.items.drop s.numbered
  window : ∃ nums, SendWindow (fun n p => s.items[n]? = some p) f s.numbered s.una nums ∧
    ∀ n, n ∈ s.unacked ↔ n ∈ nums

structure Receives (g : RecvSide) (got : List Bytes) (items : List Piece) (r : Receiver) :
    Prop where
  queue : pieces got ++ g.queue.map IkcpSeg.piece <+: items
  count : (pieces got).length + g.queue.length = r.taken
  acks : ∀ a ∈ g.acklist, ∃ i ∈ r.acks, a.1 = UInt32.ofNat i
  window : ∃ nums, RecvWindow (fun n p => items[n]? = some p) g r.taken nums ∧
    ∀ n, n ∈ r.held ↔ n ∈ nums

theorem getElem?_of_prefix {α : Type*} {xs ys : List α} (h : xs <+: ys) {n : Nat} {x : α}
    (hx : xs[n]? = some x) : ys[n]? = some x := by
  obtain ⟨hn, rfl⟩ := List.getElem?_eq_some_iff.mp hx
  exact List.prefix_iff_getElem?.mp h n hn

section

variable {kcp : Ikcpcb} {l : Link Piece} {got : List Bytes} {items items' : List Piece}
  {f : SendSide} {g : RecvSide} {s : Sender Piece} {r : Receiver}

theorem Receives.mono (h : Receives g got items r) (hpre : items <+: items') :
    Receives g got items' r := by
  obtain ⟨nums, hwindow, hheld⟩ := h.window
  exact ⟨h.queue.trans hpre, h.count, h.acks, nums,
    hwindow.mono fun n p hp => getElem?_of_prefix hpre hp, hheld⟩

/-! ## The sender -/

theorem Sends.offer (h : Sends f s) (hle : s.numbered ≤ s.items.length) (segs : List IkcpSeg) :
    Sends { f with queue := f.queue ++ segs }
      { s with items := s.items ++ segs.map IkcpSeg.piece } := by
  obtain ⟨nums, hwindow, hunacked⟩ := h.window
  refine ⟨?_, nums, ?_, hunacked⟩
  · rw [List.map_append, h.queue, List.drop_append_of_le_length hle]
  · have hmono := hwindow.mono fun n p hp =>
      getElem?_of_prefix (List.prefix_append s.items (segs.map IkcpSeg.piece)) hp
    exact { hmono with }

/-- What is in `snd_buf` is numbered and sent, in the link too. -/
theorem Sends.flush (h : Sends kcp.flow.send l.toSender) (hl : l.Inv kcpWindows)
    (hc : Context kcp) :
    ∃ s', Steps kcpWindows l { l with toSender := s' } ∧
      Sends (ikcpFlush kcp).1.flow.send s' ∧ s'.items = l.items ∧ l.numbered ≤ s'.numbered ∧
      s'.numbered ≤ l.numbered + 4096 ∧ l.data ⊆ s'.data ∧
      ∀ d ∈ (ikcpFlush kcp).2, ∀ seg ∈ d, seg.cmd = cmdPush →
        ∃ n, seg.sn = UInt32.ofNat n ∧ l.items[n]? = some seg.piece ∧
          (n, s'.numbered) ∈ s'.data := by
  obtain ⟨nums, hwindow, hunacked⟩ := h.window
  have hqueue : kcp.sndQueue.map IkcpSeg.piece = l.items.drop l.numbered := h.queue
  have hlen := congrArg List.length hqueue
  rw [List.length_map, List.length_drop] at hlen
  have hnext : ∀ j seg, kcp.sndQueue[j]? = some seg →
      l.items[l.numbered + j]? = some seg.piece := by
    intro j seg hj
    rw [← List.getElem?_drop, ← hqueue, List.getElem?_map, hj]
    rfl
  obtain ⟨k, hk, hwindow', hstay, -, hout⟩ := hwindow.flush hc hnext
  have hle := hl.numbered_le
  have hopen : ∀ n, n ∈ l.unacked ∪ Set.Ico l.numbered (l.numbered + k) ↔
      n ∈ nums ++ List.range' l.numbered k := by
    intro n
    rw [List.mem_append, List.mem_range'_1, ← hunacked]
    rfl
  refine ⟨{ l.toSender with
      numbered := l.numbered + k
      unacked := l.unacked ∪ Set.Ico l.numbered (l.numbered + k)
      data := l.data ∪ (fun i => (i, l.numbered + k)) ''
        (l.unacked ∪ Set.Ico l.numbered (l.numbered + k)) },
    (Steps.numbers (by omega) hwindow'.window).tail (Step.send _ (Set.Subset.refl _)), ?_, rfl,
    Nat.le_add_right .., ?_, Set.subset_union_left, ?_⟩
  · refine ⟨?_, _, hwindow', hopen⟩
    show (ikcpFlush kcp).1.sndQueue.map IkcpSeg.piece = l.items.drop (l.numbered + k)
    rw [hstay, List.map_drop, hqueue, List.drop_drop]
  · have huna := hl.una_le
    have htop := hwindow'.window
    show l.numbered + k ≤ l.numbered + 4096
    omega
  · intro d hd seg hseg hcmd
    obtain ⟨n, hn, hsn, hpiece⟩ := (hout d hd seg hseg).push hcmd
    exact ⟨n, hsn, hpiece, .inr ⟨n, (hopen n).mpr hn, rfl⟩⟩

/-- What a segment of the receiver says about the numbers of the sender. -/
structure Answers (r : Receiver) (life : Nat) (seg : IkcpSeg) : Prop where
  una : ∃ n ∈ r.reports, seg.una = UInt32.ofNat n ∧ r.taken ≤ n + life
  ack : seg.cmd = cmdAck → ∃ i stamp, (i, stamp) ∈ r.answers ∧ seg.sn = UInt32.ofNat i ∧
    r.taken ≤ stamp + life

/-- The reports and the answers of a segment close the numbers in the link too. -/
theorem Sends.inputSeg {st : Ikcpcb × MaxAck} (h : Sends st.1.flow.send l.toSender)
    (hl : l.Inv kcpWindows) {seg : IkcpSeg} (hseg : Answers l.toReceiver lifetime seg) :
    ∃ s', Steps kcpWindows l { l with toSender := s' } ∧
      Sends (inputSeg st seg).1.flow.send s' ∧ s'.items = l.items ∧
      s'.numbered = l.numbered ∧ s'.data = l.data := by
  obtain ⟨hqueue, nums, hwindow, hunacked⟩ := h
  obtain ⟨n, hreport, huna, hfresh⟩ := hseg.una
  obtain ⟨hnlow, hnhigh⟩ := hl.report_near hreport hfresh
  simp only [kcpWindows_send, kcpWindows_recv, kcpWindows_life] at hnhigh
  have hkeep : (Kcp.inputSeg st seg).1.sndQueue = st.1.sndQueue := (keeps_inputSeg st seg).sndQueue
  have hqueue' : (Kcp.inputSeg st seg).1.flow.send.queue.map IkcpSeg.piece =
      l.items.drop l.numbered := by
    show (Kcp.inputSeg st seg).1.sndQueue.map IkcpSeg.piece = _
    rw [hkeep]
    exact hqueue
  have hreported : Steps kcpWindows l { l with unacked := l.unacked \ Set.Iio n } :=
    .single (Step.reported hreport hfresh)
  obtain ⟨una₁, nums₁, hwindow₁, hup₁, -, hexact₁⟩ := hwindow.readUna seg
  have hmem₁ : ∀ m, m ∈ l.unacked \ Set.Iio n ↔ m ∈ nums₁ := by
    intro m
    rw [hexact₁ n huna hnlow (by omega), ← hunacked, Set.mem_sdiff, Set.mem_Iio, not_lt]
  by_cases hcmd : seg.cmd = cmdAck
  · obtain ⟨i, stamp, hanswer, hsn, hfresh'⟩ := hseg.ack hcmd
    obtain ⟨hilow, hihigh⟩ := hl.answer_near hanswer hfresh'
    simp only [kcpWindows_send, kcpWindows_recv, kcpWindows_life] at hihigh
    obtain ⟨una₂, nums₂, hwindow₂, hup₂, -, hexact₂⟩ := hwindow₁.readAck seg
    have hmem₂ : ∀ m, m ∈ (l.unacked \ Set.Iio n) \ {i} ↔ m ∈ nums₂ := by
      intro m
      rw [hexact₂ i hsn hilow (by omega), ← hmem₁, Set.mem_sdiff_singleton]
    have hanswered : Step kcpWindows { l with unacked := l.unacked \ Set.Iio n }
        { l with unacked := (l.unacked \ Set.Iio n) \ {i} } := .answered hanswer hfresh'
    have hshrunk : Step kcpWindows { l with unacked := (l.unacked \ Set.Iio n) \ {i} }
        { l with unacked := (l.unacked \ Set.Iio n) \ {i}, una := una₂ } :=
      .shrink (hup₁.trans hup₂) hwindow₂.una_le fun m hm => (hwindow₂.mem m ((hmem₂ m).mp hm)).1
    refine ⟨{ l.toSender with unacked := (l.unacked \ Set.Iio n) \ {i}, una := una₂ },
      (hreported.tail hanswered).tail hshrunk, ⟨hqueue', nums₂, ?_, hmem₂⟩, rfl, rfl, rfl⟩
    rw [flow_inputSeg, if_pos hcmd]
    exact hwindow₂
  · have hshrunk : Step kcpWindows { l with unacked := l.unacked \ Set.Iio n }
        { l with unacked := l.unacked \ Set.Iio n, una := una₁ } :=
      .shrink hup₁ hwindow₁.una_le fun m hm => (hwindow₁.mem m ((hmem₁ m).mp hm)).1
    refine ⟨{ l.toSender with unacked := l.unacked \ Set.Iio n, una := una₁ },
      hreported.tail hshrunk, ⟨hqueue', nums₁, ?_, hmem₁⟩, rfl, rfl, rfl⟩
    rw [flow_inputSeg, if_neg hcmd]
    split
    · rw [send_readPush]
      exact hwindow₁
    · exact hwindow₁

theorem Sends.inputSegs {segs : List IkcpSeg} {st : Ikcpcb × MaxAck}
    (h : Sends st.1.flow.send l.toSender) (hl : l.Inv kcpWindows)
    (hsegs : ∀ seg ∈ segs, Answers l.toReceiver lifetime seg) :
    ∃ s', Steps kcpWindows l { l with toSender := s' } ∧
      Sends (segs.foldl Kcp.inputSeg st).1.flow.send s' ∧ s'.items = l.items ∧
      s'.numbered = l.numbered ∧ s'.data = l.data := by
  induction segs generalizing st l with
  | nil => exact ⟨l.toSender, .refl, h, rfl, rfl, rfl⟩
  | cons seg segs ih =>
      obtain ⟨s₁, hsteps, h₁, hitems, hnumbered, hdata⟩ :=
        h.inputSeg hl (hsegs seg (List.mem_cons_self ..))
      obtain ⟨s', hsteps', h', hitems', hnumbered', hdata'⟩ :=
        ih (l := { l with toSender := s₁ }) h₁ (hl.steps hsteps) fun seg' hmem =>
          hsegs seg' (List.mem_cons_of_mem _ hmem)
      exact ⟨s', hsteps.trans hsteps', h', hitems'.trans hitems, hnumbered'.trans hnumbered,
        hdata'.trans hdata⟩

/-! ## The receiver -/

theorem Numbered.append_prefix {segs : List IkcpSeg} {pre : List Piece} {nums : List Nat}
    (h : Numbered (fun n p => items[n]? = some p) segs nums)
    (hnums : nums = List.range' pre.length segs.length) (hpre : pre <+: items) :
    pre ++ segs.map IkcpSeg.piece <+: items := by
  induction h generalizing pre with
  | nil => rwa [List.map_nil, List.append_nil]
  | @cons seg n segs nums hn _ ih =>
      rw [List.length_cons, List.range'_succ, List.cons_eq_cons] at hnums
      obtain ⟨rfl, hnums'⟩ := hnums
      have hone : pre ++ [seg.piece] <+: items := by
        obtain ⟨rest, rfl⟩ := hpre
        have hfirst : (pre ++ rest)[pre.length]? = some seg.piece := hn.2
        rw [List.getElem?_append_right (Nat.le_refl _), Nat.sub_self] at hfirst
        cases rest with
        | nil => cases hfirst
        | cons piece rest =>
            cases hfirst
            exact ⟨rest, (List.append_cons ..).symm⟩
      rw [List.map_cons, List.append_cons]
      refine ih ?_ hone
      rw [hnums', List.length_append, List.length_singleton]

def Carries (s : Sender Piece) (life : Nat) (seg : IkcpSeg) : Prop :=
  seg.cmd = cmdPush → ∃ i stamp, (i, stamp) ∈ s.data ∧ seg.sn = UInt32.ofNat i ∧
    s.items[i]? = some seg.piece ∧ s.numbered ≤ stamp + life

theorem Receives.takes (h : Receives g got items r) {queue segs : List IkcpSeg} {held : Set Nat}
    {nums nums' : List Nat} {msgs : List Bytes} {acks : Set Nat}
    (hgot : pieces msgs ++ queue.map IkcpSeg.piece = pieces got ++ g.queue.map IkcpSeg.piece)
    {g' : RecvSide} (hqueue : g'.queue = queue ++ segs)
    (hacks : ∀ a ∈ g'.acklist, ∃ i ∈ acks, a.1 = UInt32.ofNat i)
    (hwindow : RecvWindow (fun n p => items[n]? = some p) g' (r.taken + segs.length) nums')
    (hsegs : Numbered (fun n p => items[n]? = some p) segs (List.range' r.taken segs.length))
    (hnums : ∀ n, n ∈ List.range' r.taken segs.length ++ nums' ↔ n ∈ nums)
    (hheld : ∀ n, n ∈ held ↔ n ∈ nums) :
    Receives g' msgs items { r with
      taken := r.taken + segs.length, acks := acks
      held := held \ Set.Ico r.taken (r.taken + segs.length) } := by
  have hcount : (pieces got ++ g.queue.map IkcpSeg.piece).length = r.taken := by
    rw [List.length_append, List.length_map, h.count]
  have hcount' := hcount
  rw [← hgot, List.length_append, List.length_map] at hcount'
  refine ⟨?_, ?_, hacks, nums', hwindow, fun n => ?_⟩
  · rw [hqueue, List.map_append, ← List.append_assoc, hgot]
    refine hsegs.append_prefix ?_ h.queue
    rw [hcount]
  · rw [hqueue, List.length_append, ← Nat.add_assoc, hcount']
  · rw [Set.mem_sdiff, hheld, ← hnums, List.mem_append, List.mem_range'_1, Set.mem_Ico]
    constructor
    · rintro ⟨hin | hin, hout⟩
      · exact absurd hin hout
      · exact hin
    · intro hin
      have hlow := (hwindow.mem n hin).1
      exact ⟨.inr hin, fun hout => by omega⟩

/-- A push arrives in the link too, and what is then next is taken. -/
theorem Receives.inputSeg {st : Ikcpcb × MaxAck}
    (h : Receives st.1.flow.recv got l.items l.toReceiver) (hl : l.Inv kcpWindows)
    {seg : IkcpSeg} (hseg : Carries l.toSender lifetime seg) :
    ∃ r', Steps kcpWindows l { l with toReceiver := r' } ∧
      Receives (inputSeg st seg).1.flow.recv got l.items r' ∧ l.taken ≤ r'.taken ∧
      r'.reports = l.reports ∧ r'.answers = l.answers := by
  have hsame : (Kcp.inputSeg st seg).1.flow.recv = st.1.flow.recv →
      ∃ r', Steps kcpWindows l { l with toReceiver := r' } ∧
        Receives (Kcp.inputSeg st seg).1.flow.recv got l.items r' ∧ l.taken ≤ r'.taken ∧
        r'.reports = l.reports ∧ r'.answers = l.answers := fun he =>
    ⟨l.toReceiver, .refl, he ▸ h, Nat.le_refl _, rfl, rfl⟩
  by_cases hcmd : seg.cmd = cmdPush
  · have hack : seg.cmd ≠ cmdAck := by
      rw [hcmd]
      decide
    have hread : (Kcp.inputSeg st seg).1.flow.recv =
        (readPush (readUna st.1 seg) seg).flow.recv := by
      rw [flow_inputSeg, if_neg hack, if_pos hcmd]
    have huna : (readUna st.1 seg).flow.recv = st.1.flow.recv := recv_readUna ..
    rw [hread] at hsame ⊢
    rw [← huna] at hsame h
    obtain ⟨i, stamp, hdata, hsn, hpiece, hfresh⟩ := hseg hcmd
    obtain ⟨hihigh, hilow⟩ := hl.arrival_near hdata hfresh
    simp only [kcpWindows_send, kcpWindows_recv, kcpWindows_life] at hihigh hilow
    obtain ⟨nums, hwindow, hheld⟩ := h.window
    rcases hwindow.readPush seg with ⟨-, hno⟩ | ⟨hbefore, hold⟩ | ⟨d, hd, hsn', hmove⟩
    · exact hsame hno
    · have hlt : i < l.taken := by
        rwa [hsn, itimediff_neg ⟨by omega, by omega⟩] at hbefore
      refine ⟨{ l.toReceiver with acks := insert i l.acks },
        .single (Step.again hdata hfresh hlt), ?_, Nat.le_refl _, rfl, rfl⟩
      rw [hold]
      refine ⟨h.queue, h.count, fun a ha => ?_, nums, ⟨⟨hwindow.nxt_eq, hwindow.wnd_eq,
        hwindow.buf, hwindow.sorted, hwindow.mem, hwindow.queue⟩, hwindow.settled⟩, hheld⟩
      rcases List.mem_append.mp ha with ha | ha
      · obtain ⟨j, hj, heq⟩ := h.acks a ha
        exact ⟨j, Set.mem_insert_of_mem _ hj, heq⟩
      · rw [List.mem_singleton.mp ha]
        exact ⟨i, Set.mem_insert .., hsn⟩
    · obtain rfl : i = l.taken + d := by
        rwa [hsn, ofNat_eq_iff ⟨by omega, by omega⟩] at hsn'
      obtain ⟨segs, nums', hwindow', hqueue, hacklist, hsegs, hnums⟩ := hmove hpiece
      have hheld' : ∀ n, n ∈ insert (l.taken + d) l.held ↔ n ∈ (l.taken + d) :: nums := by
        intro n
        rw [Set.mem_insert_iff, List.mem_cons, hheld]
      have hthere : ∀ n, l.taken ≤ n → n < l.taken + segs.length →
          n ∈ insert (l.taken + d) l.held := by
        intro n hlow hhigh
        rw [hheld', List.mem_cons, ← hnums]
        exact List.mem_append_left _ (List.mem_range'_1.mpr ⟨hlow, hhigh⟩)
      have harrive : Steps kcpWindows l { l with
          acks := insert (l.taken + d) l.acks, held := insert (l.taken + d) l.held } :=
        .single (Step.arrive hdata hfresh (Nat.le_add_right ..) (Nat.add_lt_add_left hd _))
      refine ⟨_, harrive.trans (Steps.takes hthere), ?_, Nat.le_add_right .., rfl, rfl⟩
      refine h.takes rfl hqueue (fun a ha => ?_) hwindow' hsegs
        (fun n => (hnums n).trans List.mem_cons.symm) hheld'
      have hin : a ∈ (readUna st.1 seg).acklist ++ [(seg.sn, seg.ts)] := hacklist ▸ ha
      rcases List.mem_append.mp hin with hin | hin
      · obtain ⟨j, hj, heq⟩ := h.acks a hin
        exact ⟨j, Set.mem_insert_of_mem _ hj, heq⟩
      · rw [List.mem_singleton.mp hin]
        exact ⟨_, Set.mem_insert .., hsn⟩
  · refine hsame ?_
    rw [flow_inputSeg]
    split
    · rw [recv_readAck, recv_readUna]
    · rw [recv_readUna]

theorem Receives.inputSegs {segs : List IkcpSeg} {st : Ikcpcb × MaxAck}
    (h : Receives st.1.flow.recv got l.items l.toReceiver) (hl : l.Inv kcpWindows)
    (hsegs : ∀ seg ∈ segs, Carries l.toSender lifetime seg) :
    ∃ r', Steps kcpWindows l { l with toReceiver := r' } ∧
      Receives (segs.foldl Kcp.inputSeg st).1.flow.recv got l.items r' ∧ l.taken ≤ r'.taken ∧
      r'.reports = l.reports ∧ r'.answers = l.answers := by
  induction segs generalizing st l with
  | nil => exact ⟨l.toReceiver, .refl, h, Nat.le_refl _, rfl, rfl⟩
  | cons seg segs ih =>
      obtain ⟨r₁, hsteps, h₁, hle, hreports, hanswers⟩ :=
        h.inputSeg hl (hsegs seg (List.mem_cons_self ..))
      obtain ⟨r', hsteps', h', hle', hreports', hanswers'⟩ :=
        ih (l := { l with toReceiver := r₁ }) h₁ (hl.steps hsteps) fun seg' hmem =>
          hsegs seg' (List.mem_cons_of_mem _ hmem)
      exact ⟨r', hsteps.trans hsteps', h', hle.trans hle', hreports'.trans hreports,
        hanswers'.trans hanswers⟩

/-- The acks go out, and with every datagram what is expected next. -/
theorem Receives.flush (h : Receives kcp.flow.recv got l.items l.toReceiver)
    (hw : Windowed kcp) :
    ∃ r', Steps kcpWindows l { l with toReceiver := r' } ∧
      Receives (ikcpFlush kcp).1.flow.recv got l.items r' ∧ r'.taken = l.taken ∧
      l.reports ⊆ r'.reports ∧ l.answers ⊆ r'.answers ∧
      ∀ d ∈ (ikcpFlush kcp).2, l.taken ∈ r'.reports ∧ ∀ seg ∈ d,
        seg.una = UInt32.ofNat l.taken ∧ (seg.cmd = cmdAck →
          ∃ i, (i, l.taken) ∈ r'.answers ∧ seg.sn = UInt32.ofNat i) := by
  obtain ⟨hqueue, hcount, hacks, nums, hwindow, hheld⟩ := h
  obtain ⟨hc, ⟨numbered, una, snums, hsend⟩, -⟩ := hw
  obtain ⟨k, -, -, -, -, hout⟩ := hsend.flush hc fun _ _ _ => trivial
  have hnxt : kcp.rcvNxt = UInt32.ofNat l.taken := hwindow.nxt_eq
  by_cases hidle : kcp.updated = false
  · refine ⟨l.toReceiver, .refl, ?_, rfl, Set.Subset.refl _, Set.Subset.refl _, fun d hd => ?_⟩
    · rw [recv_ikcpFlush, if_pos hidle]
      exact ⟨hqueue, hcount, hacks, nums, hwindow, hheld⟩
    · rw [ikcpFlush, if_pos hidle] at hd
      exact absurd hd List.not_mem_nil
  · refine ⟨{ l.toReceiver with
        answers := l.answers ∪ (fun i => (i, l.taken)) '' l.acks
        reports := insert l.taken l.reports, acks := ∅, flushed := l.taken },
      .single Step.flush, ?_, rfl, Set.subset_insert .., Set.subset_union_left, fun d hd => ?_⟩
    · rw [recv_ikcpFlush, if_neg hidle]
      exact ⟨hqueue, hcount, nofun, nums, ⟨⟨hwindow.nxt_eq, hwindow.wnd_eq, hwindow.buf,
        hwindow.sorted, hwindow.mem, hwindow.queue⟩, hwindow.settled⟩, hheld⟩
    · refine ⟨Set.mem_insert .., fun seg hseg => ?_⟩
      have hemitted := hout d hd seg hseg
      refine ⟨hemitted.una.trans hnxt, fun hcmd => ?_⟩
      obtain ⟨a, ha, hsn⟩ := hemitted.ack hcmd
      obtain ⟨i, hi, heq⟩ := hacks a ha
      exact ⟨i, .inr ⟨i, hi, rfl⟩, hsn.trans heq⟩

theorem Receives.recv {sent : List Bytes} (h : Receives kcp.flow.recv got l.items l.toReceiver)
    (hitems : l.items = pieces sent) (hgot : got <+: sent)
    (hsmall : ∀ msg ∈ sent, fragmentCount 1376 msg.length < 8192) (len : Nat)
    (hret : 0 ≤ (ikcpRecv kcp len).1) :
    got ++ [(ikcpRecv kcp len).2.1] <+: sent ∧
    ∃ r', Steps kcpWindows l { l with toReceiver := r' } ∧
      Receives (ikcpRecv kcp len).2.2.flow.recv (got ++ [(ikcpRecv kcp len).2.1]) l.items r' ∧
      l.taken ≤ r'.taken ∧ r'.reports = l.reports ∧ r'.answers = l.answers := by
  obtain ⟨nums, hwindow, hheld⟩ := h.window
  rcases ikcpRecv_cases kcp len with ⟨hneg, -⟩ | ⟨hne, hpeek, -, hbuf, hflow⟩
  · omega
  obtain ⟨rest, rfl⟩ := hgot
  have hpre : kcp.rcvQueue.map IkcpSeg.piece <+: pieces rest := by
    have hqueue := h.queue
    rw [hitems, pieces_append] at hqueue
    exact (List.prefix_append_right_inj _).mp hqueue
  cases rest with
  | nil =>
      rw [pieces, List.flatMap_nil, List.prefix_nil, List.map_eq_nil_iff] at hpre
      exact absurd hpre hne
  | cons msg rest =>
      obtain ⟨hfirst, hdata⟩ := firstMessage_pieces
        (hsmall msg (List.mem_append_right _ (List.mem_cons_self ..))) hwindow.queue hne hpre hpeek
      rw [hbuf, hdata, hflow]
      obtain ⟨segs, nums', hwindow', hqueue, hsegs, hnums⟩ := hwindow.takeMessage
      have hthere : ∀ n, l.taken ≤ n → n < l.taken + segs.length → n ∈ l.held := by
        intro n hlow hhigh
        rw [hheld, hnums]
        exact List.mem_append_left _ (List.mem_range'_1.mpr ⟨hlow, hhigh⟩)
      refine ⟨⟨rest, (List.append_cons ..).symm⟩, _, Steps.takes hthere, ?_, Nat.le_add_right ..,
        rfl, rfl⟩
      refine h.takes ?_ hqueue h.acks hwindow' hsegs (fun n => by rw [← hnums]) hheld
      rw [pieces_append, pieces_singleton, ← hfirst, List.append_assoc, ← List.map_append,
        firstMessage_append]
      rfl

end

end Hprd.Net.Kcp

import Hprd.Net.Kcp.Numbers

/-!
# The windows of a control block

`snd_buf` has the numbers from `snd_una` to `snd_nxt` that are not acknowledged, at
most 4096 of them, `rcv_buf` numbers out of the 8192 from `rcv_nxt` on. What
`ikcp_input` is given can close numbers and move `rcv_nxt`, but can break neither.
-/

namespace Hprd.Net.Kcp

open Hprd.Core Hprd.Core.Serial

variable {Q R : Nat → Piece → Prop} {f : SendSide} {g : RecvSide} {kcp : Ikcpcb} {numbered una taken : Nat}
  {nums : List Nat}

/-! ## The send window -/

/-- Before `snd_una` has been set to the first number of the buffer. -/
structure SendBuf (Q : Nat → Piece → Prop) (f : SendSide) (numbered una : Nat) (nums : List Nat) :
    Prop where
  nxt_eq : f.nxt = UInt32.ofNat numbered
  una_eq : f.una = UInt32.ofNat una
  wnd_eq : f.wnd = wndSnd
  nocwnd : f.nocwnd ≠ 0
  buf : Numbered Q f.buf nums
  sorted : nums.Pairwise (· < ·)
  mem : ∀ n ∈ nums, una ≤ n ∧ n < numbered
  una_le : una ≤ numbered
  window : numbered ≤ una + 4096

structure SendWindow (Q : Nat → Piece → Prop) (f : SendSide) (numbered una : Nat) (nums : List Nat) :
    Prop extends SendBuf Q f numbered una nums where
  first : una = nums.head?.getD numbered

theorem SendWindow.mono (h : SendWindow Q f numbered una nums) (hQ : ∀ n p, Q n p → R n p) :
    SendWindow R f numbered una nums :=
  { h with buf := h.buf.mono hQ }

theorem SendBuf.sublist (h : SendBuf Q f numbered una nums) {buf : List IkcpSeg}
    {nums' : List Nat} (hbuf : Numbered Q buf nums') (hsub : nums'.Sublist nums) :
    SendBuf Q { f with buf := buf } numbered una nums' :=
  { h with
    buf := hbuf
    sorted := h.sorted.sublist hsub
    mem := fun n hn => h.mem n (hsub.subset hn) }

theorem flow_shrinkBuf (kcp : Ikcpcb) : (shrinkBuf kcp).flow =
    { kcp.flow with
      send := { kcp.flow.send with
        una := (kcp.sndBuf.head?.map IkcpSeg.sn).getD kcp.sndNxt } } := by
  unfold shrinkBuf
  split
  next seg buf heq => simp [Ikcpcb.flow, heq]
  next heq => simp [Ikcpcb.flow, heq]

theorem SendBuf.shrink (h : SendBuf Q kcp.flow.send numbered una nums) :
    ∃ una', SendWindow Q (shrinkBuf kcp).flow.send numbered una' nums ∧ una ≤ una' := by
  obtain ⟨hnxt, huna, hwnd, hnocwnd, hbuf, hsorted, hmem, hle, hwindow⟩ := h
  have hbuf' : Numbered Q kcp.sndBuf nums := hbuf
  rw [flow_shrinkBuf]
  generalize kcp.sndBuf = buf at hbuf' ⊢
  cases hbuf' with
  | nil =>
      exact ⟨numbered, ⟨⟨hnxt, hnxt, hwnd, hnocwnd, hbuf, hsorted, nofun, Nat.le_refl _,
        Nat.le_add_right ..⟩, rfl⟩, hle⟩
  | @cons seg n buf nums hn hrest =>
      have hup := (List.pairwise_cons.mp hsorted).1
      obtain ⟨hlow, hhigh⟩ := hmem n (List.mem_cons_self ..)
      have hfirst : ∀ m ∈ n :: nums, n ≤ m := by
        intro m hm
        rcases List.mem_cons.mp hm with rfl | hm
        · exact Nat.le_refl _
        · exact (hup m hm).le
      exact ⟨n, ⟨⟨hnxt, hn.1, hwnd, hnocwnd, hbuf, hsorted,
        fun m hm => ⟨hfirst m hm, (hmem m hm).2⟩, hhigh.le,
        hwindow.trans (Nat.add_le_add_right hlow _)⟩, rfl⟩, hlow⟩

theorem dropWhile_congr {p q : Nat → Bool} (h : ∀ n ∈ nums, p n = q n) :
    nums.dropWhile p = nums.dropWhile q := by
  induction nums with
  | nil => rfl
  | cons n nums ih =>
      rw [List.dropWhile_cons, List.dropWhile_cons, h n (List.mem_cons_self ..),
        ih fun m hm => h m (List.mem_cons_of_mem _ hm)]

/-- Numbers that are sorted lose those below a bound at the front. -/
theorem mem_dropWhile_lt {u : Nat} (hsorted : nums.Pairwise (· < ·)) (n : Nat) :
    n ∈ nums.dropWhile (fun m => decide (m < u)) ↔ n ∈ nums ∧ u ≤ n := by
  induction nums with
  | nil => simp
  | cons m nums ih =>
      obtain ⟨hup, hsorted'⟩ := List.pairwise_cons.mp hsorted
      rw [List.dropWhile_cons]
      split
      next hlt =>
          rw [ih hsorted', List.mem_cons]
          have hlt' : m < u := of_decide_eq_true hlt
          constructor
          · exact fun hn => ⟨.inr hn.1, hn.2⟩
          · rintro ⟨rfl | hn, hle⟩
            · omega
            · exact ⟨hn, hle⟩
      next hge =>
          have hge' : u ≤ m := Nat.not_lt.mp fun hlt => hge (decide_eq_true hlt)
          constructor
          · intro hn
            refine ⟨hn, ?_⟩
            rcases List.mem_cons.mp hn with rfl | hn
            · exact hge'
            · exact hge'.trans (hup n hn).le
          · exact And.left

theorem SendBuf.parseUna (h : SendBuf Q kcp.flow.send numbered una nums) (u : UInt32) :
    ∃ nums', SendBuf Q (parseUna kcp u).flow.send numbered una nums' ∧ nums'.Sublist nums ∧
      ∀ n, u = UInt32.ofNat n → n ≤ numbered → numbered < n + 2 ^ 31 →
        ∀ m, m ∈ nums' ↔ m ∈ nums ∧ n ≤ m := by
  have hsub := List.dropWhile_sublist (l := nums) fun n => decide (0 < itimediff u (UInt32.ofNat n))
  refine ⟨_, h.sublist (h.buf.dropWhile u) hsub, hsub, fun n hn hle hlt m => ?_⟩
  have hwindow := h.window
  have hsame : nums.dropWhile (fun m => decide (0 < itimediff u (UInt32.ofNat m))) =
      nums.dropWhile fun m => decide (m < n) := by
    refine dropWhile_congr fun m hm => ?_
    obtain ⟨hlow, hhigh⟩ := h.mem m hm
    rw [hn, decide_eq_decide]
    exact itimediff_pos ⟨by omega, by omega⟩
  rw [hsame]
  exact mem_dropWhile_lt h.sorted m

theorem SendBuf.parseAck (h : SendBuf Q kcp.flow.send numbered una nums) (sn : UInt32) :
    ∃ nums', SendBuf Q (parseAck kcp sn).flow.send numbered una nums' ∧ nums'.Sublist nums ∧
      ∀ i, sn = UInt32.ofNat i → i < numbered → numbered < i + 2 ^ 31 →
        ∀ n, n ∈ nums' ↔ n ∈ nums ∧ n ≠ i := by
  have hwindow := h.window
  unfold Kcp.parseAck
  split
  next hout =>
      refine ⟨nums, h, List.Sublist.refl _, fun i hi hlt hnear n => ?_⟩
      refine ⟨fun hn => ⟨hn, ?_⟩, And.left⟩
      rintro rfl
      obtain ⟨hlow, hhigh⟩ := h.mem n hn
      have hout' : itimediff sn kcp.sndUna < 0 ∨ 0 ≤ itimediff sn kcp.sndNxt :=
        of_decide_eq_true hout
      have huna : kcp.sndUna = UInt32.ofNat una := h.una_eq
      have hnxt : kcp.sndNxt = UInt32.ofNat numbered := h.nxt_eq
      rw [hi, huna, hnxt, itimediff_neg ⟨by omega, by omega⟩,
        itimediff_nonneg ⟨by omega, by omega⟩] at hout'
      omega
  next =>
      obtain ⟨nums', hnums', hsub, hexact⟩ := h.buf.parseAckLoop sn
      refine ⟨nums', h.sublist hnums' hsub, hsub, fun i hi hlt hnear n => ?_⟩
      refine hexact i hi (fun m hm => ?_) h.sorted n
      obtain ⟨hlow, hhigh⟩ := h.mem m hm
      exact ⟨by omega, by omega⟩

/-! ## The receive window -/

/-- Before what is next has been moved to the queue. -/
structure RecvBuf (Q : Nat → Piece → Prop) (g : RecvSide) (taken : Nat) (nums : List Nat) : Prop where
  nxt_eq : g.nxt = UInt32.ofNat taken
  wnd_eq : g.wnd = wndRcv
  buf : Numbered Q g.buf nums
  sorted : nums.Pairwise (· < ·)
  mem : ∀ n ∈ nums, taken ≤ n ∧ n < taken + 8192
  queue : g.queue.length ≤ 8192

/-- What is next is in the buffer only while the queue is full. -/
structure RecvWindow (Q : Nat → Piece → Prop) (g : RecvSide) (taken : Nat) (nums : List Nat) : Prop
    extends RecvBuf Q g taken nums where
  settled : taken ∈ nums → g.queue.length = 8192

theorem RecvWindow.mono (h : RecvWindow Q g taken nums) (hQ : ∀ n p, Q n p → R n p) :
    RecvWindow R g taken nums :=
  { h with buf := h.buf.mono hQ }

theorem RecvBuf.move (h : RecvBuf Q kcp.flow.recv taken nums) :
    ∃ segs nums', RecvWindow Q (moveToQueue kcp).flow.recv (taken + segs.length) nums' ∧
      (moveToQueue kcp).rcvQueue = kcp.rcvQueue ++ segs ∧
      Numbered Q segs (List.range' taken segs.length) ∧
      nums = List.range' taken segs.length ++ nums' := by
  obtain ⟨hnxt, hwnd, hbuf, hsorted, hmem, hqueue⟩ := h
  obtain ⟨segs, buf', nums', hmoved, hsegs, hbuf', hnums, hlen, hfull⟩ :=
    hbuf.moveAvailable hsorted hmem hqueue
  have hmove : moveToQueue kcp = { kcp with
      rcvBuf := buf', rcvQueue := kcp.rcvQueue ++ segs
      rcvNxt := UInt32.ofNat (taken + segs.length) } := by
    have hwnd' : kcp.rcvWnd = wndRcv := hwnd
    have hnxt' : kcp.rcvNxt = UInt32.ofNat taken := hnxt
    rw [moveToQueue, hwnd', hnxt', show moveAvailable wndRcv kcp.rcvBuf kcp.rcvQueue _ = _ from
      hmoved]
    rfl
  have hsorted' : nums'.Pairwise (· < ·) := (List.pairwise_append.mp (hnums ▸ hsorted)).2.1
  have hmem' : ∀ n ∈ nums', taken + segs.length ≤ n ∧ n < taken + segs.length + 8192 := by
    intro n hn
    have hin : n ∈ nums := hnums ▸ List.mem_append_right _ hn
    obtain ⟨hlow, hhigh⟩ := hmem n hin
    refine ⟨?_, by omega⟩
    rcases Nat.eq_zero_or_pos segs.length with hzero | hpos
    · omega
    · have hlast : taken + segs.length - 1 ∈ List.range' taken segs.length := by
        rw [List.mem_range'_1]
        omega
      have := (List.pairwise_append.mp (hnums ▸ hsorted)).2.2 _ hlast n hn
      omega
  rw [hmove]
  exact ⟨segs, nums', ⟨⟨rfl, hwnd, hbuf', hsorted', hmem', hlen⟩, hfull⟩, rfl, hsegs, hnums⟩

theorem inWindow_iff {sn : UInt32} :
    itimediff sn (UInt32.ofNat taken + wndRcv) < 0 ∧ 0 ≤ itimediff sn (UInt32.ofNat taken) ↔
      ∃ d < 8192, sn = UInt32.ofNat (taken + d) := by
  obtain ⟨d, hd, hsn⟩ := exists_from taken sn.toBitVec
  obtain rfl : sn = UInt32.ofNat (taken + d) := UInt32.toBitVec_inj.mp hsn
  have hfrom : itimediff (UInt32.ofNat (taken + d)) (UInt32.ofNat taken) =
      (UInt32.ofNat d).toInt32 := by
    rw [itimediff, UInt32.ofNat_add, UInt32.add_comm, UInt32.add_sub_cancel]
  have hhalf : 0 ≤ (UInt32.ofNat d).toInt32 ↔ d < 2 ^ 31 := by
    rw [Int32.le_iff_toInt_le, Int32.toInt_zero]
    show 0 ≤ (BitVec.ofNat 32 d).toInt ↔ d < 2 ^ 31
    rw [BitVec.toInt_ofNat', Int.bmod_def]
    omega
  have hend : UInt32.ofNat taken + wndRcv = UInt32.ofNat (taken + 8192) := by
    rw [UInt32.ofNat_add]
    rfl
  rw [hfrom, hhalf, hend]
  constructor
  · rintro ⟨hlt, hge⟩
    refine ⟨d, ?_, rfl⟩
    rw [itimediff_neg ⟨by omega, by omega⟩] at hlt
    omega
  · rintro ⟨e, he, heq⟩
    have hde : d = e := by
      have hmod := congrArg UInt32.toNat heq
      rw [UInt32.toNat_ofNat', UInt32.toNat_ofNat'] at hmod
      omega
    rw [itimediff_neg ⟨by omega, by omega⟩]
    omega

/-- A number of the window goes into the buffer, and what is then next to the queue. -/
theorem RecvWindow.parseData (h : RecvWindow Q kcp.flow.recv taken nums) {seg : IkcpSeg} {d : Nat}
    (hd : d < 8192) (hsn : seg.sn = UInt32.ofNat (taken + d)) (hseg : Q (taken + d) seg.piece) :
    ∃ segs nums', RecvWindow Q (parseData kcp seg).flow.recv (taken + segs.length) nums' ∧
      (parseData kcp seg).rcvQueue = kcp.rcvQueue ++ segs ∧
      Numbered Q segs (List.range' taken segs.length) ∧
      ∀ n, n ∈ List.range' taken segs.length ++ nums' ↔ n = taken + d ∨ n ∈ nums := by
  obtain ⟨hnxt, hwnd, hbuf, hsorted, hmem, hqueue⟩ := h.toRecvBuf
  have hdown : nums.reverse.Pairwise (· > ·) := List.pairwise_reverse.mpr hsorted
  have hnear : ∀ n ∈ nums.reverse, Near 32 (taken + d) n := by
    intro n hn
    obtain ⟨hlow, hhigh⟩ := hmem n (List.mem_reverse.mp hn)
    exact ⟨by omega, by omega⟩
  obtain ⟨nums₁, hnums₁, hdown₁, hmem₁⟩ := hbuf.reverse.insertBehind hdown hnear hsn hseg
  have hup₁ : nums₁.reverse.Pairwise (· < ·) := List.pairwise_reverse.mpr hdown₁
  have hmem' : ∀ n, n ∈ nums₁.reverse ↔ n = taken + d ∨ n ∈ nums := by
    intro n
    rw [List.mem_reverse, hmem₁, List.mem_reverse]
  have hinside : ¬(0 ≤ itimediff seg.sn (kcp.rcvNxt + kcp.rcvWnd) ∨
      itimediff seg.sn kcp.rcvNxt < 0) := by
    have hnxt' : kcp.rcvNxt = UInt32.ofNat taken := hnxt
    have hwnd' : kcp.rcvWnd = wndRcv := hwnd
    rw [hnxt', hwnd', not_or, Int32.not_le, Int32.not_lt]
    exact inWindow_iff.mpr ⟨d, hd, hsn⟩
  rw [Kcp.parseData, if_neg hinside]
  have hplaced : RecvBuf Q ({ kcp with
      rcvBuf := ((Kcp.insertBehind seg kcp.rcvBuf.reverse).map List.reverse).getD
        kcp.rcvBuf } : Ikcpcb).flow.recv taken nums₁.reverse := by
    refine ⟨hnxt, hwnd, ?_, hup₁, fun n hn => ?_, hqueue⟩
    · have hrev := hnums₁.reverse
      have hsame : ((Kcp.insertBehind seg kcp.rcvBuf.reverse).getD
          kcp.rcvBuf.reverse).reverse =
          ((Kcp.insertBehind seg kcp.rcvBuf.reverse).map List.reverse).getD kcp.rcvBuf := by
        cases Kcp.insertBehind seg kcp.rcvBuf.reverse with
        | none => exact List.reverse_reverse _
        | some buf => rfl
      exact hsame ▸ hrev
    · rcases (hmem' n).mp hn with rfl | hn
      · omega
      · exact hmem n hn
  obtain ⟨segs, nums', hwindow, hqueue', hsegs, hnums⟩ := hplaced.move
  exact ⟨segs, nums', hwindow, hqueue', hsegs, fun n => by rw [← hnums, hmem']⟩

end Hprd.Net.Kcp

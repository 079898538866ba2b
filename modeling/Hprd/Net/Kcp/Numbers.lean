import Hprd.Core.Serial
import Hprd.Net.Kcp.Datagram

/-!
# The counters of a control block

`snd_una`, `snd_nxt`, `rcv_nxt` and the `sn` of every segment are the low 32 bits of
counters that never wrap. The loops over `snd_buf` and `rcv_buf` go by the differences
of these words, and do to the counters what they do to the segments.
-/

namespace Hprd.Net.Kcp

open Hprd.Core Hprd.Core.Serial

/-! ## `_itimediff` on counters -/

section

variable {m n : Nat}

theorem itimediff_toInt (h : Near 32 m n) :
    (itimediff (UInt32.ofNat m) (UInt32.ofNat n)).toInt = (m : Int) - n := toInt_sub h

theorem itimediff_neg (h : Near 32 m n) :
    itimediff (UInt32.ofNat m) (UInt32.ofNat n) < 0 ↔ m < n := by
  rw [Int32.lt_iff_toInt_lt, itimediff_toInt h, Int32.toInt_zero]
  omega

theorem itimediff_pos (h : Near 32 m n) :
    0 < itimediff (UInt32.ofNat m) (UInt32.ofNat n) ↔ n < m := by
  rw [Int32.lt_iff_toInt_lt, itimediff_toInt h, Int32.toInt_zero]
  omega

theorem itimediff_nonneg (h : Near 32 m n) :
    0 ≤ itimediff (UInt32.ofNat m) (UInt32.ofNat n) ↔ n ≤ m := by
  rw [Int32.le_iff_toInt_le, itimediff_toInt h, Int32.toInt_zero]
  omega

theorem ofNat_eq_iff (h : Near 32 m n) : UInt32.ofNat m = UInt32.ofNat n ↔ m = n := by
  rw [← UInt32.toBitVec_inj]
  exact ofNat_inj h

end

/-! ## The part of the control block that numbers -/

/-- The fields that say what has been sent. -/
structure SendSide where
  una : UInt32
  nxt : UInt32
  wnd : UInt32
  nocwnd : Int32
  queue : List IkcpSeg
  buf : List IkcpSeg

/-- The fields that say what has been received. -/
structure RecvSide where
  nxt : UInt32
  wnd : UInt32
  queue : List IkcpSeg
  buf : List IkcpSeg
  acklist : List (UInt32 × UInt32)

structure Flow where
  send : SendSide
  recv : RecvSide

def Ikcpcb.flow (kcp : Ikcpcb) : Flow where
  send := ⟨kcp.sndUna, kcp.sndNxt, kcp.sndWnd, kcp.nocwnd, kcp.sndQueue, kcp.sndBuf⟩
  recv := ⟨kcp.rcvNxt, kcp.rcvWnd, kcp.rcvQueue, kcp.rcvBuf, kcp.acklist⟩

@[simp] theorem flow_updateAck (kcp : Ikcpcb) (rtt : Int32) :
    (updateAck kcp rtt).flow = kcp.flow := by
  unfold updateAck smoothRtt
  split <;> rfl

@[simp] theorem flow_growWindow (kcp : Ikcpcb) : (growWindow kcp).flow = kcp.flow := by
  unfold growWindow
  dsimp only
  split <;> rfl

@[simp] theorem flow_openWindow (kcp : Ikcpcb) : (openWindow kcp).flow = kcp.flow := by
  unfold openWindow
  split
  · rw [← flow_growWindow kcp]
    generalize growWindow kcp = grown
    dsimp only
    split <;> rfl
  · rfl

@[simp] theorem flow_probeWindow (kcp : Ikcpcb) : (probeWindow kcp).flow = kcp.flow := by
  unfold probeWindow
  split
  · split
    · simp only [Ikcpcb.flow]
    · split <;> simp only [Ikcpcb.flow]
  · rfl

@[simp] theorem flow_updateSsthresh (kcp : Ikcpcb) (c : FlushCount) (resent cwnd : UInt32) :
    (updateSsthresh kcp c resent cwnd).flow = kcp.flow := by
  have hchange : (if c.change then onChange kcp resent else kcp).flow = kcp.flow := by
    split <;> rfl
  have hlost : ∀ kcp : Ikcpcb, (if c.lost then onLost kcp cwnd else kcp).flow = kcp.flow := by
    intro kcp
    split <;> rfl
  have hlast : ∀ kcp : Ikcpcb,
      (if kcp.cwnd < 1 then { kcp with cwnd := 1, incr := kcp.mss } else kcp).flow = kcp.flow := by
    intro kcp
    split <;> rfl
  exact (hlast _).trans ((hlost _).trans hchange)

/-! ## Numbered buffers -/

/-- What a segment carries for the upper layer: `frg` and the data. -/
abbrev Piece := UInt32 × Bytes

def IkcpSeg.piece (seg : IkcpSeg) : Piece := (seg.frg, seg.data)

/-- The segments of a buffer have these numbers, and each the piece that its number calls for. -/
abbrev Numbered (Q : Nat → Piece → Prop) : List IkcpSeg → List Nat → Prop :=
  List.Forall₂ fun seg n => seg.sn = UInt32.ofNat n ∧ Q n seg.piece

section

variable {Q R : Nat → Piece → Prop} {buf buf' : List IkcpSeg} {nums nums' : List Nat}

theorem Numbered.length (h : Numbered Q buf nums) : buf.length = nums.length := h.length_eq

theorem Numbered.mono (h : Numbered Q buf nums) (hQ : ∀ n p, Q n p → R n p) :
    Numbered R buf nums :=
  h.imp fun _ _ hn => ⟨hn.1, hQ _ _ hn.2⟩

theorem Numbered.mem (h : Numbered Q buf nums) {seg : IkcpSeg} (hseg : seg ∈ buf) :
    ∃ n ∈ nums, seg.sn = UInt32.ofNat n ∧ Q n seg.piece := by
  induction h with
  | nil => cases hseg
  | cons hn _ ih =>
      rcases List.mem_cons.mp hseg with rfl | hseg
      · exact ⟨_, List.mem_cons_self .., hn⟩
      · obtain ⟨n, hmem, hn⟩ := ih hseg
        exact ⟨n, List.mem_cons_of_mem _ hmem, hn⟩

theorem Numbered.append (h : Numbered Q buf nums) (h' : Numbered Q buf' nums') :
    Numbered Q (buf ++ buf') (nums ++ nums') := by
  induction h with
  | nil => exact h'
  | cons hn _ ih => exact .cons hn ih

theorem Numbered.reverse (h : Numbered Q buf nums) : Numbered Q buf.reverse nums.reverse :=
  List.forall₂_reverse_iff.mpr h

theorem Numbered.congr (h : Numbered Q buf nums)
    (hsame : buf'.map (fun seg => (seg.sn, seg.piece)) = buf.map fun seg => (seg.sn, seg.piece)) :
    Numbered Q buf' nums := by
  induction h generalizing buf' with
  | nil =>
      cases List.map_eq_nil_iff.mp hsame
      exact .nil
  | cons hn _ ih =>
      cases buf' with
      | nil => cases hsame
      | cons seg' buf' =>
          rw [List.map_cons, List.map_cons, List.cons_eq_cons] at hsame
          obtain ⟨hseg, hrest⟩ := hsame
          obtain ⟨hsn, hpiece⟩ := Prod.mk.inj hseg
          exact .cons ⟨hsn.trans hn.1, hpiece ▸ hn.2⟩ (ih hrest)

theorem Numbered.dropWhile (h : Numbered Q buf nums) (una : UInt32) :
    Numbered Q (buf.dropWhile fun seg => 0 < itimediff una seg.sn)
      (nums.dropWhile fun n => 0 < itimediff una (UInt32.ofNat n)) := by
  induction h with
  | nil => exact .nil
  | @cons seg n buf nums hn hrest ih =>
      rw [List.dropWhile_cons, List.dropWhile_cons, hn.1]
      split
      · exact ih
      · exact .cons hn hrest

theorem Numbered.parseAckLoop (h : Numbered Q buf nums) (sn : UInt32) :
    ∃ nums', Numbered Q (parseAckLoop sn buf) nums' ∧ nums'.Sublist nums ∧
      ∀ i, sn = UInt32.ofNat i → (∀ n ∈ nums, Near 32 i n) → nums.Pairwise (· < ·) →
        ∀ n, n ∈ nums' ↔ n ∈ nums ∧ n ≠ i := by
  induction h with
  | nil => exact ⟨[], .nil, List.Sublist.refl _, fun i _ _ _ n => by simp⟩
  | @cons seg n buf nums hn hrest ih =>
      obtain ⟨nums', hnums', hsub, hexact⟩ := ih
      rw [Kcp.parseAckLoop]
      split
      next heq =>
          refine ⟨nums, hrest, List.sublist_cons_self .., fun i hi hnear hsorted m => ?_⟩
          have hin : i = n := by
            rw [hi, hn.1, ofNat_eq_iff (hnear n (List.mem_cons_self ..))] at heq
            exact heq
          have hlt := (List.pairwise_cons.mp hsorted).1
          rw [List.mem_cons, hin]
          constructor
          · intro hm
            exact ⟨.inr hm, fun he => Nat.lt_irrefl _ (he ▸ hlt m hm)⟩
          · rintro ⟨rfl | hm, hne⟩
            · exact absurd rfl hne
            · exact hm
      next hne =>
          split
          next hneg =>
              refine ⟨n :: nums, .cons hn hrest, List.Sublist.refl _, fun i hi hnear hsorted m => ?_⟩
              rw [hi, hn.1, itimediff_neg (hnear n (List.mem_cons_self ..))] at hneg
              have hlt := (List.pairwise_cons.mp hsorted).1
              constructor
              · intro hm
                refine ⟨hm, ?_⟩
                rintro rfl
                rcases List.mem_cons.mp hm with rfl | hm
                · exact Nat.lt_irrefl _ hneg
                · exact Nat.lt_asymm hneg (hlt m hm)
              · exact And.left
          next =>
              refine ⟨n :: nums', .cons hn hnums', hsub.cons_cons n, fun i hi hnear hsorted m => ?_⟩
              have hrec := hexact i hi (fun m hm => hnear m (List.mem_cons_of_mem _ hm))
                (List.pairwise_cons.mp hsorted).2 m
              have hni : n ≠ i := by
                rintro rfl
                exact hne (hi.trans hn.1.symm)
              rw [List.mem_cons, List.mem_cons, hrec]
              constructor
              · rintro (rfl | ⟨hm, hmi⟩)
                · exact ⟨.inl rfl, hni⟩
                · exact ⟨.inr hm, hmi⟩
              · rintro ⟨rfl | hm, hmi⟩
                · exact .inl rfl
                · exact .inr ⟨hm, hmi⟩

theorem Numbered.parseFastackLoop (h : Numbered Q buf nums) (sn : UInt32) :
    Numbered Q (parseFastackLoop sn buf) nums := by
  refine h.congr ?_
  clear h
  induction buf with
  | nil => rfl
  | cons seg buf ih =>
      rw [Kcp.parseFastackLoop]
      split
      · rfl
      · split
        · rw [List.map_cons, List.map_cons, ih]
          rfl
        · rw [List.map_cons, List.map_cons, ih]

/-- `ikcp_parse_data` searches from the back, so the numbers go down. -/
theorem Numbered.insertBehind (h : Numbered Q buf nums) (hsorted : nums.Pairwise (· > ·)) {i : Nat}
    (hnear : ∀ n ∈ nums, Near 32 i n) {seg : IkcpSeg} (hsn : seg.sn = UInt32.ofNat i)
    (hseg : Q i seg.piece) :
    ∃ nums', Numbered Q ((insertBehind seg buf).getD buf) nums' ∧ nums'.Pairwise (· > ·) ∧
      ∀ n, n ∈ nums' ↔ n = i ∨ n ∈ nums := by
  induction h with
  | nil => exact ⟨[i], .cons ⟨hsn, hseg⟩ .nil, List.pairwise_singleton .., fun n => by simp⟩
  | @cons old n buf nums hn hrest ih =>
      have hni := hnear n (List.mem_cons_self ..)
      obtain ⟨hgt, hdown⟩ := List.pairwise_cons.mp hsorted
      rw [Kcp.insertBehind, hn.1, hsn]
      split
      next heq =>
          have hin : n = i := (ofNat_eq_iff hni.symm).mp heq
          refine ⟨n :: nums, .cons hn hrest, hsorted, fun m => ?_⟩
          rw [List.mem_cons, hin]
          constructor
          · exact .inr
          · rintro (rfl | hm)
            · exact .inl rfl
            · exact hm
      next hne =>
          split
          next hpos =>
              have hlt : n < i := (itimediff_pos hni).mp hpos
              refine ⟨i :: n :: nums, .cons ⟨hsn, hseg⟩ (.cons hn hrest), ?_,
                fun m => List.mem_cons⟩
              refine List.pairwise_cons.mpr ⟨fun m hm => ?_, hsorted⟩
              rcases List.mem_cons.mp hm with rfl | hm
              · exact hlt
              · exact (hgt m hm).trans hlt
          next hpos =>
              have hlt : i < n := by
                have hle : ¬ n < i := fun hlt => hpos ((itimediff_pos hni).mpr hlt)
                have hni' : n ≠ i := fun he => hne ((ofNat_eq_iff hni.symm).mpr he)
                omega
              obtain ⟨nums', hnums', hdown', hmem⟩ :=
                ih hdown fun m hm => hnear m (List.mem_cons_of_mem _ hm)
              have hbuf : ((Kcp.insertBehind seg buf).map (old :: ·)).getD (old :: buf) =
                  old :: (Kcp.insertBehind seg buf).getD buf := by
                cases Kcp.insertBehind seg buf <;> rfl
              refine ⟨n :: nums', hbuf ▸ .cons hn hnums', ?_, fun m => ?_⟩
              · refine List.pairwise_cons.mpr ⟨fun m hm => ?_, hdown'⟩
                rcases (hmem m).mp hm with rfl | hm
                · exact hlt
                · exact hgt m hm
              · rw [List.mem_cons, List.mem_cons, hmem]
                exact or_left_comm

end

theorem queue_lt_wndRcv {k : Nat} (h : k ≤ 8192) : UInt32.ofNat k < wndRcv ↔ k < 8192 := by
  rw [UInt32.lt_iff_toNat_lt, UInt32.toNat_ofNat']
  show k % 2 ^ 32 < 8192 ↔ k < 8192
  omega

/-- What is next moves behind the queue, as far as the queue has room. -/
theorem Numbered.moveAvailable {Q : Nat → Piece → Prop} {buf queue : List IkcpSeg}
    {nums : List Nat} {taken : Nat} (h : Numbered Q buf nums) (hsorted : nums.Pairwise (· < ·))
    (hmem : ∀ n ∈ nums, taken ≤ n ∧ n < taken + 8192) (hq : queue.length ≤ 8192) :
    ∃ segs buf' nums', moveAvailable wndRcv buf queue (UInt32.ofNat taken) =
        (buf', queue ++ segs, UInt32.ofNat (taken + segs.length)) ∧
      Numbered Q segs (List.range' taken segs.length) ∧ Numbered Q buf' nums' ∧
      nums = List.range' taken segs.length ++ nums' ∧ (queue ++ segs).length ≤ 8192 ∧
      (taken + segs.length ∈ nums' → (queue ++ segs).length = 8192) := by
  induction h generalizing taken queue with
  | nil =>
      refine ⟨[], [], [], ?_, .nil, .nil, rfl, ?_, nofun⟩
      · rw [List.append_nil]
        rfl
      · rw [List.append_nil]
        exact hq
  | @cons seg n buf nums hn hrest ih =>
      obtain ⟨hle, hlt⟩ := hmem n (List.mem_cons_self ..)
      obtain ⟨hup, hsorted'⟩ := List.pairwise_cons.mp hsorted
      have hnext : seg.sn = UInt32.ofNat taken ↔ n = taken := by
        rw [hn.1]
        exact ofNat_eq_iff ⟨by omega, by omega⟩
      rw [Kcp.moveAvailable]
      split
      next hmove =>
          obtain rfl := hnext.mp hmove.1
          have hroom := (queue_lt_wndRcv hq).mp hmove.2
          have hone : (queue ++ [seg]).length ≤ 8192 := by
            rw [List.length_append]
            exact hroom
          have hmem' : ∀ m ∈ nums, n + 1 ≤ m ∧ m < n + 1 + 8192 := by
            intro m hm
            have hlow := hup m hm
            have hhigh := (hmem m (List.mem_cons_of_mem _ hm)).2
            omega
          obtain ⟨segs, buf', nums', hmoved, hsegs, hbuf', hnums, hlen, hfull⟩ :=
            ih hsorted' hmem' hone
          have hcount : n + (seg :: segs).length = n + 1 + segs.length := by
            rw [List.length_cons]
            omega
          refine ⟨seg :: segs, buf', nums', ?_, .cons hn hsegs, hbuf', ?_, ?_, ?_⟩
          · rw [hcount, List.append_cons queue seg segs, ← hmoved, UInt32.ofNat_add]
            rfl
          · rw [List.length_cons, List.range'_succ, List.cons_append, hnums]
          · simpa using hlen
          · rw [hcount]
            simpa using hfull
      next hstay =>
          refine ⟨[], seg :: buf, n :: nums, ?_, .nil, .cons hn hrest, rfl, ?_, fun hnxt => ?_⟩
          · rw [List.append_nil]
            rfl
          · rw [List.append_nil]
            exact hq
          · have hn' : n = taken := by
              rcases List.mem_cons.mp hnxt with he | hm
              · exact he.symm
              · have := hup _ hm
                simp only [List.length_nil, Nat.add_zero] at this
                omega
            rw [List.append_nil]
            by_contra hfull
            exact hstay ⟨hnext.mpr hn', (queue_lt_wndRcv hq).mpr (by omega)⟩

end Hprd.Net.Kcp

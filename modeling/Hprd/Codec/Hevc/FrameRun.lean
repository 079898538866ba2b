import Hprd.Codec.Hevc.EncodeFrames

/-!
# Runs of the frame loop

After every frame the static variables of `calc_poc` hold the picture order count of
the last P, I or IDR frame, and the window of reference frames holds that frame and
the one before it. From this follow the picture order count and the reference lists
of the next frame.
-/

namespace Hprd.Codec.Hevc

open Hprd.Core

namespace Periods

variable {q : Periods}

def groupLen (q : Periods) : Nat := if q.intra = 1 then 1 else q.ip

/-- The frames from one IDR frame to the next, 0 if there is no next one. -/
def idrDistance (q : Periods) : Nat := if q.intra = 1 then q.idr else q.seqLen

theorem groupLen_pos : 0 < q.groupLen := by
  unfold groupLen
  split
  · decide
  · exact q.ip_pos

theorem groupLen_le : q.groupLen ≤ q.ip := by
  unfold groupLen
  split
  · exact q.ip_pos
  · exact le_rfl

/-- The type at a position of a sequence, also where every frame is intra. -/
def frameTypeAt (q : Periods) (g : Nat) : FrameType :=
  if q.intra = 1 then if g = 0 then .idr else .i else q.typeAt g

theorem frameTypeAt_eq_idr_iff {g : Nat} : q.frameTypeAt g = .idr ↔ g = 0 := by
  unfold frameTypeAt
  by_cases h : q.intra = 1
  · rw [if_pos h]
    by_cases h0 : g = 0
    · simp [h0]
    · simp [h0]
  · rw [if_neg h, typeAt_eq_idr_iff]

theorem frameTypeAt_eq_b_iff {g : Nat} :
    q.frameTypeAt g = .b ↔ g ≠ 0 ∧ ¬ q.groupLen ∣ g - 1 := by
  unfold frameTypeAt groupLen
  by_cases h : q.intra = 1
  · rw [if_pos h, if_pos h]
    by_cases h0 : g = 0
    · simp [h0]
    · simp [h0]
  · rw [if_neg h, if_neg h, typeAt_eq_b_iff]

theorem head_of_p {g : Nat} (h : q.frameTypeAt g = .p) :
    g ≠ 0 ∧ q.groupLen ∣ g - 1 ∧ q.groupLen = q.ip := by
  have h0 : g ≠ 0 := by
    intro h0
    rw [frameTypeAt_eq_idr_iff.mpr h0] at h
    cases h
  have h1 : q.intra ≠ 1 := by
    intro h1
    rw [frameTypeAt, if_pos h1, if_neg h0] at h
    cases h
  refine ⟨h0, ?_, if_neg h1⟩
  by_contra hd
  rw [frameTypeAt_eq_b_iff.mpr ⟨h0, hd⟩] at h
  cases h

/-- Only where frames other than intra ones are encoded there are B frames. -/
theorem groupLen_of_b {g : Nat} (h : q.frameTypeAt g = .b) : q.groupLen = q.ip := by
  apply if_neg
  intro h1
  rw [frameTypeAt, if_pos h1] at h
  split at h <;> cases h

theorem frame_some {o d : Nat} {t : FrameType} (h : q.frame o = some (d, t))
    (ho : q.intra = 1 ∨ o % q.idrDistance < 2 ^ 31) (hfit : o + q.ip < 2 ^ 64) :
    d = displayOrder q.groupLen q.idrDistance o ∧ t = q.frameTypeAt (o % q.idrDistance) := by
  unfold groupLen idrDistance frameTypeAt at *
  by_cases h1 : q.intra = 1
  · rw [if_pos h1]
    rw [frame_intra h1] at h
    cases h
    rw [if_pos h1, if_pos h1]
    refine ⟨?_, rfl⟩
    have hle := Nat.mod_le o q.idr
    have hself : groupDisplay 1 (o % q.idr) = o % q.idr := by
      unfold groupDisplay
      split
      next h0 => exact h0.symm
      · rw [if_pos (one_dvd _), Nat.add_sub_cancel]
    rw [displayOrder, hself]
    omega
  · rw [if_neg h1] at ho ⊢
    rw [if_neg h1, if_neg h1]
    have hlen : q.seqLen < 2 ^ 31 := by
      by_cases hend : q.Endless
      · rw [seqLen_of_endless hend]
        decide
      · have hidr := q.idr_lt
        by_contra hover
        have hip : q.ip ≠ 1 := by
          intro hip
          rw [seqLen_of_not_endless hend, if_pos hip] at hover
          omega
        rw [seqLen_of_not_endless hend, if_neg hip] at hover
        rw [frame_len_overflow h1 hend hip (by omega)] at h
        cases h
    rw [frame_eq h1 hlen (ho.resolve_left h1) hfit] at h
    cases h
    exact ⟨rfl, rfl⟩

end Periods

/-! ### Positions in a sequence -/

/-- The display position of the last group head up to position `g`. -/
def anchor (p g : Nat) : Nat := if g = 0 then 0 else p * ((g - 1) / p + 1)

section

variable {p g : Nat}

theorem anchor_zero : anchor p 0 = 0 := rfl

theorem dvd_anchor (p g : Nat) : p ∣ anchor p g := by
  unfold anchor
  split
  · exact dvd_zero p
  · exact dvd_mul_right p _

/-- The next head is a whole group further. -/
theorem anchor_head (hp : 0 < p) (h0 : g ≠ 0) (hd : p ∣ g - 1) :
    anchor p g = anchor p (g - 1) + p ∧ groupDisplay p g = anchor p g := by
  obtain ⟨j, hj⟩ := hd
  have hg : anchor p g = p * (j + 1) := by rw [anchor, if_neg h0, hj, Nat.mul_div_cancel_left j hp]
  constructor
  · rw [hg]
    by_cases h1 : g - 1 = 0
    · have hj0 : j = 0 := by
        rw [h1] at hj
        exact (Nat.mul_eq_zero.mp hj.symm).resolve_left (by omega)
      rw [h1, anchor_zero, hj0]
      omega
    · cases j with
      | zero => omega
      | succ j =>
          have hdiv : (g - 1 - 1) / p = j := by
            apply Nat.div_eq_of_lt_le
            · rw [hj, Nat.mul_comm j p, Nat.mul_succ]
              omega
            · rw [hj, Nat.mul_comm (j + 1) p]
              have : 0 < p * (j + 1) := Nat.mul_pos hp (Nat.succ_pos j)
              omega
          rw [anchor, if_neg h1, hdiv, Nat.mul_succ p (j + 1)]
  · rw [hg, groupDisplay, if_neg h0, if_pos ⟨j, hj⟩, Nat.mul_succ]
    omega

/-- A frame inside a group is shown before its head and after the head before. -/
theorem anchor_inside (hp : 0 < p) (h0 : g ≠ 0) (hd : ¬ p ∣ g - 1) :
    anchor p g = anchor p (g - 1) ∧ p ≤ anchor p g ∧ groupDisplay p g % p ≠ 0 ∧
      groupDisplay p g + p = anchor p g + groupDisplay p g % p := by
  have hr : 0 < (g - 1) % p := Nat.pos_of_ne_zero fun h => hd (Nat.dvd_of_mod_eq_zero h)
  have hdm := Nat.div_add_mod (g - 1) p
  have hlt := Nat.mod_lt (g - 1) hp
  have hprev : (g - 1 - 1) / p = (g - 1) / p := by
    apply Nat.div_eq_of_lt_le
    · rw [Nat.mul_comm]
      omega
    · rw [Nat.mul_comm, Nat.mul_succ]
      omega
  rw [groupDisplay, if_neg h0, if_neg hd]
  refine ⟨?_, ?_, hr.ne', ?_⟩
  · rw [anchor, anchor, if_neg h0, if_neg (by omega), hprev]
  · rw [anchor, if_neg h0]
    exact Nat.le_mul_of_pos_right p (Nat.succ_pos _)
  · rw [anchor, if_neg h0, Nat.mul_succ]
    omega

theorem pred_mod {o L : Nat} (h : o % L ≠ 0) : (o - 1) % L = o % L - 1 := by
  rcases Nat.eq_zero_or_pos L with rfl | hL
  · rw [Nat.mod_zero, Nat.mod_zero]
  · have hdm := Nat.div_add_mod o L
    have hlt := Nat.mod_lt o hL
    have heq : o - 1 = L * (o / L) + (o % L - 1) := by omega
    rw [heq, Nat.mul_add_mod, Nat.mod_eq_of_lt (by omega)]

end

/-! ### The picture order count -/

/-- The static variables of `calc_poc` stand for the picture order count `a`. -/
def PocRef (s : Encoder) (a : Nat) : Prop :=
  s.picOrderCntMsbRef = 512 * (a / 512 : Nat) ∧ s.picOrderCntLsbRef = (a % 512 : Nat)

/-- The picture order count that the static variables stand for after a frame. -/
def refAfter (t : FrameType) (a poc : Nat) : Nat := if t = .b then a else poc

/-- A frame is near the reference of its group, and a frame that is no B frame becomes the
reference. -/
theorem Config.poc_near (c : Config) {g : Nat} (h0 : g ≠ 0) :
    groupDisplay c.groupLen g < anchor c.groupLen (g - 1) + 256 ∧
      anchor c.groupLen (g - 1) < groupDisplay c.groupLen g + 256 ∧
      refAfter (c.frameTypeAt g) (anchor c.groupLen (g - 1)) (groupDisplay c.groupLen g) =
        anchor c.groupLen g := by
  have hip := c.ip_le
  have hlen := c.groupLen_le
  have hpos := c.groupLen_pos
  by_cases hb : c.groupLen ∣ g - 1
  · obtain ⟨hnext, hshow⟩ := anchor_head hpos h0 hb
    have htb : c.frameTypeAt g ≠ .b := fun h => (Periods.frameTypeAt_eq_b_iff.mp h).2 hb
    refine ⟨by omega, by omega, ?_⟩
    rw [refAfter, if_neg htb, hshow]
  · obtain ⟨hsame, -, -, hshow⟩ := anchor_inside hpos h0 hb
    have hr := Nat.mod_lt (groupDisplay c.groupLen g) hpos
    have htb : c.frameTypeAt g = .b := Periods.frameTypeAt_eq_b_iff.mpr ⟨h0, hb⟩
    refine ⟨by omega, by omega, ?_⟩
    rw [refAfter, if_pos htb, hsame]

theorem calcPoc_near {t : FrameType} {a poc : Nat} (ht : t ≠ .idr) (h : poc < a + 256)
    (h' : a < poc + 256) (hpoc : poc < 2 ^ 31) :
    calcPoc t (512 * (a / 512 : Nat)) (a % 512 : Nat) (poc % 512 : Nat) =
      some ((poc : Int), 512 * ((refAfter t a poc / 512 : Nat) : Int),
        ((refAfter t a poc % 512 : Nat) : Int)) := by
  have hmax : maxPicOrderCntLsb = 512 := rfl
  have hmsb : (if ((poc % 512 : Nat) : Int) < (a % 512 : Nat) ∧
        ((512 / 2 : Nat) : Int) ≤ (a % 512 : Nat) - (poc % 512 : Nat) then
      wrapInt32 (512 * (a / 512 : Nat) + (512 : Nat))
    else if ((a % 512 : Nat) : Int) < (poc % 512 : Nat) ∧
        ((512 / 2 : Nat) : Int) < (poc % 512 : Nat) - (a % 512 : Nat) then
      wrapInt32 (512 * (a / 512 : Nat) - (512 : Nat))
    else 512 * (a / 512 : Nat)) = 512 * ((poc / 512 : Nat) : Int) := by
    split
    · rw [wrapInt32_of_fits (by omega) (by omega)]
      omega
    · split
      · rw [wrapInt32_of_fits (by omega) (by omega)]
        omega
      · omega
  have hsum : 512 * ((poc / 512 : Nat) : Int) + (poc % 512 : Nat) = poc := by omega
  simp only [calcPoc, if_neg ht, hmax]
  rw [hmsb, hsum, int32_eq_some (by omega) (by omega), Option.map_some]
  by_cases hb : t = .b
  · simp [hb, refAfter]
  · simp [hb, refAfter]

theorem calcPoc_idr (msb lsb : Int) : calcPoc .idr msb lsb 0 = some (0, 0, 0) := by
  simp [calcPoc, maxPicOrderCntLsb, int32]

namespace Encoder

/-- The frame that starts has the picture order count `poc`, and `calc_poc` can find it. -/
structure Knows (s : Encoder) (a poc : Nat) : Prop where
  lsb : s.pocLsb = poc % 512
  idr : s.currentFrameType = .idr → poc = 0
  ref : s.currentFrameType ≠ .idr → PocRef s a ∧ poc < a + 256 ∧ a < poc + 256
  small : poc < 2 ^ 31

def withRef (s : Encoder) (a : Nat) : Encoder :=
  { s with picOrderCntMsbRef := 512 * (a / 512 : Nat), picOrderCntLsbRef := (a % 512 : Nat) }

theorem withRef_ref (s : Encoder) (a : Nat) : PocRef (s.withRef a) a := ⟨rfl, rfl⟩

theorem calcPoc_spec {s : Encoder} {a poc : Nat} (h : s.Knows a poc) :
    s.calcPoc = some ((poc : Int), s.withRef (refAfter s.currentFrameType a poc)) := by
  by_cases ht : s.currentFrameType = .idr
  · have h0 := h.idr ht
    subst h0
    have hlsb : s.pocLsb = 0 := h.lsb
    rw [Encoder.calcPoc, ht, hlsb]
    show (Hevc.calcPoc .idr s.picOrderCntMsbRef s.picOrderCntLsbRef 0).map _ = _
    rw [calcPoc_idr]
    have hafter : refAfter .idr a 0 = 0 := if_neg (by decide)
    rw [hafter, withRef, ht]
    rfl
  · obtain ⟨⟨hmsb, hl⟩, hlt, hgt⟩ := h.ref ht
    rw [Encoder.calcPoc, hmsb, hl, h.lsb, calcPoc_near ht hlt hgt h.small]
    rfl

theorem Knows.again {s : Encoder} {a poc : Nat} (h : s.Knows a poc) :
    (s.withRef (refAfter s.currentFrameType a poc)).Knows
      (refAfter s.currentFrameType a poc) poc := by
  refine ⟨h.lsb, h.idr, fun ht => ⟨withRef_ref _ _, ?_⟩, h.small⟩
  obtain ⟨-, hlt, hgt⟩ := h.ref ht
  unfold refAfter
  split
  · exact ⟨hlt, hgt⟩
  · omega

theorem renderPicture_spec {c : Config} {s s' : Encoder} {a poc : Nat} (h : s.Knows a poc)
    (hs : renderPicture c s = some s') :
    2 * poc < 2 ^ 31 ∧
      s' = { s.withRef (refAfter s.currentFrameType a poc) with
        currentCurrPic := ⟨s.currentPktIdx % SURFACE_NUM, 2 * poc⟩
        idrPicFlag := s.currentFrameType = .idr } := by
  obtain ⟨r, -, hs⟩ := Option.bind_eq_some_iff.mp hs
  rw [calcPoc_spec h, Option.bind_some] at hs
  obtain ⟨pic, hpic, hs⟩ := Option.map_eq_some_iff.mp hs
  obtain ⟨hfit, rfl⟩ := int32_eq_some_iff.mp hpic
  have hmul : (poc : Int) * 2 = 2 * poc := Int.mul_comm _ _
  refine ⟨by omega, ?_⟩
  rw [hmul] at hs
  exact hs.symm

theorem renderPicture_knows {c : Config} {s s' : Encoder} {a poc : Nat} (h : s.Knows a poc)
    (hs : renderPicture c s = some s') : s'.Knows (refAfter s.currentFrameType a poc) poc := by
  have hagain := h.again
  rw [(renderPicture_spec h hs).2]
  exact ⟨hagain.lsb, hagain.idr, hagain.ref, hagain.small⟩

theorem fillSliceHeader_spec {c : Config} {s s' : Encoder} {a poc : Nat} (h : s.Knows a poc)
    (hs : fillSliceHeader c s = some s') :
    s' = { s.withRef (refAfter s.currentFrameType a poc) with
      ssh := sliceHeader c s.currentFrameType s.pps s.numShortTerm poc (poc % c.ip) } := by
  have hpoc : toUInt32 (poc : Int) = poc := toUInt32_natCast (by have := h.small; omega)
  rw [fillSliceHeader, calcPoc_spec h, Option.bind_some] at hs
  dsimp only at hs
  rw [hpoc, unsignedMod_of_pos c.ip_pos, Option.map_some] at hs
  exact (Option.some.inj hs).symm

theorem updateRefPicList_frame {s s' : Encoder} (h : s.updateRefPicList = some s') :
    s' = { s with
      refPicList0P := s'.refPicList0P
      refPicList0B := s'.refPicList0B
      refPicList1B := s'.refPicList1B } := by
  unfold updateRefPicList at h
  dsimp only at h
  split at h
  · obtain ⟨list, -, rfl⟩ := Option.map_eq_some_iff.mp h
    rfl
  · obtain ⟨list0, -, h⟩ := Option.bind_eq_some_iff.mp h
    obtain ⟨list1, -, rfl⟩ := Option.map_eq_some_iff.mp h
    rfl
  · cases h
    rfl

theorem renderSlice_frame {s s' : Encoder} (h : s.renderSlice = some s') :
    s' = { s with
      refPicList0P := s'.refPicList0P
      refPicList0B := s'.refPicList0B
      refPicList1B := s'.refPicList1B
      refPicList0 := s'.refPicList0
      refPicList1 := s'.refPicList1 } := by
  obtain ⟨s₁, hs₁, rfl⟩ := Option.map_eq_some_iff.mp h
  have hframe := updateRefPicList_frame hs₁
  generalize s₁.refPicList0P = l0p, s₁.refPicList0B = l0b, s₁.refPicList1B = l1b at hframe
  subst hframe
  dsimp only
  split <;> rfl

theorem renderSlice_p {s s' : Encoder} (ht : s.currentFrameType = .p)
    (hw : s.numShortTerm = 1 ∨ s.numShortTerm = 2 ∧
      (s.referenceFrames 1).picOrderCnt < (s.referenceFrames 0).picOrderCnt)
    (h : s.renderSlice = some s') : s'.refPicList0 = some (s.referenceFrames 0) := by
  have hsort : sortOne false scanRounds (memcpy s.refPicList0P s.referenceFrames s.numShortTerm) 0
      ((s.numShortTerm : Int) - 1) =
        some (memcpy s.refPicList0P s.referenceFrames s.numShortTerm) := by
    rcases hw with hn | ⟨hn, hlt⟩
    · rw [hn]
      exact sortOne_single (k := 0) (by decide)
    · rw [hn]
      exact sortOne_pair hlt
  have hfirst : memcpy s.refPicList0P s.referenceFrames s.numShortTerm 0 = s.referenceFrames 0 := by
    have hpos : 0 < s.numShortTerm := by omega
    rw [memcpy, if_pos hpos]
  rw [renderSlice, updateRefPicList, ht] at h
  dsimp only at h
  rw [hsort, Option.map_some, Option.map_some] at h
  cases h
  exact congrArg some hfirst

theorem renderSlice_b {s s' : Encoder} (ht : s.currentFrameType = .b) (hn : s.numShortTerm = 2)
    (hpast : (s.referenceFrames 1).picOrderCnt < s.currentCurrPic.picOrderCnt)
    (hfuture : s.currentCurrPic.picOrderCnt < (s.referenceFrames 0).picOrderCnt)
    (h : s.renderSlice = some s') :
    s'.refPicList0 = some (s.referenceFrames 1) ∧
      s'.refPicList1 = some (s.referenceFrames 0) := by
  have hlist0 := @sortTwo_past (memcpy s.refPicList0B s.referenceFrames 2)
    s.currentCurrPic.picOrderCnt hpast hfuture
  have hlist1 := @sortTwo_future (memcpy s.refPicList1B s.referenceFrames 2)
    s.currentCurrPic.picOrderCnt hpast hfuture
  have hright : ((2 : Nat) : Int) - 1 = 1 := by decide
  rw [renderSlice, updateRefPicList, ht] at h
  dsimp only at h
  rw [hn, hright, hlist0, Option.bind_some, hlist1, Option.map_some, Option.map_some] at h
  cases h
  exact ⟨rfl, rfl⟩

/-! ### One round of the loop -/

/-- The window after the frame at position `g` of a sequence with groups of `p` frames. -/
structure Window (s : Encoder) (p g : Nat) : Prop where
  newest : (s.referenceFrames 0).picOrderCnt = 2 * anchor p g
  first : g = 0 → s.numShortTerm = 1
  older : g ≠ 0 → s.numShortTerm = 2 ∧
    (s.referenceFrames 1).picOrderCnt + 2 * p = 2 * anchor p g

/-- What the frame of order `o` is encoded from. -/
structure Ready (c : Config) (o : Nat) (s : Encoder) : Prop where
  order : s.currentFrameEncoding = o
  position : o % c.idrDistance < 2 ^ 31
  small : o % c.idrDistance ≠ 0 → 2 * anchor c.groupLen (o % c.idrDistance - 1) < 2 ^ 31
  idrDisplay : o % c.idrDistance ≠ 0 → s.currentIdrDisplay = o - o % c.idrDistance
  ref : o % c.idrDistance ≠ 0 → PocRef s (anchor c.groupLen (o % c.idrDistance - 1))
  window : o % c.idrDistance ≠ 0 → s.Window c.groupLen (o % c.idrDistance - 1)

/-- What the frame of order `o` leaves, with its position `g` in its sequence. -/
structure Encoded (c : Config) (o g : Nat) (s : Encoder) : Prop where
  order : s.currentFrameEncoding = o + 1
  position : g = o % c.idrDistance
  frameType : s.currentFrameType = c.frameTypeAt g
  idrDisplay : s.currentIdrDisplay = o - g
  pktIdx : s.currentPktIdx = o - g + groupDisplay c.groupLen g
  small : 2 * groupDisplay c.groupLen g < 2 ^ 31
  anchorSmall : 2 * anchor c.groupLen g < 2 ^ 31
  ref : PocRef s (anchor c.groupLen g)
  window : s.Window c.groupLen g
  idrPicFlag : s.idrPicFlag = decide (g = 0)
  sps : s.sps = fillSpsHeader c.ip
  pps : s.pps = fillPpsHeader 0
  ssh : ∃ n, s.ssh = sliceHeader c s.currentFrameType s.pps n (groupDisplay c.groupLen g)
    (groupDisplay c.groupLen g % c.ip)
  listP : s.currentFrameType = .p → ∃ pic, s.refPicList0 = some pic ∧
    pic.picOrderCnt + 2 * c.groupLen = 2 * groupDisplay c.groupLen g
  listB : s.currentFrameType = .b → ∃ past future,
    s.refPicList0 = some past ∧ s.refPicList1 = some future ∧
    past.picOrderCnt + 2 * (groupDisplay c.groupLen g % c.groupLen : Nat) =
      2 * groupDisplay c.groupLen g ∧
    future.picOrderCnt = past.picOrderCnt + 2 * c.groupLen

theorem Encoded.poc {c : Config} {o g : Nat} {s : Encoder} (h : Encoded c o g s) :
    (s.currentPktIdx : Int) - s.currentIdrDisplay = groupDisplay c.groupLen g := by
  rw [h.pktIdx, h.idrDisplay]
  omega

/-- The next frame is encoded from what this one leaves. -/
theorem Encoded.ready {c : Config} {o g : Nat} {s : Encoder} (h : Encoded c o g s) :
    Ready c (o + 1) s := by
  have hg : (o + 1) % c.idrDistance ≠ 0 → (o + 1) % c.idrDistance - 1 = g := by
    intro h0
    have := pred_mod h0
    rw [Nat.add_sub_cancel] at this
    rw [h.position, this]
  have hlt : g < 2 ^ 31 - 1 := by
    have hle : g ≤ groupDisplay c.groupLen g + 1 := by
      unfold groupDisplay
      split
      · omega
      · split <;> omega
    have := h.small
    omega
  refine ⟨h.order, ?_, ?_, ?_, ?_, ?_⟩
  · by_cases h0 : (o + 1) % c.idrDistance = 0
    · omega
    · have := hg h0
      omega
  · intro h0
    rw [hg h0]
    exact h.anchorSmall
  · intro h0
    have hle := Nat.mod_le o c.idrDistance
    rw [h.idrDisplay]
    have := hg h0
    omega
  · intro h0
    rw [hg h0]
    exact h.ref
  · intro h0
    rw [hg h0]
    exact h.window

/-- The state `calc_poc` is called in. -/
theorem Ready.knows {c : Config} {o : Nat} {s : Encoder} (h : Ready c o s)
    (hcount : o < c.frameCount) {d : Nat} {t : FrameType} (hframe : c.frame o = some (d, t)) :
    (fillHeaders c (s.startFrame d t)).Knows (anchor c.groupLen (o % c.idrDistance - 1))
        (groupDisplay c.groupLen (o % c.idrDistance)) ∧
      refAfter t (anchor c.groupLen (o % c.idrDistance - 1))
        (groupDisplay c.groupLen (o % c.idrDistance)) =
          anchor c.groupLen (o % c.idrDistance) ∧
      (s.startFrame d t).currentIdrDisplay = o - o % c.idrDistance ∧
      d = o - o % c.idrDistance + groupDisplay c.groupLen (o % c.idrDistance) ∧
      t = c.frameTypeAt (o % c.idrDistance) := by
  have hcl := c.frameCount_lt
  have hip := c.ip_le
  have hlen := c.groupLen_le
  have hpos := c.groupLen_pos
  have hle := Nat.mod_le o c.idrDistance
  obtain ⟨hd, ht⟩ := Periods.frame_some hframe (.inr h.position) (by omega)
  have hprev := h.ref
  have hsmall := h.small
  have hidr := h.idrDisplay
  rw [displayOrder] at hd
  generalize o % c.idrDistance = g at *
  by_cases h0 : g = 0
  · have hti : t = .idr := by rw [ht, Periods.frameTypeAt_eq_idr_iff, h0]
    have hstart : (s.startFrame d t).currentIdrDisplay = d := by
      rw [startFrame, if_pos hti]
    have hpkt : (s.startFrame d t).currentPktIdx = d := by
      unfold startFrame
      split <;> rfl
    have htype : (s.startFrame d t).currentFrameType = t := by
      unfold startFrame
      split <;> rfl
    subst h0
    have hzero : groupDisplay c.groupLen 0 < 2 ^ 31 := Nat.two_pow_pos 31
    refine ⟨⟨?_, fun _ => rfl, fun hne => absurd (htype.trans hti) hne, hzero⟩, ?_, ?_, hd, ht⟩
    · show toUInt64 (((s.startFrame d t).currentPktIdx : Int) -
        (s.startFrame d t).currentIdrDisplay) % 512 = 0
      rw [hstart, hpkt, Int.sub_self]
      rfl
    · rw [hti]
      rfl
    · rw [hstart, hd]
      rfl
  · have hti : t ≠ .idr := by
      rw [ht]
      exact fun h => h0 (Periods.frameTypeAt_eq_idr_iff.mp h)
    have hf : s.startFrame d t = { s with currentPktIdx := d, currentFrameType := t } := by
      rw [startFrame, if_neg hti]
    have hnear := c.poc_near h0
    rw [← ht] at hnear
    have hs := hsmall h0
    rw [hf]
    refine ⟨⟨?_, fun h => absurd h hti, fun _ => ⟨hprev h0, hnear.1, hnear.2.1⟩, by omega⟩,
      hnear.2.2, hidr h0, hd, ht⟩
    show toUInt64 ((d : Int) - s.currentIdrDisplay) % 512 = _
    have hpoc : (d : Int) - s.currentIdrDisplay = (groupDisplay c.groupLen g : Nat) := by
      rw [hidr h0, hd]
      omega
    rw [hpoc, toUInt64_natCast (by omega)]

/-- The window takes in a frame that is no B frame. -/
theorem updateReferenceFrames_window {s : Encoder} {p g : Nat} (hp : 0 < p)
    (hcur : s.currentCurrPic.picOrderCnt = 2 * groupDisplay p g)
    (hb : s.currentFrameType = .b ↔ g ≠ 0 ∧ ¬ p ∣ g - 1) (hn : g = 0 → s.numShortTerm = 0)
    (hw : g ≠ 0 → s.Window p (g - 1)) : s.updateReferenceFrames.Window p g := by
  by_cases ht : s.currentFrameType = .b
  · obtain ⟨h0, hd⟩ := hb.mp ht
    obtain ⟨hsame, -, -, -⟩ := anchor_inside hp h0 hd
    have h1 : g - 1 ≠ 0 := fun h => hd (h ▸ dvd_zero p)
    have hold := hw h0
    rw [updateReferenceFrames, if_pos ht]
    refine ⟨?_, fun h => absurd h h0, fun _ => ?_⟩
    · rw [hsame]
      exact hold.newest
    · rw [hsame]
      exact hold.older h1
  · rw [updateReferenceFrames, if_neg ht]
    by_cases h0 : g = 0
    · subst h0
      refine ⟨hcur, fun _ => ?_, fun h => absurd rfl h⟩
      show min (s.numShortTerm + 1) 2 = 1
      rw [hn rfl]
      rfl
    · have hd : p ∣ g - 1 := by
        by_contra hd
        exact ht (hb.mpr ⟨h0, hd⟩)
      obtain ⟨hnext, hshow⟩ := anchor_head hp h0 hd
      have hold := hw h0
      have hn : min (s.numShortTerm + 1) numRefFrames = 2 := by
        have hnum : numRefFrames = 2 := rfl
        by_cases h1 : g - 1 = 0
        · rw [hold.first h1]
          rfl
        · rw [(hold.older h1).1]
          rfl
      refine ⟨?_, fun h => absurd h h0, fun _ => ⟨hn, ?_⟩⟩
      · rw [← hshow]
        exact hcur
      · dsimp only
        rw [hn, if_neg (by decide), if_pos (by decide)]
        have hnewest := hold.newest
        show (s.referenceFrames 0).picOrderCnt + 2 * (p : Int) = _
        omega

theorem startFrame_eq (s : Encoder) (d : Nat) (t : FrameType) :
    s.startFrame d t = { s with
      currentPktIdx := d
      currentFrameType := t
      numShortTerm := if t = .idr then 0 else s.numShortTerm
      currentIdrDisplay := if t = .idr then d else s.currentIdrDisplay } := by
  unfold startFrame
  split <;> rfl

theorem refAfter_refAfter (t : FrameType) (a poc : Nat) :
    refAfter t (refAfter t a poc) poc = refAfter t a poc := by
  unfold refAfter
  split <;> rfl

/-- The state in which the reference lists are made. -/
structure Prepared (c : Config) (o g : Nat) (s : Encoder) : Prop where
  order : s.currentFrameEncoding = o
  frameType : s.currentFrameType = c.frameTypeAt g
  idrDisplay : s.currentIdrDisplay = o - g
  pktIdx : s.currentPktIdx = o - g + groupDisplay c.groupLen g
  small : 2 * groupDisplay c.groupLen g < 2 ^ 31
  current : s.currentCurrPic.picOrderCnt = 2 * groupDisplay c.groupLen g
  ref : PocRef s (anchor c.groupLen g)
  idrPicFlag : s.idrPicFlag = decide (g = 0)
  first : g = 0 → s.numShortTerm = 0
  window : g ≠ 0 → s.Window c.groupLen (g - 1)
  sps : s.sps = fillSpsHeader c.ip
  pps : s.pps = fillPpsHeader 0
  ssh : ∃ n, s.ssh = sliceHeader c s.currentFrameType s.pps n (groupDisplay c.groupLen g)
    (groupDisplay c.groupLen g % c.ip)

/-- The picture and the header of a round. -/
theorem Ready.prepared {c : Config} {o : Nat} {s s₁ s₂ : Encoder} (h : Ready c o s)
    (hcount : o < c.frameCount) {d : Nat} {t : FrameType} (hframe : c.frame o = some (d, t))
    (hpic : renderPicture c (fillHeaders c (s.startFrame d t)) = some s₁)
    (hhead : fillSliceHeader c s₁ = some s₂) : Prepared c o (o % c.idrDistance) s₂ := by
  obtain ⟨hknows, hafter, hidr, hd, ht⟩ := h.knows hcount hframe
  have hwindow := h.window
  generalize o % c.idrDistance = g at *
  have hidrType : t = .idr ↔ g = 0 := by rw [ht, Periods.frameTypeAt_eq_idr_iff]
  have hft : (fillHeaders c (s.startFrame d t)).currentFrameType = t := by
    rw [startFrame_eq]
    rfl
  obtain ⟨hsmall, hs₁⟩ := renderPicture_spec hknows hpic
  have hknows₁ := renderPicture_knows hknows hpic
  rw [hft, hafter] at hs₁ hknows₁
  have hs₂ := fillSliceHeader_spec hknows₁ hhead
  have htype₁ : s₁.currentFrameType = t := by
    rw [hs₁]
    exact hft
  have hstill : refAfter t (anchor c.groupLen g) (groupDisplay c.groupLen g) =
      anchor c.groupLen g := by
    rw [← hafter, refAfter_refAfter]
  rw [htype₁, hstill, hs₁, startFrame_eq] at hs₂
  rw [startFrame_eq] at hidr
  rw [hs₂]
  constructor
  case order => exact h.order
  case frameType => exact ht
  case idrDisplay => exact hidr
  case pktIdx => exact hd
  case small => exact hsmall
  case current => rfl
  case ref => exact ⟨rfl, rfl⟩
  case idrPicFlag => exact decide_eq_decide.mpr hidrType
  case first =>
    intro h0
    exact if_pos (hidrType.mpr h0)
  case window =>
    intro h0
    have hnum : (if t = .idr then 0 else s.numShortTerm) = s.numShortTerm :=
      if_neg (fun h => h0 (hidrType.mp h))
    obtain ⟨hnew, hfirst, holder⟩ := hwindow h0
    exact ⟨hnew, fun h => hnum.trans (hfirst h), fun h => ⟨hnum.trans (holder h).1, (holder h).2⟩⟩
  case sps => rfl
  case pps => rfl
  case ssh => exact ⟨_, rfl⟩

theorem updateReferenceFrames_frame (s : Encoder) :
    s.updateReferenceFrames = { s with
      numShortTerm := s.updateReferenceFrames.numShortTerm
      referenceFrames := s.updateReferenceFrames.referenceFrames } := by
  unfold updateReferenceFrames
  split <;> rfl

theorem Prepared.listP {c : Config} {o g : Nat} {s s' : Encoder} (h : Prepared c o g s)
    (hs : s.renderSlice = some s') (ht : s.currentFrameType = .p) :
    ∃ pic, s'.refPicList0 = some pic ∧
      pic.picOrderCnt + 2 * c.groupLen = 2 * groupDisplay c.groupLen g := by
  have hpos := c.groupLen_pos
  obtain ⟨h0, hd, -⟩ := Periods.head_of_p (h.frameType.symm.trans ht)
  obtain ⟨hnext, hshow⟩ := anchor_head hpos h0 hd
  obtain ⟨hnew, hfirst, holder⟩ := h.window h0
  have hw : s.numShortTerm = 1 ∨ s.numShortTerm = 2 ∧
      (s.referenceFrames 1).picOrderCnt < (s.referenceFrames 0).picOrderCnt := by
    by_cases h1 : g - 1 = 0
    · exact Or.inl (hfirst h1)
    · obtain ⟨hn, hold⟩ := holder h1
      exact Or.inr ⟨hn, by omega⟩
  exact ⟨_, renderSlice_p ht hw hs, by omega⟩

theorem Prepared.between {c : Config} {o g : Nat} {s : Encoder} (h : Prepared c o g s)
    (ht : s.currentFrameType = .b) :
    s.numShortTerm = 2 ∧
      (s.referenceFrames 1).picOrderCnt < s.currentCurrPic.picOrderCnt ∧
      s.currentCurrPic.picOrderCnt < (s.referenceFrames 0).picOrderCnt ∧
      (s.referenceFrames 1).picOrderCnt + 2 * (groupDisplay c.groupLen g % c.groupLen : Nat) =
        2 * groupDisplay c.groupLen g ∧
      (s.referenceFrames 0).picOrderCnt =
        (s.referenceFrames 1).picOrderCnt + 2 * c.groupLen := by
  have hpos := c.groupLen_pos
  obtain ⟨h0, hd⟩ := Periods.frameTypeAt_eq_b_iff.mp (h.frameType.symm.trans ht)
  have h1 : g - 1 ≠ 0 := fun h1 => hd (h1 ▸ dvd_zero _)
  obtain ⟨hsame, hle, hr, hshow⟩ := anchor_inside hpos h0 hd
  have hlt := Nat.mod_lt (groupDisplay c.groupLen g) hpos
  obtain ⟨hnew, -, holder⟩ := h.window h0
  obtain ⟨hn, hold⟩ := holder h1
  have hcur := h.current
  exact ⟨hn, by omega, by omega, by omega, by omega⟩

theorem Prepared.listB {c : Config} {o g : Nat} {s s' : Encoder} (h : Prepared c o g s)
    (hs : s.renderSlice = some s') (ht : s.currentFrameType = .b) :
    ∃ past future, s'.refPicList0 = some past ∧ s'.refPicList1 = some future ∧
      past.picOrderCnt + 2 * (groupDisplay c.groupLen g % c.groupLen : Nat) =
        2 * groupDisplay c.groupLen g ∧
      future.picOrderCnt = past.picOrderCnt + 2 * c.groupLen := by
  obtain ⟨hn, hpast, hfuture, hshow, hlen⟩ := h.between ht
  obtain ⟨h₀, h₁⟩ := renderSlice_b ht hn hpast hfuture hs
  exact ⟨_, _, h₀, h₁, hshow, hlen⟩

theorem encodeFrame_encoded {c : Config} {o : Nat} {s s' : Encoder} (h : Ready c o s)
    (hs : encodeFrame c s = some s') : Encoded c o (o % c.idrDistance) s' := by
  obtain ⟨hcount, hs⟩ := Option.ite_none_right_eq_some.mp hs
  obtain ⟨⟨d, t⟩, hframe, hs⟩ := Option.bind_eq_some_iff.mp hs
  obtain ⟨s₁, hpic, hs⟩ := Option.bind_eq_some_iff.mp hs
  obtain ⟨s₂, hhead, hs⟩ := Option.bind_eq_some_iff.mp hs
  obtain ⟨s₃, hslice, rfl⟩ := Option.map_eq_some_iff.mp hs
  rw [h.order] at hcount hframe
  have hprep := h.prepared hcount hframe hpic hhead
  have hlistP := hprep.listP hslice
  have hlistB := hprep.listB hslice
  have h₃ := renderSlice_frame hslice
  have hbefore := h.small
  clear hslice hhead hpic
  generalize hg : o % c.idrDistance = g at *
  generalize s₃.refPicList0P = l0p, s₃.refPicList0B = l0b, s₃.refPicList1B = l1b,
    s₃.refPicList0 = l0, s₃.refPicList1 = l1 at *
  generalize hX : ({ s₂ with
    refPicList0P := l0p, refPicList0B := l0b, refPicList1B := l1b
    refPicList0 := l0, refPicList1 := l1 } : Encoder) = x at h₃
  subst h₃
  have hpos := c.groupLen_pos
  have htype : s₃.currentFrameType = c.frameTypeAt g := hX ▸ hprep.frameType
  have hcur : s₃.currentCurrPic.picOrderCnt = 2 * groupDisplay c.groupLen g := hX ▸ hprep.current
  have hfirst : g = 0 → s₃.numShortTerm = 0 := hX ▸ hprep.first
  have hold : g ≠ 0 → s₃.Window c.groupLen (g - 1) := fun h0 => by
    obtain ⟨hn, hf, ho⟩ := hprep.window h0
    rw [← hX]
    exact ⟨hn, hf, ho⟩
  have hb : s₃.currentFrameType = .b ↔ g ≠ 0 ∧ ¬ c.groupLen ∣ g - 1 := by
    rw [htype, Periods.frameTypeAt_eq_b_iff]
  obtain ⟨hnew, hone, htwo⟩ := updateReferenceFrames_window hpos hcur hb hfirst hold
  have hupdate := updateReferenceFrames_frame s₃
  generalize s₃.updateReferenceFrames.numShortTerm = n,
    s₃.updateReferenceFrames.referenceFrames = r at *
  rw [hupdate, ← hX]
  have hsmall := hprep.small
  have hanchor : 2 * anchor c.groupLen g < 2 ^ 31 := by
    by_cases h0 : g = 0
    · rw [h0, anchor_zero]
      decide
    · by_cases hd : c.groupLen ∣ g - 1
      · rw [← (anchor_head hpos h0 hd).2]
        exact hsmall
      · rw [(anchor_inside hpos h0 hd).1]
        exact hbefore h0
  constructor
  case order => exact congrArg (· + 1) hprep.order
  case position => exact hg.symm
  case frameType => exact hprep.frameType
  case idrDisplay => exact hprep.idrDisplay
  case pktIdx => exact hprep.pktIdx
  case small => exact hsmall
  case anchorSmall => exact hanchor
  case ref => exact hprep.ref
  case window => exact ⟨hnew, hone, htwo⟩
  case idrPicFlag => exact hprep.idrPicFlag
  case sps => exact hprep.sps
  case pps => exact hprep.pps
  case ssh => exact hprep.ssh
  case listP => exact hlistP
  case listB => exact hlistB

theorem Prepared.renderSlice_isSome {c : Config} {o g : Nat} {s : Encoder} (h : Prepared c o g s) :
    s.renderSlice.isSome := by
  have hpos := c.groupLen_pos
  rw [renderSlice, Option.isSome_map, updateRefPicList]
  dsimp only
  split
  next ht =>
    obtain ⟨h0, -, -⟩ := Periods.head_of_p (h.frameType.symm.trans ht)
    obtain ⟨hnew, hfirst, holder⟩ := h.window h0
    by_cases h1 : g - 1 = 0
    · have hsort : sortOne false scanRounds
          (memcpy s.refPicList0P s.referenceFrames s.numShortTerm) 0 0 = some _ :=
        sortOne_single (k := 0) (by decide)
      have hright : ((1 : Nat) : Int) - 1 = 0 := by decide
      rw [hfirst h1] at hsort ⊢
      rw [hright, hsort]
      rfl
    · obtain ⟨hn, hold⟩ := holder h1
      have hsort : sortOne false scanRounds (memcpy s.refPicList0P s.referenceFrames 2) 0 1 =
          some _ := sortOne_pair (by
        show (s.referenceFrames 1).picOrderCnt < (s.referenceFrames 0).picOrderCnt
        omega)
      have hright : ((2 : Nat) : Int) - 1 = 1 := by decide
      rw [hn, hright, hsort]
      rfl
  next ht =>
    obtain ⟨hn, hpast, hfuture, -⟩ := h.between ht
    have hright : ((2 : Nat) : Int) - 1 = 1 := by decide
    have hlist0 := @sortTwo_past (memcpy s.refPicList0B s.referenceFrames 2)
      s.currentCurrPic.picOrderCnt hpast hfuture
    have hlist1 := @sortTwo_future (memcpy s.refPicList1B s.referenceFrames 2)
      s.currentCurrPic.picOrderCnt hpast hfuture
    rw [hn, hright, hlist0, Option.bind_some, hlist1]
    rfl
  · rfl

/-- A round comes to its end when its frame has an order and its count fits an `int` twice. -/
theorem Ready.encodeFrame_isSome {c : Config} {o : Nat} {s : Encoder} (h : Ready c o s)
    (hcount : o < c.frameCount) (hintra : c.intra ≠ 0) (hframe : (c.frame o).isSome)
    (hfit : 2 * groupDisplay c.groupLen (o % c.idrDistance) < 2 ^ 31) :
    (encodeFrame c s).isSome := by
  obtain ⟨⟨d, t⟩, hdt⟩ := Option.isSome_iff_exists.mp hframe
  obtain ⟨hknows, -, -, -, -⟩ := h.knows hcount hdt
  have hmod : ∃ r, unsignedMod ((fillHeaders c (s.startFrame d t)).currentFrameEncoding + 1)
      (toUInt64 c.intra) = some r := by
    have hlt := c.intra_lt
    rw [toUInt64_natCast (by omega), unsignedMod_of_pos (by omega)]
    exact ⟨_, rfl⟩
  have hpic : ∃ s₁, renderPicture c (fillHeaders c (s.startFrame d t)) = some s₁ := by
    obtain ⟨r, hr⟩ := hmod
    rw [renderPicture, hr, Option.bind_some, calcPoc_spec hknows, Option.bind_some]
    dsimp only
    rw [int32_eq_some (by omega) (by omega)]
    exact ⟨_, rfl⟩
  obtain ⟨s₁, hs₁⟩ := hpic
  have hhead : ∃ s₂, fillSliceHeader c s₁ = some s₂ := by
    rw [fillSliceHeader, calcPoc_spec (renderPicture_knows hknows hs₁), Option.bind_some]
    dsimp only
    rw [unsignedMod_of_pos c.ip_pos]
    exact ⟨_, rfl⟩
  obtain ⟨s₂, hs₂⟩ := hhead
  have hslice := (h.prepared hcount hdt hs₁ hs₂).renderSlice_isSome
  rw [encodeFrame, h.order, if_pos hcount, hdt, Option.bind_some]
  dsimp only
  rw [hs₁, Option.bind_some, hs₂, Option.bind_some, Option.isSome_map]
  exact hslice

theorem ready_start (c : Config) (s : Encoder) : Ready c 0 { s with currentFrameEncoding := 0 } := by
  have h0 : ∀ L, 0 % L = 0 := Nat.zero_mod
  refine ⟨rfl, ?_, ?_, ?_, ?_, ?_⟩
  · rw [h0]
    exact Nat.two_pow_pos 31
  · exact fun h => absurd (h0 _) h
  · exact fun h => absurd (h0 _) h
  · exact fun h => absurd (h0 _) h
  · exact fun h => absurd (h0 _) h

/-- Every run leaves the encoder ready for its next frame. -/
theorem encodeFrames_ready {c : Config} {n : Nat} {s₀ s : Encoder}
    (h : encodeFrames c n s₀ = some s) : Ready c n s := by
  induction n generalizing s with
  | zero =>
      cases h
      exact ready_start c s₀
  | succ n ih =>
      obtain ⟨s₁, hrun, hstep⟩ := Option.bind_eq_some_iff.mp h
      exact (encodeFrame_encoded (ih hrun) hstep).ready

/-- What the last frame of a run leaves. -/
theorem encodeFrames_encoded {c : Config} {n : Nat} {s₀ s : Encoder}
    (h : encodeFrames c (n + 1) s₀ = some s) : Encoded c n (n % c.idrDistance) s := by
  obtain ⟨s₁, hrun, hstep⟩ := Option.bind_eq_some_iff.mp h
  exact encodeFrame_encoded (encodeFrames_ready hrun) hstep

end Encoder

end Hprd.Codec.Hevc

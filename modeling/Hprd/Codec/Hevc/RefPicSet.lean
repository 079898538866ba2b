import Hprd.Codec.Hevc.FrameRun

/-!
# The signalled reference pictures

A short-term reference picture set lists differences to the current picture order
count, first those of earlier pictures and then those of later ones. The set whose
index a slice header carries denotes the pictures the reference lists start with.
-/

namespace Hprd.Codec.Hevc

open Hprd.Core

namespace ShortTermRefPicParamSet

def deltaPocS0 (strp : ShortTermRefPicParamSet) : Nat → Int
  | 0 => -(strp.deltaPocS0Minus1 0 + 1)
  | i + 1 => strp.deltaPocS0 i - (strp.deltaPocS0Minus1 (i + 1) + 1)

def deltaPocS1 (strp : ShortTermRefPicParamSet) : Nat → Int
  | 0 => strp.deltaPocS1Minus1 0 + 1
  | i + 1 => strp.deltaPocS1 i + (strp.deltaPocS1Minus1 (i + 1) + 1)

/-- The earlier pictures the current one refers to. -/
def before (strp : ShortTermRefPicParamSet) (poc : Int) : List Int :=
  ((List.range strp.numNegativePics).filter fun i => strp.usedByCurrPicS0Flag i ≠ 0).map
    fun i => poc + strp.deltaPocS0 i

/-- The later pictures the current one refers to. -/
def after (strp : ShortTermRefPicParamSet) (poc : Int) : List Int :=
  ((List.range strp.numPositivePics).filter fun i => strp.usedByCurrPicS1Flag i ≠ 0).map
    fun i => poc + strp.deltaPocS1 i

end ShortTermRefPicParamSet

/-- The first set is that of the group heads. -/
theorem fillShortTermRefPicHeader_zero {ip : Nat} (hpos : 0 < ip) (hip : ip ≤ 64) (poc : Int) :
    (fillShortTermRefPicHeader ip 0).before poc = [poc - ip] ∧
      (fillShortTermRefPicHeader ip 0).after poc = [] := by
  have hdelta : toUInt32 ((ip : Int) - 1) = ip - 1 := by
    unfold toUInt32
    omega
  constructor
  · have hsum : poc + -(((ip - 1 : Nat) : Int) + 1) = poc - ip := by omega
    rw [← hsum, ← hdelta]
    rfl
  · rfl

/-- The others are those of the frames inside a group. -/
theorem fillShortTermRefPicHeader_pos {ip k : Nat} (hk : 0 < k) (hkip : k < ip) (hip : ip ≤ 64)
    (poc : Int) :
    (fillShortTermRefPicHeader ip k).before poc = [poc - k] ∧
      (fillShortTermRefPicHeader ip k).after poc = [poc - k + ip] := by
  have hpast : toUInt32 ((k : Int) - 1) = k - 1 := by
    unfold toUInt32
    omega
  have hfuture : toUInt32 ((ip : Int) - 1 - k) = ip - 1 - k := by
    unfold toUInt32
    omega
  have hk0 : k ≠ 0 := by omega
  have hip1 : 1 < ip := by omega
  constructor
  · have hsum : poc + -(((k - 1 : Nat) : Int) + 1) = poc - k := by omega
    rw [← hsum, ← hpast]
    simp only [ShortTermRefPicParamSet.before, fillShortTermRefPicHeader, if_neg hk0]
    rfl
  · have hsum : poc + (((ip - 1 - k : Nat) : Int) + 1) = poc - k + ip := by omega
    rw [← hsum, ← hfuture]
    simp only [ShortTermRefPicParamSet.after, fillShortTermRefPicHeader, if_neg hk0, if_pos hip1]
    rfl

/-- The reference lists of a frame start with the pictures that its set denotes. -/
structure ListsMatch (c : Config) (s : Encoder) : Prop where
  /-- A P frame refers to the head of the group before. -/
  frameP : s.currentFrameType = .p →
    let poc : Int := s.currentPktIdx - s.currentIdrDisplay
    let strp := s.sps.strp s.ssh.shortTermRefPicSetIdx
    ∃ pic, s.refPicList0 = some pic ∧ pic.picOrderCnt = 2 * (poc - c.ip) ∧
      (strp.before poc).map (2 * ·) = [pic.picOrderCnt] ∧ strp.after poc = []
  /-- A B frame refers to the heads on both sides. -/
  frameB : s.currentFrameType = .b →
    let poc : Int := s.currentPktIdx - s.currentIdrDisplay
    let k := poc % c.ip
    let strp := s.sps.strp s.ssh.shortTermRefPicSetIdx
    ∃ past future, s.refPicList0 = some past ∧ s.refPicList1 = some future ∧
      past.picOrderCnt = 2 * (poc - k) ∧ future.picOrderCnt = 2 * (poc - k + c.ip) ∧
      (strp.before poc).map (2 * ·) = [past.picOrderCnt] ∧
      (strp.after poc).map (2 * ·) = [future.picOrderCnt]

namespace Encoder

theorem Encoded.strp {c : Config} {o g : Nat} {s : Encoder} (h : Encoded c o g s) :
    s.sps.strp s.ssh.shortTermRefPicSetIdx =
      fillShortTermRefPicHeader c.ip (groupDisplay c.groupLen g % c.ip) := by
  obtain ⟨n, hssh⟩ := h.ssh
  have hlt := Nat.mod_lt (groupDisplay c.groupLen g) c.ip_pos
  have hip := c.ip_le
  have hmin : groupDisplay c.groupLen g % c.ip < min c.ip 64 := by
    rw [Nat.min_eq_left hip]
    exact hlt
  rw [h.sps, hssh]
  exact if_pos hmin

end Encoder

/-- In every run the reference lists match the signalled sets. -/
theorem encodeFrames_listsMatch (c : Config) (n : Nat) (s₀ s : Encoder)
    (h : s₀.encodeFrames c (n + 1) = some s) : ListsMatch c s := by
  have henc := Encoder.encodeFrames_encoded h
  generalize n % c.idrDistance = g at henc
  have hip := c.ip_pos
  have hle := c.ip_le
  constructor
  case frameP =>
    intro ht poc strp
    have hpoc : poc = groupDisplay c.groupLen g := henc.poc
    obtain ⟨h0, hd, hlen⟩ := Periods.head_of_p (henc.frameType.symm.trans ht)
    obtain ⟨pic, hpic, hcnt⟩ := henc.listP ht
    have hidx : groupDisplay c.groupLen g % c.ip = 0 := by
      rw [(anchor_head c.groupLen_pos h0 hd).2, hlen]
      exact Nat.mod_eq_zero_of_dvd (dvd_anchor c.ip g)
    have hstrp : strp = fillShortTermRefPicHeader c.ip 0 := by
      rw [← hidx]
      exact henc.strp
    obtain ⟨hbefore, hafter⟩ := fillShortTermRefPicHeader_zero hip hle poc
    have heq : pic.picOrderCnt = 2 * (poc - c.ip) := by
      rw [hlen] at hcnt hpoc
      omega
    refine ⟨pic, hpic, heq, ?_, ?_⟩
    · rw [hstrp, hbefore, heq]
      rfl
    · rw [hstrp, hafter]
  case frameB =>
    intro ht poc k strp
    have hpoc : poc = groupDisplay c.groupLen g := henc.poc
    have hb := henc.frameType.symm.trans ht
    obtain ⟨h0, hd⟩ := Periods.frameTypeAt_eq_b_iff.mp hb
    have hlen := Periods.groupLen_of_b hb
    obtain ⟨past, future, hpast, hfuture, hcnt, hnext⟩ := henc.listB ht
    have hpos := Nat.pos_of_ne_zero (anchor_inside c.groupLen_pos h0 hd).2.2.1
    rw [hlen] at hcnt hnext hpos hpoc
    have hk : k = (groupDisplay c.ip g % c.ip : Nat) := by
      show poc % c.ip = _
      rw [hpoc]
      rfl
    have hstrp : strp = fillShortTermRefPicHeader c.ip (groupDisplay c.ip g % c.ip) := by
      have hset := henc.strp
      rw [hlen] at hset
      exact hset
    obtain ⟨hbefore, hafter⟩ := fillShortTermRefPicHeader_pos hpos (Nat.mod_lt _ hip) hle poc
    rw [← hk] at hbefore hafter
    have hpasteq : past.picOrderCnt = 2 * (poc - k) := by
      rw [hpoc, hk]
      omega
    have hfutureeq : future.picOrderCnt = 2 * (poc - k + c.ip) := by omega
    refine ⟨past, future, hpast, hfuture, hpasteq, hfutureeq, ?_, ?_⟩
    · rw [hstrp, hbefore, hpasteq]
      rfl
    · rw [hstrp, hafter, hfutureeq]
      rfl

/-- 7/21/3: the sixth frame is a B frame between the displaying orders 3 and 6. -/
theorem encodeFrames_listsMatch_7_21_3 :
    let c : Config := ⟨⟨7, 21, 3, by decide, by decide, by decide, by decide, by decide⟩,
      by decide, 60, by decide, 640, 480⟩
    ∃ s, Encoder.idle.encodeFrames c 6 = some s ∧ s.currentPktIdx = 4 ∧
      s.currentFrameType = .b ∧ ListsMatch c s := by
  intro c
  have hrun : (Encoder.idle.encodeFrames c 6).map
      (fun s => (s.currentPktIdx, s.currentFrameType)) = some (4, .b) := by decide +kernel
  obtain ⟨s, hs, heq⟩ := Option.map_eq_some_iff.mp hrun
  exact ⟨s, hs, congrArg Prod.fst heq, congrArg Prod.snd heq,
    encodeFrames_listsMatch c 5 Encoder.idle s hs⟩

end Hprd.Codec.Hevc

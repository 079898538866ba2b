import Hprd.Codec.Hevc.FrameRun

/-!
# The calls of `calc_poc` over a run

What `calc_poc` reads is written at the head of a round and by the function itself.
So the rounds are followed here with nothing else in them: a run is not cut short by
a picture order count whose double leaves `int`. The upper half that is kept in a
static variable may wrap; a B frame behind a P frame whose count no longer fits is
still told right.
-/

namespace Hprd.Codec.Hevc

open Hprd.Core

namespace Encoder

def pocCalls (s : Encoder) : Option ((Int × Int) × Encoder) :=
  s.calcPoc.bind fun (poc, s) => s.calcPoc.map fun (again, s) => ((poc, again), s)

def pocFrame (c : Config) (s : Encoder) : Option ((Int × Int) × Encoder) :=
  if s.currentFrameEncoding < c.frameCount then
    (c.frame s.currentFrameEncoding).bind fun (displayingOrder, frameType) =>
    (s.startFrame displayingOrder frameType).pocCalls.map fun (pocs, s) =>
      (pocs, { s with currentFrameEncoding := s.currentFrameEncoding + 1 })
  else none

def pocFrames (c : Config) : Nat → Encoder → Option Encoder
  | 0, s => some { s with currentFrameEncoding := 0 }
  | n + 1, s => (pocFrames c n s).bind fun s => (pocFrame c s).map Prod.snd

/-! ### The loop makes these calls -/

/-- What `calc_poc` and the head of a round read and write. -/
structure SamePoc (s t : Encoder) : Prop where
  order : s.currentFrameEncoding = t.currentFrameEncoding
  pktIdx : s.currentPktIdx = t.currentPktIdx
  idrDisplay : s.currentIdrDisplay = t.currentIdrDisplay
  frameType : s.currentFrameType = t.currentFrameType
  msbRef : s.picOrderCntMsbRef = t.picOrderCntMsbRef
  lsbRef : s.picOrderCntLsbRef = t.picOrderCntLsbRef

section

variable {c : Config} {s s' t : Encoder}

theorem SamePoc.calcPoc (h : SamePoc s t) {poc : Int} (hs : s.calcPoc = some (poc, s')) :
    ∃ t', t.calcPoc = some (poc, t') ∧ SamePoc s' t' := by
  obtain ⟨⟨p, msb, lsb⟩, hp, he⟩ := Option.map_eq_some_iff.mp hs
  cases he
  have hlsb : t.pocLsb = s.pocLsb := by rw [pocLsb, pocLsb, h.pktIdx, h.idrDisplay]
  refine ⟨{ t with picOrderCntMsbRef := msb, picOrderCntLsbRef := lsb }, ?_,
    ⟨h.order, h.pktIdx, h.idrDisplay, h.frameType, rfl, rfl⟩⟩
  rw [Encoder.calcPoc, hlsb, ← h.frameType, ← h.msbRef, ← h.lsbRef, hp]
  rfl

theorem SamePoc.startFrame (h : SamePoc s t) (d : Nat) (ty : FrameType) :
    SamePoc (fillHeaders c (s.startFrame d ty)) (t.startFrame d ty) := by
  rw [startFrame_eq, startFrame_eq]
  refine ⟨h.order, rfl, ?_, rfl, h.msbRef, h.lsbRef⟩
  show (if ty = .idr then d else s.currentIdrDisplay) = if ty = .idr then d else t.currentIdrDisplay
  rw [h.idrDisplay]

theorem SamePoc.encodeFrame (h : SamePoc s t) (hs : encodeFrame c s = some s') :
    ∃ pocs t', pocFrame c t = some (pocs, t') ∧ SamePoc s' t' := by
  obtain ⟨hcount, hs⟩ := Option.ite_none_right_eq_some.mp hs
  obtain ⟨⟨d, ty⟩, hframe, hs⟩ := Option.bind_eq_some_iff.mp hs
  obtain ⟨s₁, hpic, hs⟩ := Option.bind_eq_some_iff.mp hs
  obtain ⟨s₂, hhead, hs⟩ := Option.bind_eq_some_iff.mp hs
  obtain ⟨s₃, hslice, rfl⟩ := Option.map_eq_some_iff.mp hs
  obtain ⟨r, -, hpic⟩ := Option.bind_eq_some_iff.mp hpic
  obtain ⟨⟨poc, x⟩, hcall, hpic⟩ := Option.bind_eq_some_iff.mp hpic
  obtain ⟨pic, -, rfl⟩ := Option.map_eq_some_iff.mp hpic
  obtain ⟨⟨again, y⟩, hcall', hhead⟩ := Option.bind_eq_some_iff.mp hhead
  obtain ⟨idx, -, rfl⟩ := Option.map_eq_some_iff.mp hhead
  obtain ⟨t₁, ht₁, h₁⟩ := (h.startFrame d ty).calcPoc hcall
  have h₁' : SamePoc { x with
      currentCurrPic := ⟨x.currentPktIdx % SURFACE_NUM, pic⟩
      idrPicFlag := x.currentFrameType = .idr } t₁ :=
    ⟨h₁.order, h₁.pktIdx, h₁.idrDisplay, h₁.frameType, h₁.msbRef, h₁.lsbRef⟩
  obtain ⟨t₂, ht₂, h₂⟩ := h₁'.calcPoc hcall'
  have hkept := renderSlice_frame hslice
  refine ⟨(poc, again), { t₂ with currentFrameEncoding := t₂.currentFrameEncoding + 1 }, ?_, ?_⟩
  · rw [pocFrame, ← h.order, if_pos hcount, hframe, Option.bind_some]
    dsimp only
    rw [pocCalls, ht₁, Option.bind_some]
    dsimp only
    rw [ht₂]
    rfl
  · rw [updateReferenceFrames_frame, hkept]
    exact ⟨congrArg (· + 1) h₂.order, h₂.pktIdx, h₂.idrDisplay, h₂.frameType, h₂.msbRef,
      h₂.lsbRef⟩

/-- Every run of `encode_frames` is such a run. -/
theorem encodeFrames_pocFrames {n : Nat} {s₀ : Encoder} (h : s₀.encodeFrames c n = some s) :
    ∃ t, s₀.pocFrames c n = some t ∧ SamePoc s t := by
  induction n generalizing s with
  | zero =>
      cases h
      exact ⟨_, rfl, ⟨rfl, rfl, rfl, rfl, rfl, rfl⟩⟩
  | succ n ih =>
      obtain ⟨s₁, hrun, hstep⟩ := Option.bind_eq_some_iff.mp h
      obtain ⟨t₁, ht₁, h₁⟩ := ih hrun
      obtain ⟨pocs, t, ht, hsame⟩ := h₁.encodeFrame hstep
      refine ⟨t, ?_, hsame⟩
      rw [pocFrames, ht₁, Option.bind_some, ht]
      rfl

end

/-! ### What they return -/

end Encoder

theorem calcPoc_wrapped {t : FrameType} {a poc : Nat} (ht : t ≠ .idr) (h : poc < a + 256)
    (h' : a < poc + 256) :
    calcPoc t (wrapInt32 (512 * (a / 512 : Nat))) (a % 512 : Nat) (poc % 512 : Nat) =
      some (wrapInt32 poc, wrapInt32 (512 * ((refAfter t a poc / 512 : Nat) : Int)),
        ((refAfter t a poc % 512 : Nat) : Int)) := by
  have hmax : maxPicOrderCntLsb = 512 := rfl
  have hmsb : (if ((poc % 512 : Nat) : Int) < (a % 512 : Nat) ∧
        ((512 / 2 : Nat) : Int) ≤ (a % 512 : Nat) - (poc % 512 : Nat) then
      wrapInt32 (wrapInt32 (512 * (a / 512 : Nat)) + (512 : Nat))
    else if ((a % 512 : Nat) : Int) < (poc % 512 : Nat) ∧
        ((512 / 2 : Nat) : Int) < (poc % 512 : Nat) - (a % 512 : Nat) then
      wrapInt32 (wrapInt32 (512 * (a / 512 : Nat)) - (512 : Nat))
    else wrapInt32 (512 * (a / 512 : Nat))) = wrapInt32 (512 * ((poc / 512 : Nat) : Int)) := by
    unfold wrapInt32
    split
    · rw [Int.bmod_add_bmod]
      congr 1
      omega
    · split
      · rw [Int.bmod_sub_bmod]
        congr 1
        omega
      · congr 1
        omega
  have hsum : wrapInt32 (512 * ((poc / 512 : Nat) : Int)) + (poc % 512 : Nat) = wrapInt32 poc := by
    unfold wrapInt32
    rw [Int.bmod_def, Int.bmod_def]
    omega
  have hrange : -2 ^ 31 ≤ wrapInt32 (poc : Int) ∧ wrapInt32 (poc : Int) < 2 ^ 31 := by
    unfold wrapInt32
    rw [Int.bmod_def]
    omega
  simp only [calcPoc, if_neg ht, hmax]
  rw [hmsb, hsum, int32_eq_some hrange.1 hrange.2, Option.map_some]
  by_cases hb : t = .b
  · simp [hb, refAfter]
  · simp [hb, refAfter]

namespace Encoder

/-- The static variables stand for the picture order count `a`, in the width of an `int`. -/
def WrappedRef (s : Encoder) (a : Nat) : Prop :=
  s.picOrderCntMsbRef = wrapInt32 (512 * (a / 512 : Nat)) ∧ s.picOrderCntLsbRef = (a % 512 : Nat)

/-- The frame that starts has the picture order count `poc`, near that of its reference `a`. -/
structure Near (s : Encoder) (a poc : Nat) : Prop where
  lsb : s.pocLsb = poc % 512
  idr : s.currentFrameType = .idr → poc = 0
  ref : s.currentFrameType ≠ .idr → s.WrappedRef a ∧ poc < a + 256 ∧ a < poc + 256

def withRefs (s : Encoder) (msb lsb : Int) : Encoder :=
  { s with picOrderCntMsbRef := msb, picOrderCntLsbRef := lsb }

@[simp] theorem withRefs_pocLsb (s : Encoder) (msb lsb : Int) :
    (s.withRefs msb lsb).pocLsb = s.pocLsb := rfl

@[simp] theorem withRefs_type (s : Encoder) (msb lsb : Int) :
    (s.withRefs msb lsb).currentFrameType = s.currentFrameType := rfl

theorem withRefs_display (s : Encoder) (msb lsb : Int) :
    (s.withRefs msb lsb).currentPktIdx = s.currentPktIdx ∧
      (s.withRefs msb lsb).currentIdrDisplay = s.currentIdrDisplay := ⟨rfl, rfl⟩

@[simp] theorem withRefs_again (s : Encoder) (msb lsb msb' lsb' : Int) :
    (s.withRefs msb lsb).withRefs msb' lsb' = s.withRefs msb' lsb' := rfl

theorem calcPoc_withRefs (s : Encoder) : s.calcPoc =
    (Hevc.calcPoc s.currentFrameType s.picOrderCntMsbRef s.picOrderCntLsbRef s.pocLsb).map
      fun p => (p.1, s.withRefs p.2.1 p.2.2) := rfl

theorem withRefs_refs (s : Encoder) (msb lsb : Int) :
    (s.withRefs msb lsb).picOrderCntMsbRef = msb ∧ (s.withRefs msb lsb).picOrderCntLsbRef = lsb :=
  ⟨rfl, rfl⟩

def withWrappedRef (s : Encoder) (a : Nat) : Encoder :=
  s.withRefs (wrapInt32 (512 * (a / 512 : Nat))) (a % 512 : Nat)

theorem withWrappedRef_display (s : Encoder) (a : Nat) :
    (s.withWrappedRef a).currentPktIdx = s.currentPktIdx ∧
      (s.withWrappedRef a).currentIdrDisplay = s.currentIdrDisplay := withRefs_display ..

theorem withWrappedRef_ref (s : Encoder) (a : Nat) : (s.withWrappedRef a).WrappedRef a :=
  withRefs_refs ..

section

variable {s : Encoder} {a poc : Nat}

theorem Near.calcPoc (h : s.Near a poc) :
    s.calcPoc = some (wrapInt32 poc, s.withWrappedRef (refAfter s.currentFrameType a poc)) := by
  by_cases ht : s.currentFrameType = .idr
  · have h0 := h.idr ht
    subst h0
    have hlsb : s.pocLsb = 0 := h.lsb
    have hafter : refAfter .idr a 0 = 0 := if_neg (by decide)
    have hzero : wrapInt32 0 = 0 := wrapInt32_of_fits (by decide) (by decide)
    have hmsb : wrapInt32 (512 * ((0 / 512 : Nat) : Int)) = 0 :=
      wrapInt32_of_fits (by decide) (by decide)
    rw [calcPoc_withRefs, ht, hlsb, Nat.cast_zero, calcPoc_idr, hafter, withWrappedRef, hzero,
      hmsb]
    rfl
  · obtain ⟨⟨hmsb, hl⟩, hlt, hgt⟩ := h.ref ht
    rw [calcPoc_withRefs, hmsb, hl, h.lsb, calcPoc_wrapped ht hlt hgt, Option.map_some,
      withWrappedRef]

theorem Near.again (h : s.Near a poc) :
    (s.withWrappedRef (refAfter s.currentFrameType a poc)).Near
      (refAfter s.currentFrameType a poc) poc := by
  constructor
  case lsb =>
    rw [withWrappedRef, withRefs_pocLsb]
    exact h.lsb
  case idr =>
    rw [withWrappedRef, withRefs_type]
    exact h.idr
  case ref =>
    rw [withWrappedRef, withRefs_type]
    intro ht
    obtain ⟨-, hlt, hgt⟩ := h.ref ht
    refine ⟨withWrappedRef_ref _ _, ?_⟩
    unfold refAfter
    split
    · exact ⟨hlt, hgt⟩
    · omega

theorem Near.pocCalls (h : s.Near a poc) :
    s.pocCalls = some ((wrapInt32 poc, wrapInt32 poc),
      s.withWrappedRef (refAfter s.currentFrameType a poc)) := by
  have hagain := h.again.calcPoc
  rw [withWrappedRef, withRefs_type, refAfter_refAfter, withWrappedRef, withRefs_again] at hagain
  rw [Encoder.pocCalls, h.calcPoc, Option.bind_some, withWrappedRef]
  dsimp only
  rw [hagain, Option.map_some]

end

/-- What the calls for the frame of order `o` find. -/
structure PocReady (c : Config) (o : Nat) (s : Encoder) : Prop where
  order : s.currentFrameEncoding = o
  position : c.intra = 1 ∨ o % c.idrDistance ≤ 2 ^ 31
  idrDisplay : o % c.idrDistance ≠ 0 → s.currentIdrDisplay = o - o % c.idrDistance
  ref : o % c.idrDistance ≠ 0 → s.WrappedRef (anchor c.groupLen (o % c.idrDistance - 1))

theorem pocReady_start (c : Config) (s : Encoder) :
    PocReady c 0 { s with currentFrameEncoding := 0 } := by
  have h0 : 0 % c.idrDistance = 0 := Nat.zero_mod _
  refine ⟨rfl, .inr ?_, fun h => absurd h0 h, fun h => absurd h0 h⟩
  rw [h0]
  exact Nat.zero_le _

end Encoder

/-- Behind position 2^31 of a sequence that does not end `encoding2display_order` is undefined. -/
theorem Periods.position_of_frame {q : Periods} {o d : Nat} {t : FrameType}
    (h : q.frame o = some (d, t)) (ho : q.intra = 1 ∨ o % q.idrDistance ≤ 2 ^ 31) :
    q.intra = 1 ∨ o % q.idrDistance < 2 ^ 31 := by
  by_contra hnot
  obtain ⟨h1, hpos⟩ := not_or.mp hnot
  have hle := ho.resolve_left h1
  have hdist : q.idrDistance = q.seqLen := if_neg h1
  rw [hdist] at hpos hle
  by_cases hend : q.Endless
  · rw [seqLen_of_endless hend, Nat.mod_zero] at hpos hle
    have ho31 : o = 2 ^ 31 := by omega
    have hint : ¬(q.intra : Int) = 1 := by omega
    have hzero : (if (q.intra : Int) = 0 then (0 : Int) else q.idr) = 0 := by
      unfold Endless at hend
      split <;> omega
    have hgop : toInt32 (2 ^ 31) = -2 ^ 31 := by decide
    rw [frame, encoding2displayOrder, if_neg hint] at h
    dsimp only at h
    rw [encodingOrderGop, if_pos hzero, ho31, hgop, Option.bind_some] at h
    cases h
  · have hidr := q.idr_lt
    have hlen := seqLen_of_not_endless hend
    have hpos : 0 < q.seqLen := by
      rw [hlen]
      unfold Endless at hend
      omega
    have hlt := Nat.mod_lt o hpos
    split at hlen <;> omega

namespace Encoder

section

variable {c : Config} {o d : Nat} {t : FrameType} {s : Encoder}

theorem pocLsb_startFrame {poc : Nat} (hpoc : poc < 2 ^ 64)
    (h : (s.currentPktIdx : Int) - s.currentIdrDisplay = poc) : s.pocLsb = poc % 512 := by
  rw [pocLsb, h, toUInt64_natCast hpoc]
  rfl

/-- The head of a round, with the picture order count that follows from it. -/
theorem PocReady.start (h : PocReady c o s) (hcount : o < c.frameCount)
    (hframe : c.frame o = some (d, t)) :
    (((s.startFrame d t).currentPktIdx : Int) - (s.startFrame d t).currentIdrDisplay =
        groupDisplay c.groupLen (o % c.idrDistance)) ∧
      (s.startFrame d t).currentIdrDisplay = o - o % c.idrDistance ∧
      t = c.frameTypeAt (o % c.idrDistance) := by
  have hcl := c.frameCount_lt
  have hip := c.ip_le
  have hle := Nat.mod_le o c.idrDistance
  obtain ⟨hd, ht⟩ :=
    Periods.frame_some hframe (Periods.position_of_frame hframe h.position) (by omega)
  have hold := h.idrDisplay
  rw [displayOrder] at hd
  generalize o % c.idrDistance = g at *
  have hidr : (s.startFrame d t).currentIdrDisplay = o - g := by
    rw [startFrame_eq]
    show (if t = .idr then d else s.currentIdrDisplay) = o - g
    by_cases h0 : g = 0
    · have hti : t = .idr := by rw [ht, Periods.frameTypeAt_eq_idr_iff, h0]
      rw [if_pos hti, hd, h0]
      rfl
    · have hti : t ≠ .idr := by
        rw [ht]
        exact fun h => h0 (Periods.frameTypeAt_eq_idr_iff.mp h)
      rw [if_neg hti, hold h0]
  refine ⟨?_, hidr, ht⟩
  rw [hidr, startFrame_eq]
  show (d : Int) - (o - g : Nat) = _
  omega

theorem groupDisplay_lt {g : Nat} (c : Config) (hg : g < 2 ^ 32) :
    groupDisplay c.groupLen g < 2 ^ 64 := by
  have hip := c.ip_le
  have hlen := c.groupLen_le
  unfold groupDisplay
  split
  · decide
  · split <;> omega

theorem PocReady.near (h : PocReady c o s) (hcount : o < c.frameCount)
    (hframe : c.frame o = some (d, t)) :
    (s.startFrame d t).Near (anchor c.groupLen (o % c.idrDistance - 1))
      (groupDisplay c.groupLen (o % c.idrDistance)) := by
  obtain ⟨hpoc, hidr, ht⟩ := h.start hcount hframe
  have hcl := c.frameCount_lt
  have hle := Nat.mod_le o c.idrDistance
  have hold := h.ref
  generalize o % c.idrDistance = g at *
  have htype : (s.startFrame d t).currentFrameType = t := by rw [startFrame_eq]
  have hrefs : (s.startFrame d t).picOrderCntMsbRef = s.picOrderCntMsbRef ∧
      (s.startFrame d t).picOrderCntLsbRef = s.picOrderCntLsbRef := by
    rw [startFrame_eq]
    exact ⟨rfl, rfl⟩
  constructor
  case lsb => exact pocLsb_startFrame (groupDisplay_lt c (by omega)) hpoc
  case idr =>
    rw [htype, ht, Periods.frameTypeAt_eq_idr_iff]
    rintro rfl
    rfl
  case ref =>
    intro hne
    rw [htype, ht] at hne
    have h0 : g ≠ 0 := fun h0 => hne (Periods.frameTypeAt_eq_idr_iff.mpr h0)
    obtain ⟨hlt, hgt, -⟩ := c.poc_near h0
    refine ⟨?_, hlt, hgt⟩
    rw [WrappedRef, hrefs.1, hrefs.2]
    exact hold h0

theorem PocReady.pocFrame (h : PocReady c o s) (hcount : o < c.frameCount)
    (hframe : c.frame o = some (d, t)) :
    s.pocFrame c = some
      ((wrapInt32 (groupDisplay c.groupLen (o % c.idrDistance)),
        wrapInt32 (groupDisplay c.groupLen (o % c.idrDistance))),
      { (s.startFrame d t).withWrappedRef (anchor c.groupLen (o % c.idrDistance)) with
        currentFrameEncoding := o + 1 }) := by
  have hnear := h.near hcount hframe
  obtain ⟨-, -, ht⟩ := h.start hcount hframe
  have htype : (s.startFrame d t).currentFrameType = t := by rw [startFrame_eq]
  have horder : (s.startFrame d t).currentFrameEncoding = o := by
    rw [startFrame_eq]
    exact h.order
  have hafter : refAfter t (anchor c.groupLen (o % c.idrDistance - 1))
      (groupDisplay c.groupLen (o % c.idrDistance)) = anchor c.groupLen (o % c.idrDistance) := by
    rw [ht]
    by_cases h0 : o % c.idrDistance = 0
    · rw [h0, Periods.frameTypeAt_eq_idr_iff.mpr rfl]
      rfl
    · exact (c.poc_near h0).2.2
  rw [Encoder.pocFrame, h.order, if_pos hcount, hframe, Option.bind_some]
  dsimp only
  rw [hnear.pocCalls, htype, hafter, Option.map_some]
  dsimp only
  rw [withWrappedRef, withRefs]
  dsimp only
  rw [horder]

theorem PocReady.next (h : PocReady c o s) (hcount : o < c.frameCount)
    (hframe : c.frame o = some (d, t)) :
    PocReady c (o + 1)
      { (s.startFrame d t).withWrappedRef (anchor c.groupLen (o % c.idrDistance)) with
        currentFrameEncoding := o + 1 } := by
  obtain ⟨-, hidr, -⟩ := h.start hcount hframe
  have hposition := Periods.position_of_frame hframe h.position
  have hle := Nat.mod_le o c.idrDistance
  have hnext : (o + 1) % c.idrDistance ≠ 0 →
      (o + 1) % c.idrDistance = o % c.idrDistance + 1 := by
    intro h0
    have hpred := pred_mod h0
    rw [Nat.add_sub_cancel] at hpred
    omega
  have hrefs := withWrappedRef_ref (s.startFrame d t) (anchor c.groupLen (o % c.idrDistance))
  rw [← (withWrappedRef_display _ (anchor c.groupLen (o % c.idrDistance))).2] at hidr
  generalize (s.startFrame d t).withWrappedRef (anchor c.groupLen (o % c.idrDistance)) = u at *
  refine ⟨rfl, ?_, ?_, ?_⟩
  · rcases hposition with h1 | hlt
    · exact .inl h1
    · refine .inr ?_
      by_cases h0 : (o + 1) % c.idrDistance = 0
      · omega
      · rw [hnext h0]
        omega
  · intro h0
    have hsum := hnext h0
    show u.currentIdrDisplay = _
    rw [hidr, hsum]
    omega
  · intro h0
    rw [hnext h0, Nat.add_sub_cancel]
    exact hrefs

end

/-- Every run leaves the static variables as the next frame needs them. -/
theorem pocFrames_ready {c : Config} {n : Nat} {s₀ s : Encoder} (h : s₀.pocFrames c n = some s) :
    PocReady c n s := by
  induction n generalizing s with
  | zero =>
      cases h
      exact pocReady_start c s₀
  | succ n ih =>
      obtain ⟨s₁, hrun, hstep⟩ := Option.bind_eq_some_iff.mp h
      have hready := ih hrun
      obtain ⟨⟨pocs, u⟩, hframe, rfl⟩ := Option.map_eq_some_iff.mp hstep
      obtain ⟨hcount, hsome⟩ := Option.ite_none_right_eq_some.mp hframe
      obtain ⟨⟨d, t⟩, hdt, -⟩ := Option.bind_eq_some_iff.mp hsome
      rw [hready.order] at hcount hdt
      rw [hready.pocFrame hcount hdt] at hframe
      obtain ⟨-, hu⟩ := Prod.mk.inj (Option.some.inj hframe)
      rw [← hu]
      exact hready.next hcount hdt

end Encoder

/-- Both calls for the next frame of any run return its display position since the last IDR frame,
if that is an `int`. -/
theorem pocFrame_right (c : Config) (n d : Nat) (t : FrameType) (s₀ s : Encoder)
    (hrun : s₀.pocFrames c n = some s) (hcount : s.currentFrameEncoding < c.frameCount)
    (hframe : c.frame s.currentFrameEncoding = some (d, t))
    (hfits : ((s.startFrame d t).currentPktIdx : Int) - (s.startFrame d t).currentIdrDisplay <
      2 ^ 31) :
    ∃ s', s.pocFrame c = some
        ((((s.startFrame d t).currentPktIdx : Int) - (s.startFrame d t).currentIdrDisplay,
          ((s.startFrame d t).currentPktIdx : Int) - (s.startFrame d t).currentIdrDisplay), s') ∧
      s'.currentPktIdx = (s.startFrame d t).currentPktIdx ∧
      s'.currentIdrDisplay = (s.startFrame d t).currentIdrDisplay := by
  have hready := Encoder.pocFrames_ready hrun
  rw [hready.order] at hcount hframe
  obtain ⟨hpoc, -, -⟩ := hready.start hcount hframe
  rw [hpoc] at hfits ⊢
  have hdisplay := Encoder.withWrappedRef_display (s.startFrame d t)
    (anchor c.groupLen (n % c.idrDistance))
  rw [hready.pocFrame hcount hframe, wrapInt32_of_fits (by omega) hfits]
  generalize (s.startFrame d t).withWrappedRef (anchor c.groupLen (n % c.idrDistance)) = u at *
  exact ⟨_, rfl, hdisplay.1, hdisplay.2⟩

/-- 7/0/3: the frame with the picture order count 603, beyond the modulus of 512. -/
theorem pocFrame_right_7_0_3 :
    let c : Config := ⟨⟨7, 0, 3, by decide, by decide, by decide, by decide, by decide⟩,
      by decide, 1000, by decide, 640, 480⟩
    ∃ s s', Encoder.idle.pocFrames c 601 = some s ∧ s.pocFrame c = some ((603, 603), s') := by
  intro c
  have hrun : (Encoder.idle.pocFrames c 601).map
      (fun s => (s.currentFrameEncoding, s.currentIdrDisplay)) = some (601, 0) := by decide +kernel
  obtain ⟨s, hs, heq⟩ := Option.map_eq_some_iff.mp hrun
  obtain ⟨horder, hidr⟩ := Prod.mk.inj heq
  have hframe : c.frame s.currentFrameEncoding = some (603, .i) := by
    rw [horder]
    decide
  have hpoc : ((s.startFrame 603 .i).currentPktIdx : Int) - (s.startFrame 603 .i).currentIdrDisplay =
      603 := by
    rw [Encoder.startFrame, if_neg (by decide), hidr]
    rfl
  have hcount : s.currentFrameEncoding < c.frameCount := by
    rw [horder]
    decide
  obtain ⟨s', hs', -⟩ := pocFrame_right c 601 603 .i Encoder.idle s hs hcount hframe
    (by rw [hpoc]; decide)
  rw [hpoc] at hs'
  exact ⟨s, s', hs, hs'⟩

end Hprd.Codec.Hevc

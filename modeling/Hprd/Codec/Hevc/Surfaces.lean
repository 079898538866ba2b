import Hprd.Codec.Hevc.FrameRun

/-!
# Reconstruction surfaces

A frame is reconstructed into the surface of its slot, the display order modulo the
number of surfaces, while the window names the surfaces it is predicted from. At
most two pictures are in the window, the last two group heads, so that the slots
meet exactly where two of these display orders differ by a multiple of 16.
-/

namespace Hprd.Codec.Hevc

open Hprd.Core

/-- The pictures that `render_picture` passes to the driver. -/
structure PicParam where
  referenceFrames : List VAPictureHevc
  decodedCurrPic : VAPictureHevc
deriving DecidableEq, Repr

/-- The picture order counts of the pictures that the surfaces hold. -/
abbrev Surfaces := Nat → Option Int

/-- The picture is written into its surface. -/
def reconstruct (surfaces : Surfaces) (pic : VAPictureHevc) : Surfaces :=
  Function.update surfaces pic.pictureId (some pic.picOrderCnt)

/-- The frame is not written over a picture that it refers to, and these are still there. -/
def PicParam.Safe (pic : PicParam) (surfaces : Surfaces) : Prop :=
  ∀ ref ∈ pic.referenceFrames, ref.pictureId ≠ pic.decodedCurrPic.pictureId ∧
    surfaces ref.pictureId = some ref.picOrderCnt

namespace Encoder

def shortTerm (s : Encoder) : List VAPictureHevc :=
  (List.range s.numShortTerm).map s.referenceFrames

def picParam (s : Encoder) : PicParam :=
  { referenceFrames := s.shortTerm, decodedCurrPic := s.currentCurrPic }

def nextPicParam (c : Config) (s : Encoder) : Option PicParam :=
  if s.currentFrameEncoding < c.frameCount then
    (c.frame s.currentFrameEncoding).bind fun (displayingOrder, frameType) =>
    (renderPicture c (fillHeaders c (s.startFrame displayingOrder frameType))).map picParam
  else none

/-- One round of the loop, with the surfaces. -/
def encodeFrameOn (c : Config) (s : Encoder) (surfaces : Surfaces) : Option (Encoder × Surfaces) :=
  (nextPicParam c s).bind fun pic => (encodeFrame c s).map fun s =>
    (s, reconstruct surfaces pic.decodedCurrPic)

def encodeFramesOn (c : Config) (surfaces : Surfaces) : Nat → Encoder → Option (Encoder × Surfaces)
  | 0, s => some ({ s with currentFrameEncoding := 0 }, surfaces)
  | n + 1, s => (encodeFramesOn c surfaces n s).bind fun (s, surfaces) =>
      encodeFrameOn c s surfaces

/-- Every frame of the first `n` is safe when it is rendered. -/
def ReferencesSafe (c : Config) (surfaces : Surfaces) (n : Nat) (s₀ : Encoder) : Prop :=
  ∀ o < n, ∀ s held pic, s₀.encodeFramesOn c surfaces o = some (s, held) →
    nextPicParam c s = some pic → pic.Safe held

end Encoder

/-! ### The window as display positions -/

/-- The display positions in the window after position `g` of a sequence. -/
def windowAt (p g : Nat) : List Nat :=
  if g = 0 then [0] else [anchor p g, anchor p g - p]

/-- The picture at display position `d` of a sequence that starts at `base`. -/
def pictureAt (base d : Nat) : VAPictureHevc := ⟨(base + d) % SURFACE_NUM, 2 * d⟩

/-- The positions that a frame is predicted from. -/
def refsAt (p g : Nat) : List Nat := if g = 0 then [] else windowAt p (g - 1)

section

variable {p g : Nat}

theorem windowAt_inside (hp : 0 < p) (h0 : g ≠ 0) (hd : ¬ p ∣ g - 1) :
    windowAt p g = windowAt p (g - 1) := by
  have h1 : g - 1 ≠ 0 := fun h => hd (h ▸ dvd_zero p)
  rw [windowAt, windowAt, if_neg h0, if_neg h1, (anchor_inside hp h0 hd).1]

theorem windowAt_head (hp : 0 < p) (hd : g = 0 ∨ p ∣ g - 1) :
    windowAt p g = (groupDisplay p g :: refsAt p g).take numRefFrames := by
  rw [windowAt, refsAt]
  by_cases h0 : g = 0
  · subst h0
    rfl
  · obtain ⟨hnext, hshow⟩ := anchor_head hp h0 (hd.resolve_left h0)
    have hold : anchor p g - p = anchor p (g - 1) := by omega
    rw [if_neg h0, if_neg h0, hshow, hold, windowAt]
    split
    next h1 =>
      rw [h1]
      rfl
    · rfl

/-- The slot of a frame is none of those it is predicted from. -/
def Clear (p g : Nat) : Prop := ∀ d ∈ refsAt p g, d % SURFACE_NUM ≠ groupDisplay p g % SURFACE_NUM

theorem mem_refsAt {d : Nat} (h : d ∈ refsAt p g) :
    g ≠ 0 ∧ (d = anchor p (g - 1) ∨ g - 1 ≠ 0 ∧ d = anchor p (g - 1) - p) := by
  unfold refsAt windowAt at h
  split at h
  · cases h
  next h0 =>
    split at h
    next h1 =>
      rw [List.mem_singleton] at h
      exact ⟨h0, Or.inl (by rw [h, h1, anchor_zero])⟩
    next h1 =>
      rw [List.mem_cons, List.mem_singleton] at h
      exact ⟨h0, h.imp_right fun h => ⟨h1, h⟩⟩

theorem le_anchor (h0 : g ≠ 0) : p ≤ anchor p g := by
  rw [anchor, if_neg h0]
  exact Nat.le_mul_of_pos_right p (Nat.succ_pos _)

/-- Groups of less than 16 frames whose heads do not meet two groups later are clear. -/
theorem clear_of_short (hp : 0 < p) (h16 : p < 16) (h8 : p ≠ 8) (g : Nat) : Clear p g := by
  intro d hd
  obtain ⟨h0, hd⟩ := mem_refsAt hd
  show d % 16 ≠ groupDisplay p g % 16
  by_cases hb : p ∣ g - 1
  · obtain ⟨hnext, hshow⟩ := anchor_head hp h0 hb
    rcases hd with rfl | ⟨h1, rfl⟩
    · omega
    · have hle := @le_anchor p _ h1
      omega
  · obtain ⟨hsame, hle, hr, hshow⟩ := anchor_inside hp h0 hb
    have hlt := Nat.mod_lt (groupDisplay p g) hp
    rcases hd with rfl | ⟨-, rfl⟩
    · omega
    · omega

theorem groupDisplay_one (hp : 0 < p) : groupDisplay p 1 = p := by
  rw [groupDisplay, if_neg (by decide), if_pos (show p ∣ 1 - 1 from dvd_zero p)]
  omega

theorem first_group {k : Nat} (h1 : k ≠ 0) (hk : k < p) :
    groupDisplay p (k + 1) = k ∧ refsAt p (k + 1) = [p, 0] := by
  have hb : ¬ p ∣ k := Nat.not_dvd_of_pos_of_lt (by omega) hk
  have hanchor : anchor p k = p := by
    rw [anchor, if_neg h1, Nat.div_eq_of_lt (by omega)]
    omega
  constructor
  · rw [groupDisplay, if_neg (Nat.succ_ne_zero k), Nat.add_sub_cancel, if_neg hb]
  · rw [refsAt, if_neg (Nat.succ_ne_zero k), Nat.add_sub_cancel, windowAt, if_neg h1, hanchor,
      Nat.sub_self]

/-- The first frames of a sequence are clear in groups of any length. -/
theorem clear_of_early (hp : 0 < p) (hg : g ≤ p % 16) : Clear p g := by
  have hle := Nat.mod_le p 16
  have hlt := Nat.mod_lt p (show 0 < 16 by decide)
  intro d hd
  show d % 16 ≠ groupDisplay p g % 16
  by_cases h1 : g ≤ 1
  · obtain ⟨h0, hd⟩ := mem_refsAt hd
    obtain rfl : g = 1 := by omega
    have hzero : d = 0 := by
      rcases hd with hd | ⟨h1, -⟩
      · exact hd
      · exact absurd rfl h1
    rw [groupDisplay_one hp, hzero]
    omega
  · obtain ⟨k, rfl⟩ : ∃ k, g = k + 1 := ⟨g - 1, by omega⟩
    obtain ⟨hshow, hrefs⟩ := @first_group p k (by omega) (by omega)
    rw [hrefs, List.mem_cons, List.mem_singleton] at hd
    rw [hshow]
    omega

/-- In all other groups the frame at position `p % 16 + 1` is written over a picture that it
refers to. -/
theorem not_clear (h : p = 8 ∨ 16 ≤ p) : ¬ Clear p (p % 16 + 1) := by
  intro hclear
  by_cases hr : p % 16 = 0
  · rw [hr] at hclear
    refine hclear 0 (List.mem_singleton.mpr rfl) ?_
    show 0 % 16 = groupDisplay p 1 % 16
    rw [groupDisplay_one (by omega), hr]
  rcases h with rfl | h16
  · exact hclear 0 (by decide) (by decide)
  · obtain ⟨hshow, hrefs⟩ := @first_group p (p % 16) hr (by omega)
    refine hclear p (by rw [hrefs]; exact List.mem_cons_self ..) ?_
    show p % 16 = groupDisplay p (p % 16 + 1) % 16
    rw [hshow, Nat.mod_mod]

end

namespace Encoder

/-- The window takes in the current picture, unless it is a B frame. -/
theorem shortTerm_update (s : Encoder) :
    s.updateReferenceFrames.shortTerm =
      if s.currentFrameType = .b then s.shortTerm
      else (s.currentCurrPic :: s.shortTerm).take numRefFrames := by
  unfold updateReferenceFrames
  split
  · rfl
  · have hnum : numRefFrames = 2 := rfl
    simp only [shortTerm, hnum]
    cases hn : s.numShortTerm with
    | zero => rfl
    | succ n =>
        have hmin : min (n + 1 + 1) 2 = 2 := by omega
        rw [hmin, @List.range_succ_eq_map n]
        rfl

theorem startFrame_shortTerm (s : Encoder) (d : Nat) (t : FrameType) :
    (s.startFrame d t).shortTerm = if t = .idr then [] else s.shortTerm := by
  rw [startFrame_eq]
  by_cases ht : t = .idr
  · simp only [shortTerm, if_pos ht]
    rfl
  · simp only [shortTerm, if_neg ht]

theorem shortTerm_frame {c : Config} {s₁ s₂ s₃ : Encoder} {a poc : Nat} (hknows : s₁.Knows a poc)
    (hhead : fillSliceHeader c s₁ = some s₂) (hslice : s₂.renderSlice = some s₃) :
    s₃.shortTerm = s₁.shortTerm ∧ s₃.currentCurrPic = s₁.currentCurrPic ∧
      s₃.currentFrameType = s₁.currentFrameType := by
  have h₂ := fillSliceHeader_spec hknows hhead
  have h₃ := renderSlice_frame hslice
  rw [h₃, h₂]
  exact ⟨rfl, rfl, rfl⟩

/-- A window is the one before, with the current picture in front unless it is a B frame. -/
theorem windowAt_next (c : Config) (g : Nat) :
    windowAt c.groupLen g =
      if c.frameTypeAt g = .b then refsAt c.groupLen g
      else (groupDisplay c.groupLen g :: refsAt c.groupLen g).take numRefFrames := by
  have hpos := c.groupLen_pos
  by_cases hb : c.frameTypeAt g = .b
  · obtain ⟨h0, hdvd⟩ := Periods.frameTypeAt_eq_b_iff.mp hb
    rw [if_pos hb, windowAt_inside hpos h0 hdvd, refsAt, if_neg h0]
  · have hhead : g = 0 ∨ c.groupLen ∣ g - 1 := by
      by_contra hnot
      obtain ⟨h0, hdvd⟩ := not_or.mp hnot
      exact hb (Periods.frameTypeAt_eq_b_iff.mpr ⟨h0, hdvd⟩)
    rw [if_neg hb, windowAt_head hpos hhead]

theorem Ready.rendered {c : Config} {o d : Nat} {t : FrameType} {s s₁ : Encoder}
    (h : Ready c o s)
    (hwindow : o % c.idrDistance ≠ 0 → s.shortTerm =
      (windowAt c.groupLen (o % c.idrDistance - 1)).map (pictureAt (o - o % c.idrDistance)))
    (hcount : o < c.frameCount) (hframe : c.frame o = some (d, t))
    (hpic : renderPicture c (fillHeaders c (s.startFrame d t)) = some s₁) :
    s₁.shortTerm =
        (refsAt c.groupLen (o % c.idrDistance)).map (pictureAt (o - o % c.idrDistance)) ∧
      s₁.currentCurrPic =
        pictureAt (o - o % c.idrDistance) (groupDisplay c.groupLen (o % c.idrDistance)) ∧
      s₁.currentFrameType = c.frameTypeAt (o % c.idrDistance) := by
  obtain ⟨hknows, -, -, hd, ht⟩ := h.knows hcount hframe
  obtain ⟨-, hs₁⟩ := renderPicture_spec hknows hpic
  generalize o % c.idrDistance = g at *
  have hstart : s₁.shortTerm = (s.startFrame d t).shortTerm := by
    rw [hs₁]
    rfl
  refine ⟨?_, ?_, ?_⟩
  · rw [hstart, startFrame_shortTerm, refsAt]
    by_cases h0 : g = 0
    · have hti : t = .idr := by rw [ht, Periods.frameTypeAt_eq_idr_iff, h0]
      rw [if_pos hti, if_pos h0]
      rfl
    · have hti : t ≠ .idr := by
        rw [ht]
        exact fun h => h0 (Periods.frameTypeAt_eq_idr_iff.mp h)
      rw [if_neg hti, if_neg h0, hwindow h0]
  · have hpkt : (fillHeaders c (s.startFrame d t)).currentPktIdx = d := by
      rw [startFrame_eq]
      rfl
    rw [hs₁]
    dsimp only
    rw [hpkt, hd]
    rfl
  · rw [hs₁, ← ht, startFrame_eq]
    rfl

theorem nextPicParam_eq {c : Config} {d : Nat} {t : FrameType} {s s₁ : Encoder}
    (hcount : s.currentFrameEncoding < c.frameCount)
    (hframe : c.frame s.currentFrameEncoding = some (d, t))
    (hpic : renderPicture c (fillHeaders c (s.startFrame d t)) = some s₁) :
    nextPicParam c s = some (picParam s₁) := by
  rw [nextPicParam, if_pos hcount, hframe, Option.bind_some]
  dsimp only
  rw [hpic, Option.map_some]

/-- The pictures of the next frame, and the window it leaves. -/
theorem Ready.pictures {c : Config} {o : Nat} {s s' : Encoder} (h : Ready c o s)
    (hwindow : o % c.idrDistance ≠ 0 → s.shortTerm =
      (windowAt c.groupLen (o % c.idrDistance - 1)).map (pictureAt (o - o % c.idrDistance)))
    (hs : encodeFrame c s = some s') :
    nextPicParam c s = some
        ⟨(refsAt c.groupLen (o % c.idrDistance)).map (pictureAt (o - o % c.idrDistance)),
          pictureAt (o - o % c.idrDistance) (groupDisplay c.groupLen (o % c.idrDistance))⟩ ∧
      s'.shortTerm =
        (windowAt c.groupLen (o % c.idrDistance)).map (pictureAt (o - o % c.idrDistance)) := by
  obtain ⟨hcount, hs⟩ := Option.ite_none_right_eq_some.mp hs
  obtain ⟨⟨d, t⟩, hframe, hs⟩ := Option.bind_eq_some_iff.mp hs
  obtain ⟨s₁, hpic, hs⟩ := Option.bind_eq_some_iff.mp hs
  obtain ⟨s₂, hhead, hs⟩ := Option.bind_eq_some_iff.mp hs
  obtain ⟨s₃, hslice, rfl⟩ := Option.map_eq_some_iff.mp hs
  have hparam := nextPicParam_eq hcount hframe hpic
  rw [h.order] at hcount hframe
  obtain ⟨hknows, -⟩ := h.knows hcount hframe
  obtain ⟨hshort, hcur, htype⟩ := shortTerm_frame (renderPicture_knows hknows hpic) hhead hslice
  obtain ⟨hrefs, hcurrent, htype₁⟩ := h.rendered hwindow hcount hframe hpic
  constructor
  · rw [hparam, picParam, hrefs, hcurrent]
  · show s₃.updateReferenceFrames.shortTerm = _
    rw [shortTerm_update, htype, htype₁, hshort, hcur, hrefs, hcurrent, windowAt_next]
    split
    · rfl
    · rw [← List.map_cons, List.map_take]

/-! ### Runs -/

theorem nextPicParam_of_encodeFrame {c : Config} {s s' : Encoder} (h : encodeFrame c s = some s') :
    ∃ pic, nextPicParam c s = some pic := by
  obtain ⟨hcount, h⟩ := Option.ite_none_right_eq_some.mp h
  obtain ⟨⟨d, t⟩, hframe, h⟩ := Option.bind_eq_some_iff.mp h
  obtain ⟨s₁, hpic, -⟩ := Option.bind_eq_some_iff.mp h
  exact ⟨picParam s₁, nextPicParam_eq hcount hframe hpic⟩

section

variable {c : Config} {n o : Nat} {s₀ s : Encoder} {surfaces held : Surfaces}

theorem encodeFrameOn_spec {s' : Encoder} {held' : Surfaces}
    (h : encodeFrameOn c s held = some (s', held')) :
    encodeFrame c s = some s' ∧ ∃ pic, nextPicParam c s = some pic ∧
      held' = reconstruct held pic.decodedCurrPic := by
  obtain ⟨pic, hpic, h⟩ := Option.bind_eq_some_iff.mp h
  obtain ⟨s₁, hs₁, h⟩ := Option.map_eq_some_iff.mp h
  cases h
  exact ⟨hs₁, pic, hpic, rfl⟩

theorem encodeFrames_of_on (h : s₀.encodeFramesOn c surfaces n = some (s, held)) :
    s₀.encodeFrames c n = some s := by
  induction n generalizing s held with
  | zero =>
      cases h
      rfl
  | succ n ih =>
      obtain ⟨⟨s₁, held₁⟩, hrun, hstep⟩ := Option.bind_eq_some_iff.mp h
      rw [encodeFrames, ih hrun, Option.bind_some]
      exact (encodeFrameOn_spec hstep).1

theorem exists_encodeFramesOn (surfaces : Surfaces) (h : s₀.encodeFrames c n = some s) :
    ∃ held, s₀.encodeFramesOn c surfaces n = some (s, held) := by
  induction n generalizing s with
  | zero =>
      cases h
      exact ⟨surfaces, rfl⟩
  | succ n ih =>
      obtain ⟨s₁, hrun, hstep⟩ := Option.bind_eq_some_iff.mp h
      obtain ⟨held₁, hheld⟩ := ih hrun
      obtain ⟨pic, hpic⟩ := nextPicParam_of_encodeFrame hstep
      refine ⟨reconstruct held₁ pic.decodedCurrPic, ?_⟩
      rw [encodeFramesOn, hheld, Option.bind_some]
      dsimp only
      rw [encodeFrameOn, hpic, Option.bind_some, hstep, Option.map_some]

theorem encodeFrames_frame (h : s₀.encodeFrames c n = some s) (ho : o < n) :
    ∃ s₁ s₂, s₀.encodeFrames c o = some s₁ ∧ encodeFrame c s₁ = some s₂ := by
  induction n generalizing s with
  | zero => omega
  | succ n ih =>
      obtain ⟨s₁, hrun, hstep⟩ := Option.bind_eq_some_iff.mp h
      by_cases hon : o = n
      · subst hon
        exact ⟨s₁, s, hrun, hstep⟩
      · exact ih hrun (by omega)

theorem position_succ {L : Nat} (h : (n + 1) % L ≠ 0) :
    (n + 1) % L - 1 = n % L ∧ n + 1 - (n + 1) % L = n - n % L := by
  have hpred := pred_mod h
  have hle := Nat.mod_le n L
  rw [Nat.add_sub_cancel] at hpred
  omega

theorem encodeFrames_shortTerm (h : s₀.encodeFrames c n = some s) (h0 : n % c.idrDistance ≠ 0) :
    s.shortTerm =
      (windowAt c.groupLen (n % c.idrDistance - 1)).map (pictureAt (n - n % c.idrDistance)) := by
  induction n generalizing s with
  | zero => exact absurd (Nat.zero_mod _) h0
  | succ n ih =>
      obtain ⟨s₁, hrun, hstep⟩ := Option.bind_eq_some_iff.mp h
      obtain ⟨hpos, hbase⟩ := position_succ h0
      rw [hpos, hbase]
      exact ((encodeFrames_ready hrun).pictures (ih hrun) hstep).2

theorem encodeFrames_pictures {s' : Encoder} (h : s₀.encodeFrames c o = some s)
    (hs : encodeFrame c s = some s') :
    nextPicParam c s = some
      ⟨(refsAt c.groupLen (o % c.idrDistance)).map (pictureAt (o - o % c.idrDistance)),
        pictureAt (o - o % c.idrDistance) (groupDisplay c.groupLen (o % c.idrDistance))⟩ :=
  ((encodeFrames_ready h).pictures (encodeFrames_shortTerm h) hs).1

end

end Encoder

theorem mem_windowAt {p g d : Nat} (hp : 0 < p) (h : d ∈ windowAt p g) :
    d = groupDisplay p g ∨ d ∈ refsAt p g := by
  by_cases hd : g = 0 ∨ p ∣ g - 1
  · rw [windowAt_head hp hd] at h
    exact List.mem_cons.mp (List.mem_of_mem_take h)
  · obtain ⟨h0, hd⟩ := not_or.mp hd
    rw [windowAt_inside hp h0 hd] at h
    rw [refsAt, if_neg h0]
    exact Or.inr h

theorem slot_ne {base d e : Nat} :
    (pictureAt base d).pictureId ≠ (pictureAt base e).pictureId ↔
      d % SURFACE_NUM ≠ e % SURFACE_NUM := by
  show (base + d) % 16 ≠ (base + e) % 16 ↔ d % 16 ≠ e % 16
  omega

namespace Encoder

section

variable {c : Config} {n o : Nat} {s₀ s : Encoder} {surfaces held : Surfaces}

/-- While all frames are clear the surfaces of the window keep their pictures. -/
theorem encodeFramesOn_held (h : s₀.encodeFramesOn c surfaces n = some (s, held))
    (hclear : ∀ o < n, Clear c.groupLen (o % c.idrDistance)) (h0 : n % c.idrDistance ≠ 0) :
    ∀ d ∈ windowAt c.groupLen (n % c.idrDistance - 1),
      held (pictureAt (n - n % c.idrDistance) d).pictureId = some (2 * (d : Int)) := by
  induction n generalizing s held with
  | zero => exact absurd (Nat.zero_mod _) h0
  | succ n ih =>
      obtain ⟨⟨s₁, held₁⟩, hrun, hstep⟩ := Option.bind_eq_some_iff.mp h
      obtain ⟨hframe, pic, hpic, rfl⟩ := encodeFrameOn_spec hstep
      rw [encodeFrames_pictures (encodeFrames_of_on hrun) hframe] at hpic
      cases hpic
      obtain ⟨hpos, hbase⟩ := position_succ h0
      have hold := ih hrun fun o ho => hclear o (by omega)
      have hnow := hclear n (Nat.lt_succ_self n)
      rw [hpos, hbase]
      generalize n % c.idrDistance = g at *
      generalize n - g = base at *
      intro d hd
      rcases mem_windowAt c.groupLen_pos hd with rfl | hd
      · exact Function.update_self ..
      · obtain ⟨h0, -⟩ := mem_refsAt hd
        have hslot := (@slot_ne base _ _).mpr (hnow d hd)
        rw [refsAt, if_neg h0] at hd
        rw [reconstruct, Function.update_of_ne hslot]
        exact hold h0 d hd

/-- A frame whose slot is clear is safe where all frames before it were clear, and a frame whose
slot is not clear is never safe. -/
theorem safe_iff_clear {pic : PicParam} {s' : Encoder}
    (h : s₀.encodeFramesOn c surfaces o = some (s, held)) (hs : encodeFrame c s = some s')
    (hpic : nextPicParam c s = some pic)
    (hclear : ∀ o' < o, Clear c.groupLen (o' % c.idrDistance)) :
    pic.Safe held ↔ Clear c.groupLen (o % c.idrDistance) := by
  have hheld := encodeFramesOn_held h hclear
  rw [encodeFrames_pictures (encodeFrames_of_on h) hs] at hpic
  cases hpic
  constructor
  · intro hsafe d hd
    exact slot_ne.mp (hsafe _ (List.mem_map_of_mem hd)).1
  · intro hnow ref href
    obtain ⟨d, hd, rfl⟩ := List.mem_map.mp href
    refine ⟨slot_ne.mpr (hnow d hd), ?_⟩
    obtain ⟨h0, -⟩ := mem_refsAt hd
    rw [refsAt, if_neg h0] at hd
    exact hheld h0 d hd

theorem referencesSafe_iff (h : s₀.encodeFrames c n = some s) :
    ReferencesSafe c surfaces n s₀ ↔ ∀ o < n, Clear c.groupLen (o % c.idrDistance) := by
  constructor
  · intro hsafe o ho
    induction o using Nat.strongRecOn with
    | ind o ih =>
        obtain ⟨s₁, s₂, hrun, hstep⟩ := encodeFrames_frame h ho
        obtain ⟨held, hheld⟩ := exists_encodeFramesOn surfaces hrun
        obtain ⟨pic, hpic⟩ := nextPicParam_of_encodeFrame hstep
        have hbefore : ∀ o' < o, Clear c.groupLen (o' % c.idrDistance) :=
          fun o' ho' => ih o' ho' (by omega)
        exact (safe_iff_clear hheld hstep hpic hbefore).mp (hsafe o ho _ _ _ hheld hpic)
  · intro hclear o ho s₁ held pic hheld hpic
    obtain ⟨s₁', s₂, hrun, hstep⟩ := encodeFrames_frame h ho
    have heq : s₁' = s₁ := Option.some.inj (hrun.symm.trans (encodeFrames_of_on hheld))
    subst heq
    exact (safe_iff_clear hheld hstep hpic fun o' ho' => hclear o' (by omega)).mpr (hclear o ho)

end

end Encoder

/-- Where B frames are possible a sequence has more than one group. -/
theorem Periods.idrDistance_gt {q : Periods} (h1 : q.intra ≠ 1) (hi : q.intra ≠ 0)
    (hip : 2 ≤ q.ip) : q.idrDistance = 0 ∨ q.ip + 2 ≤ q.idrDistance := by
  have hdist : q.idrDistance = q.seqLen := if_neg h1
  rw [hdist]
  by_cases hend : q.Endless
  · exact Or.inl (seqLen_of_endless hend)
  · right
    rw [seqLen_of_not_endless hend, if_neg (by omega)]
    unfold Endless at hend
    obtain ⟨-, hidr⟩ := not_or.mp hend
    obtain h0 | ⟨hpos, hgroup, hdvd⟩ := q.rule
    · exact absurd h0 hi
    · have hle := Nat.le_of_dvd (by omega) hdvd
      have hip := Nat.le_of_dvd (by omega) hgroup
      omega

/-- `last_picture` divides by the intra period, so that no frame comes through with 0. -/
theorem Encoder.intra_ne_zero {c : Config} {s s' : Encoder} (h : encodeFrame c s = some s') :
    c.intra ≠ 0 := by
  intro h0
  obtain ⟨-, h⟩ := Option.ite_none_right_eq_some.mp h
  obtain ⟨⟨d, t⟩, -, h⟩ := Option.bind_eq_some_iff.mp h
  obtain ⟨s₁, hpic, -⟩ := Option.bind_eq_some_iff.mp h
  obtain ⟨r, hr, -⟩ := Option.bind_eq_some_iff.mp hpic
  rw [h0] at hr
  cases hr

/-- In every run no frame is written over a picture it refers to, and these are all held by their
surfaces, exactly for all-intra periods, for groups of less than 16 frames other than 8, and up
to the first frame that meets the slot of a reference. -/
theorem references_safe_iff (c : Config) (n : Nat) (s₀ s : Encoder) (surfaces : Surfaces)
    (hrun : s₀.encodeFrames c n = some s) :
    Encoder.ReferencesSafe c surfaces n s₀ ↔
      c.intra = 1 ∨ c.ip < 16 ∧ c.ip ≠ 8 ∨ n ≤ c.ip % 16 + 1 := by
  rw [Encoder.referencesSafe_iff hrun]
  have hpos := c.groupLen_pos
  constructor
  · intro hclear
    by_contra hnot
    obtain ⟨h1, hnot⟩ := not_or.mp hnot
    obtain ⟨hlong, hn⟩ := not_or.mp hnot
    have hip : c.ip = 8 ∨ 16 ≤ c.ip := by omega
    obtain ⟨s₁, s₂, -, hstep⟩ := Encoder.encodeFrames_frame hrun (Nat.not_le.mp hn)
    have hdist := Periods.idrDistance_gt h1 (Encoder.intra_ne_zero hstep) (by omega)
    have hself : (c.ip % 16 + 1) % c.idrDistance = c.ip % 16 + 1 := by
      rcases hdist with h0 | hlt
      · rw [h0, Nat.mod_zero]
      · exact Nat.mod_eq_of_lt (by omega)
    have hlen : c.groupLen = c.ip := if_neg h1
    have hfirst := hclear (c.ip % 16 + 1) (by omega)
    rw [hself, hlen] at hfirst
    exact not_clear hip hfirst
  · intro hcond o ho
    have hlen : c.groupLen = if c.intra = 1 then 1 else c.ip := rfl
    by_cases h1 : c.intra = 1
    · rw [if_pos h1] at hlen
      exact clear_of_short hpos (by omega) (by omega) _
    · rw [if_neg h1] at hlen
      rcases hcond with h | ⟨h16, h8⟩ | hn
      · exact absurd h h1
      · exact clear_of_short hpos (by omega) (by omega) _
      · have hle := Nat.mod_le o c.idrDistance
        exact clear_of_early hpos (by rw [hlen]; omega)

/-- The periods 7/14/3 are safe, here in a run of 40 frames. -/
theorem references_safe_7_14_3 :
    let c : Config := ⟨⟨7, 14, 3, by decide, by decide, by decide, by decide, by decide⟩,
      by decide, 100, by decide, 640, 480⟩
    (Encoder.idle.encodeFrames c 40).isSome ∧
      Encoder.ReferencesSafe c (fun _ => none) 40 Encoder.idle := by
  intro c
  have hsome : (Encoder.idle.encodeFrames c 40).isSome := by decide +kernel
  obtain ⟨s, hs⟩ := Option.isSome_iff_exists.mp hsome
  refine ⟨hsome, (references_safe_iff c 40 Encoder.idle s (fun _ => none) hs).mpr ?_⟩
  exact Or.inr (Or.inl ⟨by decide, by decide⟩)

/-- 17/0/16: the first P frame refers to the IDR frame and is written over it. -/
theorem p_frame_over_idr :
    let c : Config := ⟨⟨17, 0, 16, by decide, by decide, by decide, by decide, by decide⟩,
      by decide, 100, by decide, 640, 480⟩
    (Encoder.idle.encodeFrames c 2).isSome ∧
      ¬ Encoder.ReferencesSafe c (fun _ => none) 2 Encoder.idle ∧
      ((Encoder.idle.encodeFrames c 1).bind (Encoder.nextPicParam c)) =
        some ⟨[⟨0, 0⟩], ⟨0, 32⟩⟩ := by
  intro c
  have hpic : ((Encoder.idle.encodeFrames c 1).bind (Encoder.nextPicParam c)) =
      some ⟨[⟨0, 0⟩], ⟨0, 32⟩⟩ := by decide +kernel
  refine ⟨by decide +kernel, ?_, hpic⟩
  intro hsafe
  obtain ⟨s, hs, hnext⟩ := Option.bind_eq_some_iff.mp hpic
  obtain ⟨held, hheld⟩ := Encoder.exists_encodeFramesOn (fun _ => none) hs
  have h := hsafe 1 (by decide) s held _ hheld hnext ⟨0, 0⟩ (List.mem_singleton.mpr rfl)
  exact h.1 rfl

end Hprd.Codec.Hevc

import Hprd.Common.IntQueue
import Hprd.Codec.FfmpegEnc

/-!
# The capture loop of `server.c` over its encoders

`capture_on_frame` takes a buffer out of the pool and hands it to the encoder.
`ffmpeg_encodec` puts it back from its conversion thread. `openh264_encodec` leaves
its id in `id_queue` for `encodec_get_fb`, which the loop of the server does not call.
-/

namespace Hprd.Server

open Hprd.Core Common Codec

inductive Encodec where
  | ffmpeg
  | openh264
  deriving DecidableEq

/-- `get_fb` over the buffers of `server_start`. -/
def getFb (isFree : Nat → Bool) : Option Nat := (List.range 5).find? isFree

/-- The pool, the loop and the threads are those of `EncState`; `openh264_encodec` has no threads.
`given` and `returned` are bookkeeping: the ids that the encoder took and that came back. -/
structure CaptureState (Raw Yuv : Type) where
  enc : EncState Raw Yuv
  idQueue : IntQueue
  exited : Bool
  given : List Nat
  returned : List Nat

/-- `capture_on_frame` without a client, its `capture_get_fb`, its `encodec_put_fb`, and a step of
either thread of `ffmpeg_encodec`. -/
inductive CaptureAction (Raw : Type) where
  | sleep
  | getFb (frame : Raw)
  | putFb
  | conv
  | enc (goOn : Bool)

section

variable {Raw Yuv : Type} (encodec : Encodec) (scale : Raw → Yuv) (sameFmt : Bool)

/-- `openh264_frame_enc` up to its loop over `queue_put_int`, one turn of it. -/
def openh264FrameEnc (s : CaptureState Raw Yuv) (bufId : Nat) : CaptureState Raw Yuv :=
  let (ret, idQueue) := queuePutInt s.idQueue bufId
  if ret = 0 then
    { s with
      enc := { s.enc with
        capture := .idle
        accepted := s.enc.accepted ++ [s.enc.bufs bufId]
        sent := s.enc.sent ++ [scale (s.enc.bufs bufId)] }
      idQueue := idQueue
      given := s.given ++ [bufId] }
  else s

def captureStep (s : CaptureState Raw Yuv) :
    CaptureAction Raw → Option (CaptureState Raw Yuv)
  | .sleep =>
      match s.enc.capture with
      | .idle => if s.exited then none else some s
      | .put _ => none
  | .getFb frame =>
      match s.enc.capture with
      | .idle =>
          if s.exited then none
          else
            match getFb s.enc.isFree with
            | none => some { s with exited := true }
            | some bufId =>
                (encStep scale sameFmt s.enc (.capture bufId frame)).map fun enc =>
                  { s with enc := enc }
      | .put _ => none
  | .putFb =>
      match s.enc.capture, encodec with
      | .idle, _ => none
      | .put bufId, .ffmpeg =>
          (encStep scale sameFmt s.enc .put).map fun enc =>
            { s with enc := enc, given := s.given ++ [bufId] }
      | .put bufId, .openh264 => some (openh264FrameEnc scale s bufId)
  | .conv =>
      match s.exited, encodec with
      | false, .ffmpeg =>
          (encStep scale sameFmt s.enc .conv).map fun enc =>
            { s with
              enc := enc
              returned := match s.enc.conv with
                | .putFb bufId => s.returned ++ [bufId]
                | _ => s.returned }
      | _, _ => none
  | .enc goOn =>
      match s.exited, encodec with
      | false, .ffmpeg =>
          (encStep scale sameFmt s.enc (.enc goOn)).map fun enc => { s with enc := enc }
      | _, _ => none

/-- A full pool and an initialised encoder. -/
def CaptureState.start (blank : Yuv) (bufs : Nat → Raw) : CaptureState Raw Yuv :=
  ⟨.start blank bufs, ⟨fun _ => 0, 0, 0⟩, false, [], []⟩

def captureMachine : Machine (CaptureState Raw Yuv) (CaptureAction Raw) where
  init s := ∃ blank bufs, s = .start blank bufs
  step := captureStep encodec scale sameFmt

/-- The back end's own threads keep making progress. -/
def KeepsGoing (a : Nat → CaptureAction Raw) : Encodec → Prop
  | .ffmpeg =>
      (∀ n, ∃ m, n ≤ m ∧ a m = .conv) ∧ (∀ n, ∃ m, n ≤ m ∧ a m = .enc true) ∧
        ∀ n, a n ≠ .enc false
  | .openh264 => True

/-- A buffer that is captured, or handed over and not yet converted. -/
def CaptureState.reading (s : CaptureState Raw Yuv) (bufId : Nat) : Prop :=
  s.enc.capture = .put bufId ∨ s.enc.curBufId = some bufId ∧ s.enc.conv.before

/-- The pool was never found empty, a buffer comes back at most once for each time it was given
and not while it is read, and every buffer given so far comes back in the end. -/
structure Conserves (s : CaptureState Raw Yuv) : Prop where
  stocked : s.exited = false
  once : ∀ bufId, s.returned.count bufId ≤ s.given.count bufId ∧
    s.given.count bufId ≤ s.returned.count bufId + 1
  read : ∀ bufId, s.reading bufId → s.enc.isFree bufId = false
  back : ∀ t a, t 0 = s → Trace (captureMachine encodec scale sameFmt) t a →
    KeepsGoing a encodec → ∀ bufId, ∃ n, s.given.count bufId ≤ (t n).returned.count bufId

end

/-! ## What a step can do -/

section

variable {Raw Yuv : Type} {encodec : Encodec} {scale : Raw → Yuv} {sameFmt : Bool}
  {s s' : CaptureState Raw Yuv}

inductive CaptureStepped (encodec : Encodec) (scale : Raw → Yuv) (sameFmt : Bool)
    (s : CaptureState Raw Yuv) : CaptureAction Raw → CaptureState Raw Yuv → Prop where
  | sleep : s.enc.capture = .idle → s.exited = false →
      CaptureStepped encodec scale sameFmt s .sleep s
  | empty {frame : Raw} : s.enc.capture = .idle → s.exited = false →
      getFb s.enc.isFree = none →
      CaptureStepped encodec scale sameFmt s (.getFb frame) { s with exited := true }
  | getFb {bufId : Nat} {frame : Raw} : s.enc.capture = .idle → s.exited = false →
      s.enc.isFree bufId = true →
      CaptureStepped encodec scale sameFmt s (.getFb frame) { s with enc := { s.enc with
        bufs := Function.update s.enc.bufs bufId frame
        isFree := Function.update s.enc.isFree bufId false
        capture := .put bufId } }
  | handOver {bufId : Nat} : encodec = .ffmpeg → s.enc.capture = .put bufId →
      s.enc.curBufId = none →
      CaptureStepped encodec scale sameFmt s .putFb { s with
        enc := { s.enc with
          curBufId := some bufId, capture := .idle
          accepted := s.enc.accepted ++ [s.enc.bufs bufId] }
        given := s.given ++ [bufId] }
  | encode {bufId : Nat} : encodec = .openh264 → s.enc.capture = .put bufId →
      CaptureStepped encodec scale sameFmt s .putFb (openh264FrameEnc scale s bufId)
  | putBack {bufId : Nat} : encodec = .ffmpeg → s.exited = false → s.enc.conv = .putFb bufId →
      CaptureStepped encodec scale sameFmt s .conv { s with
        enc := { s.enc with isFree := Function.update s.enc.isFree bufId true, conv := .clear }
        returned := s.returned ++ [bufId] }
  | conv {enc : EncState Raw Yuv} : encodec = .ffmpeg → s.exited = false →
      (∀ bufId, s.enc.conv ≠ .putFb bufId) → encStep scale sameFmt s.enc .conv = some enc →
      CaptureStepped encodec scale sameFmt s .conv { s with enc := enc }
  | enc {goOn : Bool} {enc : EncState Raw Yuv} : encodec = .ffmpeg → s.exited = false →
      encStep scale sameFmt s.enc (.enc goOn) = some enc →
      CaptureStepped encodec scale sameFmt s (.enc goOn) { s with enc := enc }

theorem captureStepped_getFb {frame : Raw}
    (hs : captureStep encodec scale sameFmt s (.getFb frame) = some s') :
    CaptureStepped encodec scale sameFmt s (.getFb frame) s' := by
  simp only [captureStep] at hs
  split at hs
  · next hidle =>
      split at hs
      · cases hs
      · next hexited =>
          have hstocked := eq_false_of_ne_true hexited
          split at hs
          · next hnone =>
              cases hs
              exact .empty hidle hstocked hnone
          · obtain ⟨enc, henc, rfl⟩ := Option.map_eq_some_iff.mp hs
            simp only [encStep, hidle] at henc
            split at henc
            · next hfree =>
                cases henc
                exact .getFb hidle hstocked hfree
            · cases henc
  · cases hs

theorem captureStepped_putFb (hs : captureStep encodec scale sameFmt s .putFb = some s') :
    CaptureStepped encodec scale sameFmt s .putFb s' := by
  simp only [captureStep] at hs
  split at hs
  · cases hs
  · next hput =>
      obtain ⟨enc, henc, rfl⟩ := Option.map_eq_some_iff.mp hs
      simp only [encStep, hput] at henc
      split at henc
      · next hput' hcur =>
          cases henc
          cases hput'
          exact .handOver rfl hput hcur
      · cases henc
  · next hput =>
      cases hs
      exact .encode rfl hput

theorem captureStepped_conv (hs : captureStep encodec scale sameFmt s .conv = some s') :
    CaptureStepped encodec scale sameFmt s .conv s' := by
  simp only [captureStep] at hs
  split at hs
  · next hstocked =>
      obtain ⟨enc, henc, rfl⟩ := Option.map_eq_some_iff.mp hs
      split
      · next bufId hconv =>
          simp only [encStep, convStep, hconv] at henc
          cases henc
          exact .putBack rfl hstocked hconv
      · next hno => exact .conv rfl hstocked hno henc
  · cases hs

theorem captureStepped {a : CaptureAction Raw}
    (hs : captureStep encodec scale sameFmt s a = some s') :
    CaptureStepped encodec scale sameFmt s a s' := by
  cases a with
  | sleep =>
      simp only [captureStep] at hs
      split at hs
      · next hidle =>
          split at hs
          · cases hs
          · next hexited =>
              cases hs
              exact .sleep hidle (eq_false_of_ne_true hexited)
      · cases hs
  | getFb frame => exact captureStepped_getFb hs
  | putFb => exact captureStepped_putFb hs
  | conv => exact captureStepped_conv hs
  | enc goOn =>
      simp only [captureStep] at hs
      split at hs
      · next hstocked =>
          obtain ⟨enc, henc, rfl⟩ := Option.map_eq_some_iff.mp hs
          exact .enc rfl hstocked henc
      · cases hs

end

/-! ## Who holds a buffer -/

section

variable {Raw Yuv : Type} {scale : Raw → Yuv} {sameFmt : Bool} {s s' : EncState Raw Yuv}

/-- Between two calls of `encodec_put_fb` the pool is not empty. -/
theorem getFb_ne_none (h : Owned s) (hidle : s.capture = .idle) :
    getFb s.isFree ≠ none := by
  intro hnone
  have hbusy : ∀ id < 5, s.isFree id = false := by
    intro id hid
    have := List.find?_eq_none.mp hnone id (List.mem_range.mpr hid)
    simpa using this
  have hcur : ∀ id < 5, s.curBufId = some id := by
    intro id hid
    rcases h.held id (hbusy id hid) with hput | ⟨hcur, -⟩
    · rw [hidle] at hput
      cases hput
    · exact hcur
  have h₀ := hcur 0 (by decide)
  have h₁ := hcur 1 (by decide)
  rw [h₀] at h₁
  cases h₁

/-- The buffer that the conversion thread has to put back. -/
def inHand (s : EncState Raw Yuv) : Option Nat :=
  match s.conv with
  | .clear => none
  | _ => s.curBufId

theorem inHand_of_ne (h : s.conv ≠ .clear) : inHand s = s.curBufId := by
  unfold inHand
  split
  · next hpc => exact absurd hpc h
  · rfl

/-- Before `put_fb` and behind it the conversion thread keeps its buffer. -/
theorem inHand_conv (h : encStep scale sameFmt s .conv = some s') (hexit : s.exit = false)
    (hpc : ∀ bufId, s.conv ≠ .putFb bufId) :
    inHand s' = inHand s ∧ s'.exit = false ∧ (s.conv ≠ .done → s'.conv ≠ .done) := by
  simp only [encStep] at h
  cases hconv : s.conv with
  | putFb bufId => exact absurd hconv (hpc bufId)
  | loop =>
      cases hcur : s.curBufId with
      | none =>
          simp only [convStep, hconv, hcur, hexit] at h
          cases h
          simp [hexit, hconv]
      | some bufId =>
          simp only [convStep, hconv, hcur, hexit] at h
          cases h
          simp [inHand, hconv, hcur]
  | scale bufId =>
      simp only [convStep, hconv] at h
      split at h
      · cases h
        simp [inHand, hexit, hconv]
      · cases h
        simp [inHand, hexit, hconv]
  | waitOver bufId =>
      simp only [convStep, hconv] at h
      split at h
      · cases h
        simp [hexit, hconv]
      · cases h
        simp [inHand, hexit, hconv]
  | setOver bufId =>
      simp only [convStep, hconv] at h
      cases h
      simp [inHand, hexit, hconv]
  | clear =>
      simp only [convStep, hconv] at h
      cases h
      simp [inHand, hexit, hconv]
  | done =>
      simp only [convStep, hconv] at h
      cases h

end

/-! ## `ffmpeg_encodec` -/

section

variable {Raw Yuv : Type} {scale : Raw → Yuv} {sameFmt : Bool} {s s' : CaptureState Raw Yuv}

/-- What was given and is not in hand has come back, in order. -/
structure FfmpegInv (s : CaptureState Raw Yuv) : Prop where
  owned : Owned s.enc
  stocked : s.exited = false
  running : s.enc.exit = false
  alive : s.enc.conv ≠ .done
  given : s.given = s.returned ++ (inHand s.enc).toList

theorem frame_encThread {e e' : EncState Raw Yuv} {goOn : Bool}
    (h : encStep scale sameFmt e (.enc goOn) = some e') :
    e'.conv = e.conv ∧ e'.curBufId = e.curBufId ∧ e'.exit = e.exit := by
  cases encStepped h with
  | encWait => exact ⟨rfl, rfl, rfl⟩
  | encDone hpc => exact ⟨rfl, rfl, rfl⟩
  | encTake hpc hover => exact ⟨rfl, rfl, rfl⟩
  | send hpc => exact ⟨rfl, rfl, rfl⟩
  | lower hpc => exact ⟨rfl, rfl, rfl⟩

theorem ffmpegInv_step {a : CaptureAction Raw} (h : FfmpegInv s)
    (hs : captureStep .ffmpeg scale sameFmt s a = some s') : FfmpegInv s' := by
  obtain ⟨howned, hstocked, hrun, halive, hgiven⟩ := h
  cases captureStepped hs with
  | sleep hidle hexited => exact ⟨howned, hstocked, hrun, halive, hgiven⟩
  | empty hidle hexited hnone => exact absurd hnone (getFb_ne_none howned hidle)
  | getFb hidle hexited hfree => exact ⟨howned.capture hidle hfree, hstocked, hrun, halive, hgiven⟩
  | @handOver bufId hff hput hnone =>
      have hne : s.enc.conv ≠ .clear := fun hc => howned.taken hc hnone
      rw [inHand_of_ne hne, hnone, Option.toList_none, List.append_nil] at hgiven
      refine ⟨howned.put hput hnone, hstocked, hrun, halive, ?_⟩
      show s.given ++ [bufId] = s.returned ++ (inHand _).toList
      rw [hgiven, inHand_of_ne (by exact hne), Option.toList_some]
  | encode hne hput => cases hne
  | @putBack bufId hff hexited hconv =>
      have hcur := howned.current bufId (by rw [hconv]; rfl)
      have hne : s.enc.conv ≠ .clear := by
        rw [hconv]
        exact nofun
      rw [inHand_of_ne hne, hcur, Option.toList_some] at hgiven
      refine ⟨howned.putFb hconv, hstocked, hrun, nofun, ?_⟩
      exact hgiven.trans (List.append_nil _).symm
  | conv hff hexited hno henc =>
      obtain ⟨hhand, hexit, hdone⟩ := inHand_conv henc hrun hno
      refine ⟨owned_step howned (encStepped henc), hstocked, hexit, hdone halive, ?_⟩
      rw [hhand]
      exact hgiven
  | @enc goOn enc hff hexited henc =>
      obtain ⟨hconv, hcur, hexit⟩ := frame_encThread henc
      have hhand : inHand enc = inHand s.enc := by rw [inHand, inHand, hconv, hcur]
      refine ⟨owned_step howned (encStepped henc), hstocked, hexit.trans hrun, by rwa [hconv], ?_⟩
      rw [hhand]
      exact hgiven

theorem FfmpegInv.once (h : FfmpegInv s) (bufId : Nat) :
    s.returned.count bufId ≤ s.given.count bufId ∧
      s.given.count bufId ≤ s.returned.count bufId + 1 := by
  rw [h.given, List.count_append]
  have hle : (inHand s.enc).toList.count bufId ≤ 1 := by
    refine List.count_le_length.trans ?_
    cases inHand s.enc <;> simp
  omega

theorem FfmpegInv.read (h : FfmpegInv s) {bufId : Nat} (hr : s.reading bufId) :
    s.enc.isFree bufId = false := by
  rcases hr with hput | ⟨hcur, hbefore⟩
  · exact (h.owned.captured bufId hput).1
  · refine h.owned.busy bufId hcur fun hclear => ?_
    rw [hclear] at hbefore
    cases hbefore

/-! ### Every buffer comes back -/

inductive EncThread where
  | conv
  | enc
  deriving DecidableEq

def acts (a : Nat → CaptureAction Raw) : EncThread → Nat → Prop
  | .conv, n => a n = .conv
  | .enc, n => a n = .enc true

/-- The steps of the encoding thread up to its reset of `conv_over`. -/
def encRank : EncPc → Nat
  | .loop => 3
  | .send => 2
  | .clear => 1
  | .done => 0

/-- The steps up to `put_fb`. -/
def backRank (s : CaptureState Raw Yuv) : Nat :=
  match s.enc.conv with
  | .loop => 20
  | .scale _ => 15
  | .waitOver _ => if s.enc.convOver then 6 + encRank s.enc.enc else 6
  | .setOver _ => 5
  | .putFb _ => 4
  | _ => 0

/-- The thread whose step the way to `put_fb` waits for. -/
def needed (s : CaptureState Raw Yuv) : EncThread :=
  match s.enc.conv with
  | .waitOver _ => if s.enc.convOver then .enc else .conv
  | _ => .conv

theorem backRank_conv (h : FfmpegInv s) {bufId : Nat} (hhand : inHand s.enc = some bufId)
    (hs : captureStep .ffmpeg scale sameFmt s .conv = some s') :
    s'.returned = s.returned ++ [bufId] ∨ backRank s' < backRank s ∨
      s' = s ∧ needed s = .enc := by
  simp only [captureStep, h.stocked] at hs
  obtain ⟨enc, henc, rfl⟩ := Option.map_eq_some_iff.mp hs
  simp only [encStep] at henc
  have hne : s.enc.conv ≠ .clear := by
    intro hclear
    simp [inHand, hclear] at hhand
  rw [inHand_of_ne hne] at hhand
  cases hconv : s.enc.conv with
  | loop =>
      simp only [convStep, hconv, hhand, h.running] at henc
      cases henc
      exact Or.inr (Or.inl (by simp [backRank, hconv]))
  | scale id =>
      simp only [convStep, hconv] at henc
      split at henc
      · cases henc
        refine Or.inr (Or.inl ?_)
        simp only [backRank, hconv]
        cases s.enc.convOver <;> cases s.enc.enc <;> simp [encRank]
      · cases henc
        refine Or.inr (Or.inl ?_)
        simp only [backRank, hconv]
        cases s.enc.convOver <;> cases s.enc.enc <;> simp [encRank]
  | waitOver id =>
      simp only [convStep, hconv] at henc
      split at henc
      · next hover =>
          cases henc
          refine Or.inr (Or.inr ⟨?_, by simp [needed, hconv, hover]⟩)
          have hstocked := h.stocked
          cases s
          simp_all
      · next hover =>
          cases henc
          exact Or.inr (Or.inl (by simp [backRank, hconv, hover]))
  | setOver id =>
      simp only [convStep, hconv] at henc
      cases henc
      exact Or.inr (Or.inl (by simp [backRank, hconv]))
  | putFb id =>
      have hcur := h.owned.current id (by rw [hconv]; rfl)
      rw [hhand, Option.some.injEq] at hcur
      exact Or.inl (by rw [hcur])
  | clear => exact absurd hconv hne
  | done => exact absurd hconv h.alive

theorem backRank_enc (h : FfmpegInv s)
    (hs : captureStep .ffmpeg scale sameFmt s (.enc true) = some s') :
    backRank s' < backRank s ∨
      backRank s' = backRank s ∧ needed s' = needed s ∧ needed s = .conv := by
  simp only [captureStep, h.stocked] at hs
  obtain ⟨enc, henc, rfl⟩ := Option.map_eq_some_iff.mp hs
  simp only [encStep, encThreadStep, h.running] at henc
  cases hpc : s.enc.enc with
  | loop =>
      simp only [hpc] at henc
      cases hover : s.enc.convOver with
      | false =>
          simp [hover] at henc
          subst henc
          refine Or.inr ⟨rfl, rfl, ?_⟩
          unfold needed
          split
          · simp [hover]
          · rfl
      | true =>
          simp [hover] at henc
          subst henc
          cases hconv : s.enc.conv <;> simp [backRank, needed, hconv, hover, hpc, encRank]
  | send =>
      simp only [hpc] at henc
      cases henc
      cases hconv : s.enc.conv <;> cases hover : s.enc.convOver <;>
        simp [backRank, needed, hconv, hover, hpc, encRank]
  | clear =>
      simp only [hpc] at henc
      cases henc
      cases hconv : s.enc.conv <;> cases hover : s.enc.convOver <;>
        simp [backRank, needed, hconv, hover, hpc, encRank]
  | done =>
      simp only [hpc] at henc
      cases henc

theorem backRank_other {a : CaptureAction Raw} (hconv : a ≠ .conv) (henc : a ≠ .enc true)
    (henc' : a ≠ .enc false) (hs : captureStep .ffmpeg scale sameFmt s a = some s') :
    backRank s' = backRank s ∧ needed s' = needed s := by
  cases captureStepped hs with
  | sleep hidle hexited => exact ⟨rfl, rfl⟩
  | empty hidle hexited hnone => exact ⟨rfl, rfl⟩
  | getFb hidle hexited hfree => exact ⟨rfl, rfl⟩
  | handOver hff hput hnone => exact ⟨rfl, rfl⟩
  | encode hne hput => cases hne
  | putBack hff hexited hpc => exact absurd rfl hconv
  | conv hff hexited hno hstep => exact absurd rfl hconv
  | @enc goOn enc hff hexited hstep =>
      cases goOn with
      | true => exact absurd rfl henc
      | false => exact absurd rfl henc'

/-- What was given stays given, and what has come back stays. -/
theorem grows_step {encodec : Encodec} {a : CaptureAction Raw}
    (hs : captureStep encodec scale sameFmt s a = some s') :
    s.given <+: s'.given ∧ s.returned <+: s'.returned := by
  cases captureStepped hs with
  | sleep hidle hexited => exact ⟨List.prefix_rfl, List.prefix_rfl⟩
  | empty hidle hexited hnone => exact ⟨List.prefix_rfl, List.prefix_rfl⟩
  | getFb hidle hexited hfree => exact ⟨List.prefix_rfl, List.prefix_rfl⟩
  | handOver hff hput hnone => exact ⟨List.prefix_append .., List.prefix_rfl⟩
  | encode hopen hput =>
      unfold openh264FrameEnc
      dsimp only
      split
      · exact ⟨List.prefix_append .., List.prefix_rfl⟩
      · exact ⟨List.prefix_rfl, List.prefix_rfl⟩
  | putBack hff hexited hpc => exact ⟨List.prefix_rfl, List.prefix_append ..⟩
  | conv hff hexited hno hstep => exact ⟨List.prefix_rfl, List.prefix_rfl⟩
  | enc hff hexited hstep => exact ⟨List.prefix_rfl, List.prefix_rfl⟩

theorem FfmpegInv.back {t : Nat → CaptureState Raw Yuv} {a : Nat → CaptureAction Raw}
    (h : FfmpegInv (t 0)) (ht : Trace (captureMachine .ffmpeg scale sameFmt) t a)
    (hfair : KeepsGoing a .ffmpeg) : ∃ n, (t 0).given <+: (t n).returned := by
  have hinv : ∀ n, FfmpegInv (t n) := by
    intro n
    induction n with
    | zero => exact h
    | succ n ih => exact ffmpegInv_step ih (ht n)
  have hgiven : ∀ n, (t 0).given <+: (t n).given := by
    intro n
    induction n with
    | zero => exact List.prefix_rfl
    | succ n ih => exact ih.trans (grows_step (ht n)).1
  obtain ⟨hconv, henc, hon⟩ := hfair
  -- One buffer is in hand at most, so the given ones are back once their number is.
  have hlong : ∃ n, (t 0).given.length ≤ (t n).returned.length := by
    refine eventually_of_fair (s := t) (fun s => (t 0).given.length ≤ s.returned.length)
      backRank needed (acts a) ?_ ?_
    · intro thread n
      cases thread with
      | conv => exact hconv n
      | enc => exact henc n
    · intro n hshort
      have hle := (hgiven n).length_le
      have hlist := (hinv n).given
      have hsome : ∃ bufId, inHand (t n).enc = some bufId := by
        cases hhand : inHand (t n).enc with
        | some bufId => exact ⟨bufId, rfl⟩
        | none =>
            rw [hhand, Option.toList_none, List.append_nil] at hlist
            rw [hlist] at hle
            exact absurd hle hshort
      obtain ⟨bufId, hhand⟩ := hsome
      have hstep : captureStep .ffmpeg scale sameFmt (t n) (a n) = some (t (n + 1)) := ht n
      by_cases hc : a n = .conv
      · rw [hc] at hstep
        rcases backRank_conv (hinv n) hhand hstep with hback | hlt | ⟨hsame, hneed⟩
        · refine Or.inl ?_
          rw [hhand] at hlist
          have hlen := congrArg List.length hlist
          rw [List.length_append] at hlen
          show (t 0).given.length ≤ (t (n + 1)).returned.length
          rw [hback, List.length_append]
          exact hle.trans hlen.le
        · exact Or.inr (Or.inl hlt)
        · refine Or.inr (Or.inr ⟨by rw [hsame], by rw [hsame], ?_⟩)
          rw [hneed]
          intro hacts
          rw [acts, hc] at hacts
          cases hacts
      · by_cases he : a n = .enc true
        · rw [he] at hstep
          rcases backRank_enc (hinv n) hstep with hlt | ⟨hrank, hneed, hthread⟩
          · exact Or.inr (Or.inl hlt)
          · refine Or.inr (Or.inr ⟨hrank, hneed, ?_⟩)
            rw [hthread]
            intro hacts
            exact hc hacts
        · obtain ⟨hrank, hneed⟩ := backRank_other hc he (hon n) hstep
          refine Or.inr (Or.inr ⟨hrank, hneed, ?_⟩)
          intro hacts
          cases hthread : needed (t n) with
          | conv =>
              rw [hthread] at hacts
              exact hc hacts
          | enc =>
              rw [hthread] at hacts
              exact he hacts
  obtain ⟨n, hn⟩ := hlong
  refine ⟨n, List.prefix_of_prefix_length_le (hgiven n) ?_ hn⟩
  rw [(hinv n).given]
  exact List.prefix_append ..

theorem ffmpegInv_start (blank : Yuv) (bufs : Nat → Raw) : FfmpegInv (.start blank bufs) := by
  constructor
  · constructor <;> simp [CaptureState.start, EncState.start, ConvPc.bufId]
  · rfl
  · rfl
  · simp [CaptureState.start, EncState.start]
  · rfl

/-! ## `openh264_encodec` -/

/-- Nothing comes back; what is out of the pool was captured or given. -/
structure Openh264Inv (s : CaptureState Raw Yuv) : Prop where
  returned : s.returned = []
  handedOver : s.enc.curBufId = none
  captured : ∀ bufId, s.enc.capture = .put bufId → s.enc.isFree bufId = false
  held : ∀ bufId, s.enc.isFree bufId = false → s.enc.capture = .put bufId ∨ bufId ∈ s.given
  stocked : s.given = [] → s.exited = false
  once : ∀ bufId, s.given.count bufId ≤ 1
  out : ∀ bufId ∈ s.given, s.enc.isFree bufId = false ∧ s.enc.capture ≠ .put bufId

theorem openh264Inv_getFb (h : Openh264Inv s) (hidle : s.enc.capture = .idle)
    (hnone : getFb s.enc.isFree = none) : Openh264Inv { s with exited := true } := by
  refine ⟨h.returned, h.handedOver, h.captured, h.held, fun hempty => ?_, h.once, h.out⟩
  have hbusy := List.find?_eq_none.mp hnone 0 (by decide)
  rcases h.held 0 (by simpa using hbusy) with hput | hmem
  · rw [hidle] at hput
    cases hput
  · rw [hempty] at hmem
    cases hmem

theorem openh264Inv_capture (h : Openh264Inv s) {bufId : Nat} {frame : Raw}
    (hidle : s.enc.capture = .idle) (hfree : s.enc.isFree bufId = true) :
    Openh264Inv { s with enc := { s.enc with
      bufs := Function.update s.enc.bufs bufId frame
      isFree := Function.update s.enc.isFree bufId false
      capture := .put bufId } } := by
  have hnot : bufId ∉ s.given := by
    intro hmem
    rw [(h.out bufId hmem).1] at hfree
    cases hfree
  refine ⟨h.returned, h.handedOver, ?_, ?_, h.stocked, h.once, ?_⟩
  · intro id hput
    cases hput
    exact Function.update_self ..
  · intro id hbusy
    by_cases hid : id = bufId
    · exact Or.inl (by rw [hid])
    · have hbusy' : s.enc.isFree id = false :=
        (Function.update_of_ne hid false s.enc.isFree).symm.trans hbusy
      rcases h.held id hbusy' with hput | hmem
      · rw [hidle] at hput
        cases hput
      · exact Or.inr hmem
  · intro id hmem
    have hid : id ≠ bufId := fun he => hnot (he ▸ hmem)
    refine ⟨?_, fun hput => ?_⟩
    · show Function.update s.enc.isFree bufId false id = false
      rw [Function.update_of_ne hid]
      exact (h.out id hmem).1
    · cases hput
      exact hid rfl

theorem openh264Inv_put (h : Openh264Inv s) {bufId : Nat} (hput : s.enc.capture = .put bufId) :
    Openh264Inv (openh264FrameEnc scale s bufId) := by
  unfold openh264FrameEnc
  dsimp only
  split
  · have hnot : bufId ∉ s.given := fun hmem => (h.out bufId hmem).2 hput
    refine ⟨h.returned, h.handedOver, ?_, ?_, ?_, ?_, ?_⟩
    · intro id hid
      cases hid
    · intro id hbusy
      rcases h.held id hbusy with hid | hmem
      · rw [hput] at hid
        cases hid
        exact Or.inr (List.mem_append_right _ (List.mem_singleton_self _))
      · exact Or.inr (List.mem_append_left _ hmem)
    · intro hempty
      simp at hempty
    · intro id
      rw [List.count_append]
      by_cases hid : id = bufId
      · subst hid
        rw [List.count_eq_zero.mpr hnot]
        simp
      · have hzero : [bufId].count id = 0 := by
          rw [List.count_eq_zero]
          simpa using hid
        rw [hzero]
        exact h.once id
    · intro id hmem
      refine ⟨?_, fun hid => by cases hid⟩
      rcases List.mem_append.mp hmem with hmem | hmem
      · exact (h.out id hmem).1
      · rw [List.mem_singleton] at hmem
        rw [hmem]
        exact h.captured bufId hput
  · exact h

theorem openh264Inv_step {a : CaptureAction Raw} (h : Openh264Inv s)
    (hs : captureStep .openh264 scale sameFmt s a = some s') : Openh264Inv s' := by
  cases captureStepped hs with
  | sleep hidle hexited => exact h
  | empty hidle hexited hnone => exact openh264Inv_getFb h hidle hnone
  | getFb hidle hexited hfree => exact openh264Inv_capture h hidle hfree
  | handOver hff hput hnone => cases hff
  | encode hopen hput => exact openh264Inv_put h hput
  | putBack hff hexited hpc => cases hff
  | conv hff hexited hno hstep => cases hff
  | enc hff hexited hstep => cases hff

theorem openh264Inv_start (blank : Yuv) (bufs : Nat → Raw) :
    Openh264Inv (.start blank bufs) := by
  constructor <;> simp [CaptureState.start, EncState.start]

/-- No frames any more, once the current one is through. -/
def windDown (scale : Raw → Yuv) (s : CaptureState Raw Yuv) : CaptureState Raw Yuv :=
  match s.enc.capture with
  | .idle => s
  | .put bufId => openh264FrameEnc scale s bufId

def windDownAction (s : CaptureState Raw Yuv) : CaptureAction Raw :=
  match s.enc.capture with
  | .idle => .sleep
  | .put _ => .putFb

theorem windDown_step (scale : Raw → Yuv) (sameFmt : Bool) (h : s.exited = false) :
    captureStep .openh264 scale sameFmt s (windDownAction s) = some (windDown scale s) ∧
      (windDown scale s).exited = false ∧ (windDown scale s).returned = s.returned := by
  unfold windDownAction windDown
  cases hput : s.enc.capture with
  | idle => simp [captureStep, hput, h]
  | put bufId =>
      simp only [captureStep, hput]
      unfold openh264FrameEnc
      dsimp only
      split <;> exact ⟨trivial, h, rfl⟩

/-- A buffer that was given to `openh264_encodec` stays away. -/
theorem Openh264Inv.not_back (h : Openh264Inv s) (sameFmt : Bool) (hgiven : s.given ≠ [])
    (hstocked : s.exited = false) :
    ∃ t a, t 0 = s ∧ Trace (captureMachine .openh264 scale sameFmt) t a ∧
      ∃ bufId, ∀ n, ¬s.given.count bufId ≤ (t n).returned.count bufId := by
  obtain ⟨bufId, hmem⟩ := List.exists_mem_of_ne_nil _ hgiven
  have hall : ∀ n, ((windDown scale)^[n] s).exited = false ∧
      ((windDown scale)^[n] s).returned = [] := by
    intro n
    induction n with
    | zero => exact ⟨hstocked, h.returned⟩
    | succ n ih =>
        rw [Function.iterate_succ_apply']
        have hstep := windDown_step scale false ih.1
        exact ⟨hstep.2.1, hstep.2.2.trans ih.2⟩
  refine ⟨fun n => (windDown scale)^[n] s, fun n => windDownAction ((windDown scale)^[n] s), rfl,
    fun n => ?_, bufId, fun n => ?_⟩
  · show captureStep _ _ _ _ _ = some ((windDown scale)^[n + 1] s)
    rw [Function.iterate_succ_apply']
    exact (windDown_step scale sameFmt (hall n).1).1
  · rw [(hall n).2]
    have hpos := List.count_pos_iff.mpr hmem
    simpa using hpos.ne'

/-! ## Both encoders -/

/-- The buffers are conserved with `ffmpeg_encodec`, and with `openh264_encodec` until it is given
the first one. -/
theorem conserves_iff {encodec : Encodec}
    (h : (captureMachine encodec scale sameFmt).Reachable s) :
    Conserves encodec scale sameFmt s ↔ encodec = .ffmpeg ∨ s.given = [] := by
  cases encodec with
  | ffmpeg =>
      have hinv : FfmpegInv s := by
        refine Machine.Run.invariant (P := FfmpegInv) ?_ (fun _ _ _ hi _ hs =>
          ffmpegInv_step hi hs) h
        rintro _ ⟨blank, bufs, rfl⟩
        exact ffmpegInv_start blank bufs
      refine ⟨fun _ => Or.inl rfl, fun _ => ⟨hinv.stocked, hinv.once, fun _ => hinv.read, ?_⟩⟩
      rintro t a rfl ht hfair bufId
      obtain ⟨n, hn⟩ := hinv.back ht hfair
      exact ⟨n, hn.sublist.count_le bufId⟩
  | openh264 =>
      have hinv : Openh264Inv s := by
        refine Machine.Run.invariant (P := Openh264Inv) ?_ (fun _ _ _ hi _ hs =>
          openh264Inv_step hi hs) h
        rintro _ ⟨blank, bufs, rfl⟩
        exact openh264Inv_start blank bufs
      constructor
      · intro hc
        by_contra hgiven
        rw [not_or] at hgiven
        obtain ⟨t, a, ht₀, ht, bufId, hnever⟩ :=
          hinv.not_back sameFmt hgiven.2 hc.stocked
        obtain ⟨n, hn⟩ := hc.back t a ht₀ ht trivial bufId
        exact hnever n hn
      · rintro (hff | hempty)
        · cases hff
        · refine ⟨hinv.stocked hempty, fun bufId => ?_, fun bufId hr => ?_, fun t a _ _ _ bufId => ?_⟩
          · rw [hinv.returned, hempty]
            exact ⟨le_refl _, Nat.le_succ _⟩
          · rcases hr with hput | ⟨hcur, -⟩
            · exact hinv.captured bufId hput
            · rw [hinv.handedOver] at hcur
              cases hcur
          · rw [hempty]
            exact ⟨0, Nat.zero_le _⟩

end

/-- `ffmpeg_encodec` is given three frames. The second is captured while the first is converted, the
third in the buffer of the first while the second waits for `conv_over`; the loop sleeps once. -/
def threeCaptures : List (CaptureAction Nat) :=
  [.getFb 1, .putFb, .conv, .getFb 2, .conv, .conv, .conv, .enc true, .conv, .conv, .putFb, .conv,
    .enc true, .conv, .conv, .sleep, .getFb 3, .enc true, .conv, .conv, .conv, .conv, .putFb, .conv]

theorem conserves_threeCaptures : ∃ s : CaptureState Nat Nat,
    (captureMachine .ffmpeg id false).Reachable s ∧ s.given = [0, 1, 0] ∧ s.returned = [0, 1] ∧
    s.reading 0 ∧ Conserves .ffmpeg id false s := by
  obtain ⟨s, hs, hview⟩ := Option.map_eq_some_iff.mp (by decide +kernel :
    ((captureMachine .ffmpeg id false).exec (.start 0 fun _ => 0) threeCaptures).map (fun s =>
      (s.given, s.returned, s.enc.curBufId, s.enc.conv.before)) =
      some ([0, 1, 0], [0, 1], some 0, true))
  simp only [Prod.mk.injEq] at hview
  obtain ⟨hgiven, hreturned, hcur, hbefore⟩ := hview
  have hreach : (captureMachine .ffmpeg id false).Reachable s :=
    Machine.Reachable.exec (.start ⟨0, fun _ => 0, rfl⟩) hs
  exact ⟨s, hreach, hgiven, hreturned, .inr ⟨hcur, hbefore⟩, (conserves_iff hreach).mpr (.inl rfl)⟩

/-- With `openh264_encodec` the sixth frame finds the pool empty. -/
theorem pool_empty : ∃ s : CaptureState Nat Nat,
    (captureMachine .openh264 id false).Reachable s ∧ s.exited = true ∧
      ¬Conserves .openh264 id false s := by
  have hrun : ((captureMachine .openh264 id false).exec (.start 0 fun _ => 0)
      [.getFb 1, .putFb, .getFb 2, .putFb, .getFb 3, .putFb, .getFb 4, .putFb, .getFb 5, .putFb,
        .getFb 6]).map (fun s => s.exited) = some true := by
    decide
  obtain ⟨s, hs, hout⟩ := Option.map_eq_some_iff.mp hrun
  refine ⟨s, Machine.Reachable.exec (.start ⟨0, fun _ => 0, rfl⟩) hs, hout, fun hc => ?_⟩
  rw [hc.stocked] at hout
  cases hout

end Hprd.Server

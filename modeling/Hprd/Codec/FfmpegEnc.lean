import Mathlib.Logic.Function.Basic
import Hprd.Core.Machine

/-!
# The three threads of `codec/ffmpeg_enc.c`

`ffmpeg_frame_enc` hands a buffer over in `cur_buf_id`, `_ffmpeg_conv_thread`
converts it into `av_frame` and raises `conv_over`, `_ffmpeg_enc_thread` sends
`av_frame` and lowers it. The conversion writes `av_frame` before it waits for
`conv_over`, so the frame before it may not have been sent yet. Where it has been,
the sent frames are the first of the accepted ones.
-/

namespace Hprd.Codec

open Hprd.Core

/-- The capture thread has filled a buffer of the pool and calls `ffmpeg_frame_enc`. -/
inductive CapturePc where
  | idle
  | put (bufId : Nat)

/-- `_ffmpeg_conv_thread` at the head of its loop, before `sws_scale`, in and after the wait for
`conv_over`, before `put_fb`, and before it resets `cur_buf_id`. -/
inductive ConvPc where
  | loop
  | scale (bufId : Nat)
  | waitOver (bufId : Nat)
  | setOver (bufId : Nat)
  | putFb (bufId : Nat)
  | clear
  | done

/-- `_ffmpeg_enc_thread` at the head of its loop, before `avcodec_send_frame`, and before it
resets `conv_over`. -/
inductive EncPc where
  | loop
  | send
  | clear
  | done

/-- `curBufId` is `none` for -1. The lists are bookkeeping. -/
structure EncState (Raw Yuv : Type) where
  curBufId : Option Nat
  convOver : Bool
  avFrame : Yuv
  bufs : Nat → Raw
  isFree : Nat → Bool
  exit : Bool
  capture : CapturePc
  conv : ConvPc
  enc : EncPc
  accepted : List Raw
  sent : List Yuv

/-- A frame is captured into a free buffer; a step of `ffmpeg_frame_enc`, of the conversion
thread or of the encoding thread, which ends when `avcodec_receive_packet` fails; and the
release of the encoder. -/
inductive EncAction (Raw : Type) where
  | capture (bufId : Nat) (frame : Raw)
  | put
  | conv
  | enc (goOn : Bool)
  | exit

section

variable {Raw Yuv : Type} (scale : Raw → Yuv) (sameFmt : Bool)

/-- Where the formats agree the code only logs. -/
def convStep (s : EncState Raw Yuv) : Option (EncState Raw Yuv) :=
  match s.conv with
  | .loop =>
      if s.exit then some { s with conv := .done }
      else
        match s.curBufId with
        | none => some s
        | some bufId => some { s with conv := .scale bufId }
  | .scale bufId =>
      if sameFmt then some { s with conv := .waitOver bufId }
      else some { s with avFrame := scale (s.bufs bufId), conv := .waitOver bufId }
  | .waitOver bufId => if s.convOver then some s else some { s with conv := .setOver bufId }
  | .setOver bufId => some { s with convOver := true, conv := .putFb bufId }
  | .putFb bufId =>
      some { s with isFree := Function.update s.isFree bufId true, conv := .clear }
  | .clear => some { s with curBufId := none, conv := .loop }
  | .done => none

def encThreadStep (s : EncState Raw Yuv) (goOn : Bool) : Option (EncState Raw Yuv) :=
  match s.enc with
  | .loop =>
      if s.exit then some { s with enc := .done }
      else if s.convOver then some { s with enc := .send }
      else some s
  | .send => some { s with sent := s.sent ++ [s.avFrame], enc := .clear }
  | .clear => some { s with convOver := false, enc := if goOn then .loop else .done }
  | .done => none

def encStep (s : EncState Raw Yuv) : EncAction Raw → Option (EncState Raw Yuv)
  | .capture bufId frame =>
      match s.capture with
      | .idle =>
          if s.isFree bufId then
            some { s with
              bufs := Function.update s.bufs bufId frame
              isFree := Function.update s.isFree bufId false
              capture := .put bufId }
          else none
      | .put _ => none
  | .put =>
      match s.capture, s.curBufId with
      | .put bufId, none =>
          some { s with
            curBufId := some bufId, capture := .idle,
            accepted := s.accepted ++ [s.bufs bufId] }
      | _, _ => none
  | .conv => convStep scale sameFmt s
  | .enc goOn => encThreadStep s goOn
  | .exit => some { s with exit := true }

/-- An initialised encoder, with anything in its buffers. -/
def EncState.start (blank : Yuv) (bufs : Nat → Raw) : EncState Raw Yuv :=
  ⟨none, false, blank, bufs, fun _ => true, false, .idle, .loop, .loop, [], []⟩

def encMachine : Machine (EncState Raw Yuv) (EncAction Raw) where
  init s := ∃ blank bufs, s = .start blank bufs
  step := encStep scale sameFmt

/-- `sws_scale` runs, and runs when the frame before it is not about to be sent. -/
def ScaledAfterSend (s : EncState Raw Yuv) (a : EncAction Raw) : Prop :=
  a = .conv → ∀ bufId, s.conv = .scale bufId →
    sameFmt = false ∧ (s.convOver = true → s.enc ≠ .loop ∧ s.enc ≠ .send)

end

/-! ## What a step can do -/

section

variable {Raw Yuv : Type} {scale : Raw → Yuv} {sameFmt : Bool} {s s' : EncState Raw Yuv}

inductive EncStepped (scale : Raw → Yuv) (sameFmt : Bool) (s : EncState Raw Yuv) :
    EncAction Raw → EncState Raw Yuv → Prop where
  | capture {bufId : Nat} {frame : Raw} : s.capture = .idle → s.isFree bufId = true →
      EncStepped scale sameFmt s (.capture bufId frame) { s with
        bufs := Function.update s.bufs bufId frame
        isFree := Function.update s.isFree bufId false
        capture := .put bufId }
  | put {bufId : Nat} : s.capture = .put bufId → s.curBufId = none →
      EncStepped scale sameFmt s .put { s with
        curBufId := some bufId, capture := .idle, accepted := s.accepted ++ [s.bufs bufId] }
  | convWait : EncStepped scale sameFmt s .conv s
  | convDone : s.conv = .loop → EncStepped scale sameFmt s .conv { s with conv := .done }
  | convTake {bufId : Nat} : s.conv = .loop → s.curBufId = some bufId →
      EncStepped scale sameFmt s .conv { s with conv := .scale bufId }
  | unsupported {bufId : Nat} : s.conv = .scale bufId → sameFmt = true →
      EncStepped scale sameFmt s .conv { s with conv := .waitOver bufId }
  | scale {bufId : Nat} : s.conv = .scale bufId → sameFmt = false →
      EncStepped scale sameFmt s .conv
        { s with avFrame := scale (s.bufs bufId), conv := .waitOver bufId }
  | seenLow {bufId : Nat} : s.conv = .waitOver bufId → s.convOver = false →
      EncStepped scale sameFmt s .conv { s with conv := .setOver bufId }
  | setOver {bufId : Nat} : s.conv = .setOver bufId →
      EncStepped scale sameFmt s .conv { s with convOver := true, conv := .putFb bufId }
  | putFb {bufId : Nat} : s.conv = .putFb bufId →
      EncStepped scale sameFmt s .conv
        { s with isFree := Function.update s.isFree bufId true, conv := .clear }
  | clear : s.conv = .clear →
      EncStepped scale sameFmt s .conv { s with curBufId := none, conv := .loop }
  | encWait {goOn : Bool} : EncStepped scale sameFmt s (.enc goOn) s
  | encDone {goOn : Bool} : s.enc = .loop →
      EncStepped scale sameFmt s (.enc goOn) { s with enc := .done }
  | encTake {goOn : Bool} : s.enc = .loop → s.convOver = true →
      EncStepped scale sameFmt s (.enc goOn) { s with enc := .send }
  | send {goOn : Bool} : s.enc = .send →
      EncStepped scale sameFmt s (.enc goOn)
        { s with sent := s.sent ++ [s.avFrame], enc := .clear }
  | lower {goOn : Bool} : s.enc = .clear →
      EncStepped scale sameFmt s (.enc goOn)
        { s with convOver := false, enc := if goOn then .loop else .done }
  | exit : EncStepped scale sameFmt s .exit { s with exit := true }

theorem encStepped_conv (h : convStep scale sameFmt s = some s') :
    EncStepped scale sameFmt s .conv s' := by
  unfold convStep at h
  split at h
  · next hpc =>
      split at h
      · cases h
        exact .convDone hpc
      · split at h
        · cases h
          exact .convWait
        · next hcur =>
            cases h
            exact .convTake hpc hcur
  · next hpc =>
      split at h
      · next hsame =>
          cases h
          exact .unsupported hpc hsame
      · next hsame =>
          cases h
          exact .scale hpc (by simpa using hsame)
  · next hpc =>
      split at h
      · cases h
        exact .convWait
      · next hover =>
          cases h
          exact .seenLow hpc (by simpa using hover)
  · next hpc =>
      cases h
      exact .setOver hpc
  · next hpc =>
      cases h
      exact .putFb hpc
  · next hpc =>
      cases h
      exact .clear hpc
  · cases h

theorem encStepped_enc {goOn : Bool} (h : encThreadStep s goOn = some s') :
    EncStepped scale sameFmt s (.enc goOn) s' := by
  unfold encThreadStep at h
  split at h
  · next hpc =>
      split at h
      · cases h
        exact .encDone hpc
      · split at h
        · next hover =>
            cases h
            exact .encTake hpc hover
        · cases h
          exact .encWait
  · next hpc =>
      cases h
      exact .send hpc
  · next hpc =>
      cases h
      exact .lower hpc
  · cases h

theorem encStepped {a : EncAction Raw} (h : encStep scale sameFmt s a = some s') :
    EncStepped scale sameFmt s a s' := by
  unfold encStep at h
  split at h
  · split at h
    · next hpc =>
        split at h
        · next hfree =>
            cases h
            exact .capture hpc hfree
        · cases h
    · cases h
  · split at h
    · next hpc hcur =>
        cases h
        exact .put hpc hcur
    · cases h
  · exact encStepped_conv h
  · exact encStepped_enc h
  · cases h
    exact .exit

/-! ## The three stages -/

def ConvPc.bufId : ConvPc → Option Nat
  | .scale bufId => some bufId
  | .waitOver bufId => some bufId
  | .setOver bufId => some bufId
  | .putFb bufId => some bufId
  | _ => none

/-- `av_frame` is converted and not yet flagged. -/
def ConvPc.converted : ConvPc → Bool
  | .waitOver _ => true
  | .setOver _ => true
  | _ => false

/-- `cur_buf_id` is not yet converted. -/
def ConvPc.before : ConvPc → Bool
  | .loop => true
  | .scale _ => true
  | .done => true
  | _ => false

/-- The flagged frame is still to be sent. -/
def EncPc.unsent : EncPc → Bool
  | .loop => true
  | .send => true
  | _ => false

def EncState.flagged (s : EncState Raw Yuv) : List Yuv :=
  if s.convOver && s.enc.unsent then [s.avFrame] else []

def EncState.converted (s : EncState Raw Yuv) : List Yuv :=
  if s.conv.converted then [s.avFrame] else []

def EncState.waiting (s : EncState Raw Yuv) : List Raw :=
  if s.conv.before then (s.curBufId.map s.bufs).toList else []

theorem EncPc.unsent_eq_false {pc : EncPc} (h : pc ≠ .loop ∧ pc ≠ .send) : pc.unsent = false := by
  cases pc with
  | loop => exact absurd rfl h.1
  | send => exact absurd rfl h.2
  | clear => rfl
  | done => rfl

/-- The flags and the buffers belong to the program counters. -/
structure EncFlags (s : EncState Raw Yuv) : Prop where
  sending : s.enc = .send ∨ s.enc = .clear → s.convOver = true
  lowered : ∀ bufId, s.conv = .setOver bufId → s.convOver = false
  current : ∀ bufId, s.conv.bufId = some bufId → s.curBufId = some bufId
  busy : ∀ bufId, s.curBufId = some bufId → s.conv ≠ .clear → s.isFree bufId = false
  captured : ∀ bufId, s.capture = .put bufId →
    s.isFree bufId = false ∧ (s.curBufId = some bufId → s.conv = .clear)
  alone : s.conv.converted = true → s.convOver = true → s.enc.unsent = false
  taken : s.conv = .clear → s.curBufId ≠ none

/-- Out of the pool are the captured buffer and the one in `cur_buf_id`, until it is put back. -/
structure Owned (s : EncState Raw Yuv) : Prop where
  current : ∀ bufId, s.conv.bufId = some bufId → s.curBufId = some bufId
  captured : ∀ bufId, s.capture = .put bufId →
    s.isFree bufId = false ∧ (s.curBufId = some bufId → s.conv = .clear)
  taken : s.conv = .clear → s.curBufId ≠ none
  busy : ∀ bufId, s.curBufId = some bufId → s.conv ≠ .clear → s.isFree bufId = false
  held : ∀ bufId, s.isFree bufId = false →
    s.capture = .put bufId ∨ s.curBufId = some bufId ∧ s.conv ≠ .clear

/-- A step of the conversion thread that neither puts its buffer back nor forgets it. -/
theorem Owned.move (h : Owned s)
    (hsame : s'.curBufId = s.curBufId ∧ s'.isFree = s.isFree ∧ s'.capture = s.capture)
    (hold : s.conv ≠ .clear) (hnew : s'.conv ≠ .clear)
    (hcurrent : ∀ bufId, s'.conv.bufId = some bufId → s.curBufId = some bufId) : Owned s' := by
  obtain ⟨hcur, hfree, hcap⟩ := hsame
  constructor
  case current =>
    rw [hcur]
    exact hcurrent
  case captured =>
    intro bufId hb
    rw [hcap] at hb
    obtain ⟨hbusy, hclear⟩ := h.captured bufId hb
    rw [hfree, hcur]
    exact ⟨hbusy, fun hc => absurd (hclear hc) hold⟩
  case taken => exact fun hc => absurd hc hnew
  case busy =>
    intro bufId hb _
    rw [hcur] at hb
    rw [hfree]
    exact h.busy bufId hb hold
  case held =>
    intro bufId hb
    rw [hfree] at hb
    rw [hcap, hcur]
    exact (h.held bufId hb).imp_right fun hc => ⟨hc.1, hnew⟩

theorem Owned.capture (h : Owned s) {bufId : Nat} {frame : Raw} (hpc : s.capture = .idle)
    (hfree : s.isFree bufId = true) : Owned { s with
      bufs := Function.update s.bufs bufId frame
      isFree := Function.update s.isFree bufId false
      capture := .put bufId } := by
  have hself : Function.update s.isFree bufId false bufId = false := Function.update_self ..
  constructor
  case current => exact h.current
  case captured =>
    intro b hb
    cases hb
    refine ⟨hself, fun hc => by_contra fun hclear => ?_⟩
    exact Bool.false_ne_true ((h.busy bufId hc hclear).symm.trans hfree)
  case taken => exact h.taken
  case busy =>
    intro b hb hclear
    by_cases hbb : b = bufId
    · rw [hbb]
      exact hself
    · exact (Function.update_of_ne hbb ..).trans (h.busy b hb hclear)
  case held =>
    intro b hb
    by_cases hbb : b = bufId
    · exact .inl (congrArg CapturePc.put hbb.symm)
    · refine .inr ((h.held b ((Function.update_of_ne hbb ..).symm.trans hb)).resolve_left ?_)
      rw [hpc]
      exact nofun

theorem Owned.put (h : Owned s) {bufId : Nat} (hpc : s.capture = .put bufId)
    (hnone : s.curBufId = none) : Owned { s with
      curBufId := some bufId, capture := .idle, accepted := s.accepted ++ [s.bufs bufId] } := by
  constructor
  case current => exact fun b hb => nomatch hnone.symm.trans (h.current b hb)
  case captured => exact nofun
  case taken => exact nofun
  case busy =>
    intro b hb _
    cases hb
    exact (h.captured bufId hpc).1
  case held =>
    intro b hb
    rcases h.held b hb with hc | ⟨hc, -⟩
    · cases hpc.symm.trans hc
      exact .inr ⟨rfl, fun hclear => h.taken hclear hnone⟩
    · cases hnone.symm.trans hc

theorem Owned.putFb (h : Owned s) {bufId : Nat} (hpc : s.conv = .putFb bufId) :
    Owned { s with isFree := Function.update s.isFree bufId true, conv := .clear } := by
  have hsome := h.current bufId (by rw [hpc]; rfl)
  constructor
  case current => exact nofun
  case captured =>
    intro b hb
    obtain ⟨hbusy, hclear⟩ := h.captured b hb
    have hbb : b ≠ bufId := by
      rintro rfl
      cases hpc.symm.trans (hclear hsome)
    exact ⟨(Function.update_of_ne hbb ..).trans hbusy, fun _ => rfl⟩
  case taken =>
    intro _ hnone
    cases hsome.symm.trans hnone
  case busy => exact fun b hb hclear => absurd rfl hclear
  case held =>
    intro b hb
    by_cases hbb : b = bufId
    · rw [hbb] at hb
      cases hb.symm.trans (Function.update_self ..)
    · refine (h.held b ((Function.update_of_ne hbb ..).symm.trans hb)).imp_right fun hc => ?_
      exact absurd (Option.some.inj (hc.1.symm.trans hsome)) hbb

theorem Owned.clear (h : Owned s) (hpc : s.conv = .clear) :
    Owned { s with curBufId := none, conv := .loop } where
  current := nofun
  captured := fun b hb => ⟨(h.captured b hb).1, nofun⟩
  taken := nofun
  busy := nofun
  held := fun b hb => .inl ((h.held b hb).resolve_right fun hc => hc.2 hpc)

theorem owned_step {a : EncAction Raw} (h : Owned s) (hs : EncStepped scale sameFmt s a s') :
    Owned s' := by
  have hcurrent := h.current
  cases hs with
  | capture hpc hfree => exact h.capture hpc hfree
  | put hpc hnone => exact h.put hpc hnone
  | convWait => exact h
  | convDone hpc => exact h.move ⟨rfl, rfl, rfl⟩ (by rw [hpc]; exact nofun) nofun nofun
  | convTake hpc hsome =>
      refine h.move ⟨rfl, rfl, rfl⟩ (by rw [hpc]; exact nofun) nofun fun b hb => ?_
      cases hb
      exact hsome
  | unsupported hpc hsame =>
      rw [hpc] at hcurrent
      exact h.move ⟨rfl, rfl, rfl⟩ (by rw [hpc]; exact nofun) nofun hcurrent
  | scale hpc hsame =>
      rw [hpc] at hcurrent
      exact h.move ⟨rfl, rfl, rfl⟩ (by rw [hpc]; exact nofun) nofun hcurrent
  | seenLow hpc hover =>
      rw [hpc] at hcurrent
      exact h.move ⟨rfl, rfl, rfl⟩ (by rw [hpc]; exact nofun) nofun hcurrent
  | setOver hpc =>
      rw [hpc] at hcurrent
      exact h.move ⟨rfl, rfl, rfl⟩ (by rw [hpc]; exact nofun) nofun hcurrent
  | putFb hpc => exact h.putFb hpc
  | clear hpc => exact h.clear hpc
  | encWait => exact h
  | encDone hpc => exact { h with }
  | encTake hpc hover => exact { h with }
  | send hpc => exact { h with }
  | lower hpc => exact { h with }
  | exit => exact { h with }

theorem sending_step {a : EncAction Raw} (h : s.enc = .send ∨ s.enc = .clear → s.convOver = true)
    (hs : EncStepped scale sameFmt s a s') :
    s'.enc = .send ∨ s'.enc = .clear → s'.convOver = true := by
  cases hs with
  | setOver hpc => exact fun _ => rfl
  | encDone hpc =>
      intro hs
      rcases hs with hs | hs <;> cases hs
  | encTake hpc hover => exact fun _ => hover
  | send hpc => exact fun _ => h (.inl hpc)
  | @lower goOn hpc =>
      intro hs
      cases goOn <;> rcases hs with hs | hs <;> cases hs
  | _ => exact h

/-- While `conv_over` is low a thread that has not ended will send what is flagged next. -/
theorem unsent_of_low (h : s.enc = .send ∨ s.enc = .clear → s.convOver = true)
    (hlow : s.convOver = false) (hne : s.enc ≠ .done) : s.enc.unsent = true := by
  cases henc : s.enc with
  | loop => rfl
  | send => rfl
  | clear => cases hlow.symm.trans (h (.inr henc))
  | done => exact absurd henc hne

theorem lowered_step {a : EncAction Raw}
    (h : ∀ bufId, s.conv = .setOver bufId → s.convOver = false)
    (hs : EncStepped scale sameFmt s a s') :
    ∀ bufId, s'.conv = .setOver bufId → s'.convOver = false := by
  cases hs with
  | convDone hpc => exact nofun
  | convTake hpc hsome => exact nofun
  | unsupported hpc hsame => exact nofun
  | scale hpc hsame => exact nofun
  | seenLow hpc hover => exact fun _ _ => hover
  | setOver hpc => exact nofun
  | putFb hpc => exact nofun
  | clear hpc => exact nofun
  | lower hpc => exact fun _ _ => rfl
  | _ => exact h

theorem encFlags_step {a : EncAction Raw} (h : EncFlags s) (hok : ScaledAfterSend sameFmt s a)
    (hs : EncStepped scale sameFmt s a s') (howned : Owned s') : EncFlags s' := by
  have hsend := sending_step h.sending hs
  have hlow := lowered_step h.lowered hs
  suffices halone' : s'.conv.converted = true → s'.convOver = true → s'.enc.unsent = false from
    ⟨hsend, hlow, howned.current, howned.busy, howned.captured, halone', howned.taken⟩
  have halone := h.alone
  cases hs with
  | capture hpc hfree => exact halone
  | put hpc hnone => exact halone
  | convWait => exact halone
  | convDone hpc => exact nofun
  | convTake hpc hsome => exact nofun
  | unsupported hpc hsame =>
      rw [(hok rfl _ hpc).1] at hsame
      cases hsame
  | scale hpc hsame => exact fun _ hover => EncPc.unsent_eq_false ((hok rfl _ hpc).2 hover)
  | seenLow hpc hover => exact fun _ hset => nomatch hover.symm.trans hset
  | setOver hpc => exact nofun
  | putFb hpc => exact nofun
  | clear hpc => exact nofun
  | encWait => exact halone
  | encDone hpc => exact fun _ _ => rfl
  | encTake hpc hover =>
      intro hconv _
      have hunsent := halone hconv hover
      rw [hpc] at hunsent
      cases hunsent
  | send hpc => exact fun _ _ => rfl
  | lower hpc => exact nofun
  | exit => exact halone

/-- What was sent and what is in the stages are together what was accepted; a thread that has
ended leaves what it sent. -/
def Conveyed (scale : Raw → Yuv) (s : EncState Raw Yuv) : Prop :=
  (s.enc ≠ .done →
    s.sent ++ s.flagged ++ s.converted ++ s.waiting.map scale = s.accepted.map scale) ∧
  (s.enc = .done → s.sent <+: s.accepted.map scale)

theorem Conveyed.sent_first (h : Conveyed scale s) : s.sent <+: s.accepted.map scale := by
  by_cases hdone : s.enc = .done
  · exact h.2 hdone
  · rw [← h.1 hdone, List.append_assoc, List.append_assoc]
    exact List.prefix_append ..

/-- A step that leaves the lists and the stages alone. -/
theorem Conveyed.congr (h : Conveyed scale s) (hsent : s'.sent = s.sent)
    (hacc : s'.accepted = s.accepted) (henc : s'.enc = s.enc ∨ s'.enc ≠ .done ∧ s.enc ≠ .done)
    (hflag : s'.flagged = s.flagged) (hconv : s'.converted = s.converted)
    (hwait : s'.waiting = s.waiting) : Conveyed scale s' := by
  obtain ⟨hrun, hdone⟩ := h
  constructor
  · intro hne
    rw [hsent, hacc, hflag, hconv, hwait]
    refine hrun ?_
    rcases henc with he | ⟨-, he⟩
    · rwa [he] at hne
    · exact he
  · intro he'
    rw [hsent, hacc]
    rcases henc with he | ⟨he, -⟩
    · exact hdone (he ▸ he')
    · exact absurd he' he

/-- A step of the conversion thread between two program counters of one stage. -/
theorem Conveyed.setConv (h : Conveyed scale s) {pc : ConvPc}
    (hconv : pc.converted = s.conv.converted) (hbefore : pc.before = s.conv.before) :
    Conveyed scale { s with conv := pc } :=
  h.congr rfl rfl (Or.inl rfl) rfl (by rw [EncState.converted, EncState.converted, hconv])
    (by rw [EncState.waiting, EncState.waiting, hbefore])

/-- While `cur_buf_id` is -1 the conversion thread has no buffer. -/
theorem EncFlags.before (hf : EncFlags s) (hnone : s.curBufId = none) : s.conv.before = true := by
  have hidle : s.conv.bufId = none := by
    cases hb : s.conv.bufId with
    | none => rfl
    | some bufId => cases hnone.symm.trans (hf.current bufId hb)
  cases hconv : s.conv with
  | clear => exact absurd hnone (hf.taken hconv)
  | loop => rfl
  | scale bufId => rfl
  | done => rfl
  | _ =>
      rw [hconv] at hidle
      cases hidle

theorem EncFlags.waiting_update (hf : EncFlags s) {bufId : Nat} (hfree : s.isFree bufId = true)
    (frame : Raw) : (if s.conv.before then
      (s.curBufId.map (Function.update s.bufs bufId frame)).toList else []) = s.waiting := by
  cases hb : s.conv.before with
  | false => simp [EncState.waiting, hb]
  | true =>
      cases hcur : s.curBufId with
      | none => simp [EncState.waiting, hcur]
      | some id =>
          have hclear : s.conv ≠ .clear := by
            intro hc
            rw [hc] at hb
            cases hb
          have hne : id ≠ bufId := by
            rintro rfl
            cases hfree.symm.trans (hf.busy _ hcur hclear)
          simp [EncState.waiting, hb, hcur, hne]

theorem conveyed_step {a : EncAction Raw} (hf : EncFlags s) (h : Conveyed scale s)
    (hok : ScaledAfterSend sameFmt s a) (hs : EncStepped scale sameFmt s a s') :
    Conveyed scale s' := by
  obtain ⟨hrun, hdone⟩ := id h
  cases hs with
  | @capture bufId frame hpc hfree =>
      exact h.congr rfl rfl (Or.inl rfl) rfl rfl (hf.waiting_update hfree frame)
  | @put bufId hpc hnone =>
      have hb := hf.before hnone
      have hwait : s.waiting = [] := by simp [EncState.waiting, hnone]
      constructor
      · intro hne
        have heq := hrun hne
        rw [hwait, List.map_nil, List.append_nil] at heq
        show s.sent ++ s.flagged ++ s.converted ++ _ = (s.accepted ++ [s.bufs bufId]).map scale
        rw [heq, List.map_append]
        simp [EncState.waiting, hb]
      · intro he
        rw [List.map_append]
        exact (hdone he).trans (List.prefix_append ..)
  | convWait => exact h
  | convDone hpc => exact h.setConv (by rw [hpc]; rfl) (by rw [hpc]; rfl)
  | convTake hpc hsome => exact h.setConv (by rw [hpc]; rfl) (by rw [hpc]; rfl)
  | unsupported hpc hsame =>
      rw [(hok rfl _ hpc).1] at hsame
      cases hsame
  | @scale bufId hpc hsame =>
      have hsent := (hok rfl _ hpc).2
      have hquiet : (s.convOver && s.enc.unsent) = false := by
        cases hover : s.convOver with
        | false => rfl
        | true =>
            rw [Bool.true_and]
            exact EncPc.unsent_eq_false (hsent hover)
      have hcur := hf.current bufId (by rw [hpc]; rfl)
      constructor
      · intro hne
        have heq := hrun hne
        simp only [EncState.flagged, EncState.converted, EncState.waiting, hquiet, hpc, hcur,
          ConvPc.converted, ConvPc.before] at heq ⊢
        simpa using heq
      · exact hdone
  | seenLow hpc hover => exact h.setConv (by rw [hpc]; rfl) (by rw [hpc]; rfl)
  | @setOver bufId hpc =>
      have hlow := hf.lowered bufId hpc
      constructor
      · intro hne
        have hunsent := unsent_of_low hf.sending hlow hne
        have heq := hrun hne
        simp only [EncState.flagged, EncState.converted, EncState.waiting, hlow, hpc, hunsent,
          ConvPc.converted, ConvPc.before] at heq ⊢
        simpa using heq
      · exact hdone
  | putFb hpc => exact h.setConv (by rw [hpc]; rfl) (by rw [hpc]; rfl)
  | clear hpc =>
      refine h.congr rfl rfl (Or.inl rfl) rfl ?_ ?_
      · simp [EncState.converted, hpc, ConvPc.converted]
      · simp [EncState.waiting, hpc, ConvPc.before]
  | encWait => exact h
  | encDone hpc => exact ⟨fun hne => absurd rfl hne, fun _ => h.sent_first⟩
  | encTake hpc hover =>
      refine h.congr rfl rfl (Or.inr ⟨by simp, by simp [hpc]⟩) ?_ rfl rfl
      simp [EncState.flagged, hpc, EncPc.unsent]
  | send hpc =>
      refine ⟨fun _ => ?_, fun hne => by cases hne⟩
      have heq := hrun (by simp [hpc])
      have hover := hf.sending (Or.inl hpc)
      simp only [EncState.flagged, hpc, hover, EncPc.unsent] at heq
      rw [← heq]
      simp [EncState.flagged, EncState.converted, EncState.waiting, EncPc.unsent]
  | @lower goOn hpc =>
      cases goOn with
      | true =>
          refine h.congr rfl rfl (Or.inr ⟨by simp, by simp [hpc]⟩) ?_ rfl rfl
          simp [EncState.flagged, hpc, EncPc.unsent]
      | false => exact ⟨fun hne => absurd rfl hne, fun _ => h.sent_first⟩
  | exit => exact h.congr rfl rfl (Or.inl rfl) rfl rfl rfl

/-! ## Whole runs -/

theorem owned_start (blank : Yuv) (bufs : Nat → Raw) :
    Owned (.start blank bufs : EncState Raw Yuv) := by
  constructor <;> simp [EncState.start, ConvPc.bufId]

theorem encFlags_start (blank : Yuv) (bufs : Nat → Raw) : EncFlags (.start blank bufs) := by
  constructor <;> simp [EncState.start, ConvPc.bufId, ConvPc.converted]

theorem conveyed_start (blank : Yuv) (bufs : Nat → Raw) :
    Conveyed scale (.start blank bufs) := by
  constructor
  · intro _
    rfl
  · intro h
    cases h

/-- The encoder gets the accepted frames in order in a run that converts none before the last
one was sent. -/
theorem sent_prefix_accepted
    (h : (encMachine scale sameFmt).Run (ScaledAfterSend sameFmt) s) :
    s.sent <+: s.accepted.map scale := by
  have hinv : Owned s ∧ EncFlags s ∧ Conveyed scale s := by
    refine Machine.Run.invariant (P := fun s => Owned s ∧ EncFlags s ∧ Conveyed scale s) ?_ ?_ h
    · rintro s ⟨blank, bufs, rfl⟩
      exact ⟨owned_start blank bufs, encFlags_start blank bufs, conveyed_start blank bufs⟩
    · rintro s a t ⟨ho, hf, hc⟩ hok hstep
      have hs := encStepped hstep
      have ho' := owned_step ho hs
      exact ⟨ho', encFlags_step hf hok hs ho', conveyed_step hf hc hok hs⟩
  exact hinv.2.2.sent_first

end

/-- The flagged frame has been sent when the next one is converted. -/
def ConvertsSent (s : EncState Nat Nat) : EncAction Nat → Prop
  | .conv =>
      match s.conv with
      | .scale _ => (s.convOver && s.enc.unsent) = false
      | _ => True
  | _ => True

instance (s : EncState Nat Nat) : (a : EncAction Nat) → Decidable (ConvertsSent s a)
  | .conv =>
      match h : s.conv with
      | .scale _ => decidable_of_iff ((s.convOver && s.enc.unsent) = false) (by rw [ConvertsSent, h])
      | .loop | .waitOver _ | .setOver _ | .putFb _ | .clear | .done =>
          isTrue (by rw [ConvertsSent, h]; trivial)
  | .capture .. | .put | .enc _ | .exit => isTrue trivial

theorem scaledAfterSend_of_convertsSent (s : EncState Nat Nat) (a : EncAction Nat)
    (h : ConvertsSent s a) : ScaledAfterSend false s a := by
  rintro rfl bufId hpc
  rw [ConvertsSent, hpc] at h
  refine ⟨rfl, fun hover => ?_⟩
  rw [hover, Bool.true_and] at h
  constructor
  · intro he
    rw [he] at h
    cases h
  · intro he
    rw [he] at h
    cases h

/-- Three frames are accepted and two sent. The second is captured while the first is converted and
converted as soon as the first is sent. -/
def threeFrames : List (EncAction Nat) :=
  [.capture 0 1, .put, .conv, .capture 1 2, .conv, .conv, .conv, .enc true, .conv, .conv, .put,
    .conv, .enc true, .conv, .enc true, .conv, .conv, .conv, .conv, .capture 0 3, .put, .enc true,
    .enc true, .conv]

theorem sent_prefix_accepted_threeFrames : ∃ s : EncState Nat Nat,
    (encMachine (· + 10) false).Run (ScaledAfterSend false) s ∧ s.sent = [11, 12] ∧
    s.accepted = [1, 2, 3] ∧ s.sent <+: s.accepted.map (· + 10) := by
  obtain ⟨s, hs, hview⟩ := Option.map_eq_some_iff.mp (by decide +kernel :
    (((encMachine (· + 10) false).guarded ConvertsSent).exec (.start 0 fun _ => 0)
      threeFrames).map (fun s => (s.sent, s.accepted)) = some ([11, 12], [1, 2, 3]))
  simp only [Prod.mk.injEq] at hview
  have hrun := (Machine.run_of_exec hs ⟨0, fun _ => 0, rfl⟩).mono scaledAfterSend_of_convertsSent
  exact ⟨s, hrun, hview.1, hview.2, sent_prefix_accepted hrun⟩

/-- Two frames, the second converted before the first is sent. -/
def hastyConversion : List (EncAction Nat) :=
  [.capture 0 1, .put, .conv, .conv, .conv, .conv, .conv, .conv,
    .capture 1 2, .put, .conv, .conv, .enc true, .enc true]

/-- The first of two frames is lost. -/
theorem frame_lost : ∃ s : EncState Nat Nat, (encMachine id false).Reachable s ∧
    ¬s.sent <+: s.accepted.map id := by
  have he : ((encMachine id false).exec (.start 0 fun _ => 0) hastyConversion).map
      (fun s => (s.sent, s.accepted)) = some ([2], [1, 2]) := by
    decide
  obtain ⟨s, hs, hout⟩ := Option.map_eq_some_iff.mp he
  simp only [Prod.mk.injEq] at hout
  refine ⟨s, Machine.Reachable.exec (.start ⟨0, fun _ => 0, rfl⟩) hs, ?_⟩
  rw [hout.1, hout.2]
  decide

end Hprd.Codec

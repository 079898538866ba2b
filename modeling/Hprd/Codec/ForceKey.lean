import Hprd.Codec.FfmpegEnc

/-!
# Key-frame requests

`ffmpeg_force_key_frame` sets a flag that `_ffmpeg_conv_thread` looks at twice: for the
picture type of `av_frame`, and to clear it. A request in between is cleared unseen, and
the picture type of a frame that is not yet sent can be overwritten.
-/

namespace Hprd.Codec

open Hprd.Core

inductive PictType where
  | none
  | i
  | p
  deriving DecidableEq

/-- Between the reading of `cur_buf_id` and `sws_scale`: before the flag is read, before
`pict_type` is written, before the flag is read again, and before it is cleared. -/
inductive KeyPc where
  | idle
  | readForce
  | writePict (force : Bool)
  | testForce
  | clearForce
  deriving DecidableEq

/-- The encoder with `force_key_frame` and `pict_type`. A frame is its number, `av_frame` has the
number of the frame it holds. `picts` has the picture types of `sent`, and `requests` how many
frames were captured and sent when a request was made. -/
structure KeyState where
  enc : EncState Nat (Option Nat)
  key : KeyPc
  forceKeyFrame : Bool
  pictType : PictType
  captured : Nat
  picts : List PictType
  requests : List (Nat × Nat)

inductive KeyAction where
  | capture (bufId : Nat)
  | put
  | conv
  | enc (goOn : Bool)
  | exit
  | force

section

variable (sameFmt : Bool)

def keyConvStep (s : KeyState) : Option KeyState :=
  match s.key with
  | .idle =>
      (convStep some sameFmt s.enc).map fun enc =>
        match s.enc.conv, enc.conv with
        | .loop, .scale _ => { s with enc := enc, key := .readForce }
        | _, _ => { s with enc := enc }
  | .readForce => some { s with key := .writePict s.forceKeyFrame }
  | .writePict force => some { s with pictType := if force then .i else .p, key := .testForce }
  | .testForce => some { s with key := if s.forceKeyFrame then .clearForce else .idle }
  | .clearForce => some { s with forceKeyFrame := false, key := .idle }

def keyStep (s : KeyState) : KeyAction → Option KeyState
  | .capture bufId =>
      (encStep some sameFmt s.enc (.capture bufId s.captured)).map fun enc =>
        { s with enc := enc, captured := s.captured + 1 }
  | .put => (encStep some sameFmt s.enc .put).map fun enc => { s with enc := enc }
  | .conv => keyConvStep sameFmt s
  | .enc goOn =>
      (encThreadStep s.enc goOn).map fun enc =>
        match s.enc.enc with
        | .send => { s with enc := enc, picts := s.picts ++ [s.pictType] }
        | _ => { s with enc := enc }
  | .exit => (encStep some sameFmt s.enc .exit).map fun enc => { s with enc := enc }
  | .force =>
      some { s with
        forceKeyFrame := true, requests := s.requests ++ [(s.captured, s.enc.sent.length)] }

def KeyState.start : KeyState where
  enc := .start none fun _ => 0
  key := .idle
  forceKeyFrame := false
  pictType := .none
  captured := 0
  picts := []
  requests := []

def keyMachine : Machine KeyState KeyAction where
  init s := s = .start
  step := keyStep sameFmt

end

/-- Once two frames that were captured after a request have been sent, a frame was sent as a key
frame after it. -/
def Answered (s : KeyState) : Prop :=
  ∀ c n, (c, n) ∈ s.requests →
    (∃ i j, c ≤ i ∧ c ≤ j ∧ i ≠ j ∧ some i ∈ s.enc.sent.drop n ∧ some j ∈ s.enc.sent.drop n) →
    .i ∈ s.picts.drop n

/-- The converted frame is flagged and still to be sent. -/
def KeyState.pending (s : KeyState) : Prop :=
  s.enc.convOver = true ∧ s.enc.enc.unsent = true

/-- No request is made between the two looks at the flag of a frame that will be no key frame, and
no such frame takes the picture type of a key frame that is still to be sent. -/
structure Heeded (s : KeyState) (a : KeyAction) : Prop where
  force : a = .force → s.key ≠ .writePict false ∧ (s.key = .testForce → s.pictType = .i)
  pict : a = .conv → s.key = .writePict false → s.pictType = .i → ¬s.pending

/-! ## What becomes of a request -/

def ConvPc.flagging : ConvPc → Bool
  | .scale _ => true
  | .waitOver _ => true
  | .setOver _ => true
  | _ => false

/-- A key frame is decided on, written or flagged. -/
def KeyState.underway (s : KeyState) : Prop :=
  s.key = .writePict true ∨
  s.pictType = .i ∧ (s.key = .testForce ∨ s.key = .clearForce ∨
    s.key = .idle ∧ s.enc.conv.flagging = true ∨ s.pending)

/-- The flag is up or a key frame is underway, and what may be sent before is older than the
request. -/
structure Waiting (c : Nat) (s : KeyState) : Prop where
  asked : s.forceKeyFrame = true ∨ s.underway
  shown : s.pictType ≠ .i → ∀ i, s.enc.avFrame = some i → i < c
  taken : s.pictType ≠ .i → s.key = .testForce ∨ s.key = .clearForce ∨ s.key = .idle →
    ∀ bufId, s.enc.conv = .scale bufId → s.enc.bufs bufId < c

/-- A key frame was sent after the request, or nothing newer than it was sent and it waits, unless
the encoding thread has ended. -/
def Served (c n : Nat) (s : KeyState) : Prop :=
  .i ∈ s.picts.drop n ∨
  (∀ i, some i ∈ s.enc.sent.drop n → i < c) ∧ (s.enc.enc = .done ∨ Waiting c s)

structure KeyInv (s : KeyState) : Prop where
  owned : Owned s.enc
  sending : s.enc.enc = .send ∨ s.enc.enc = .clear → s.enc.convOver = true
  lowered : ∀ bufId, s.enc.conv = .setOver bufId → s.enc.convOver = false
  phase : s.key ≠ .idle → ∃ bufId, s.enc.conv = .scale bufId
  picts : s.picts.length = s.enc.sent.length
  numbered : ∀ bufId, s.enc.isFree bufId = false → s.enc.bufs bufId < s.captured
  framed : ∀ i, s.enc.avFrame = some i → i < s.captured
  unforced : s.key = .writePict false → s.forceKeyFrame = false
  tested : s.key = .testForce → s.pictType ≠ .i → s.forceKeyFrame = false
  cleared : s.key = .clearForce → s.pictType = .i
  requested : ∀ c n, (c, n) ∈ s.requests → n ≤ s.enc.sent.length
  served : ∀ c n, (c, n) ∈ s.requests → Served c n s

theorem keyInv_start : KeyInv .start := by
  constructor
  case owned => exact owned_start none fun _ => 0
  case sending => exact fun h => by rcases h with h | h <;> cases h
  case lowered => exact nofun
  case phase => exact fun h => absurd rfl h
  case picts => rfl
  case numbered => exact nofun
  case framed => exact nofun
  case unforced => exact nofun
  case tested => exact nofun
  case cleared => exact nofun
  case requested => exact nofun
  case served => exact nofun

variable {sameFmt : Bool} {s s' : KeyState}

theorem Served.congr {c n : Nat} (h : Served c n s) (hpicts : s'.picts = s.picts)
    (hsent : s'.enc.sent = s.enc.sent) (hdone : s.enc.enc = .done → s'.enc.enc = .done)
    (hwait : Waiting c s → s'.enc.enc = .done ∨ Waiting c s') : Served c n s' := by
  rcases h with h | ⟨hold, h | h⟩
  · exact .inl (hpicts ▸ h)
  · exact .inr ⟨hsent ▸ hold, .inl (hdone h)⟩
  · exact .inr ⟨hsent ▸ hold, hwait h⟩

/-- Where no key frame is decided on or on its way to the flag, it is flagged. -/
theorem KeyState.underway.flagged (h : s.underway) (hwrite : s.key ≠ .writePict true)
    (htest : s.key ≠ .testForce) (hclear : s.key ≠ .clearForce)
    (hidle : s.key = .idle → s.enc.conv.flagging = false) : s.pictType = .i ∧ s.pending := by
  rcases h with hk | ⟨hi, hk | hk | ⟨hk, hf⟩ | hp⟩
  · exact absurd hk hwrite
  · exact absurd hk htest
  · exact absurd hk hclear
  · cases (hidle hk).symm.trans hf
  · exact ⟨hi, hp⟩

/-- The conversion thread between reading `cur_buf_id` and `sws_scale`. -/
theorem KeyInv.keyed (h : KeyInv s) (hok : Heeded s .conv) (hkey : s.key ≠ .idle)
    (hs : keyConvStep sameFmt s = some s') : KeyInv s' := by
  rcases h.phase hkey with ⟨bufId, hconv⟩
  have hserved := h.served
  have hunforced := h.unforced
  have htested := h.tested
  have hcleared := h.cleared
  have hpict := hok.pict rfl
  unfold keyConvStep at hs
  split at hs
  next hpc => exact absurd hpc hkey
  next hpc =>
      cases hs
      refine
        { h with
          phase := fun _ => ⟨bufId, hconv⟩
          unforced := fun hk => KeyPc.writePict.inj hk
          tested := nofun
          cleared := nofun
          served := ?_ }
      intro c n hr
      refine (hserved c n hr).congr rfl rfl id fun hw => .inr ?_
      rcases hw with ⟨hasked, hshown, htaken⟩
      refine ⟨hasked.imp_right fun hu => ?_, hshown, fun _ hk => ?_⟩
      · obtain ⟨hi, hp⟩ := hu.flagged (by rw [hpc]; exact nofun) (by rw [hpc]; exact nofun)
          (by rw [hpc]; exact nofun) (by rw [hpc]; exact nofun)
        exact .inr ⟨hi, .inr (.inr (.inr hp))⟩
      · rcases hk with hk | hk | hk <;> cases hk
  next force hpc =>
      cases hs
      refine
        { h with
          phase := fun _ => ⟨bufId, hconv⟩
          unforced := nofun
          tested := fun _ hne => ?_
          cleared := nofun
          served := fun c n hr => ?_ }
      · cases force with
        | true => exact absurd rfl hne
        | false => exact hunforced hpc
      refine (hserved c n hr).congr rfl rfl id fun hw => .inr ?_
      rcases hw with ⟨hasked, hshown, htaken⟩
      cases force with
      | true => exact ⟨.inr (.inr ⟨rfl, .inl rfl⟩), nofun, nofun⟩
      | false =>
          -- A request that waits would have its key frame flagged, and that was excluded.
          exfalso
          rcases hasked with hasked | hu
          · cases (hunforced hpc).symm.trans hasked
          · obtain ⟨hi, hp⟩ := hu.flagged (by rw [hpc]; exact nofun) (by rw [hpc]; exact nofun)
              (by rw [hpc]; exact nofun) (by rw [hpc]; exact nofun)
            exact hpict hpc hi hp
  next hpc =>
      cases hs
      refine
        { h with
          phase := fun _ => ⟨bufId, hconv⟩
          unforced := fun hk => ?_
          tested := fun hk => ?_
          cleared := fun hk => ?_
          served := fun c n hr => ?_ }
      · split at hk <;> cases hk
      · split at hk <;> cases hk
      · split at hk
        · next hf => exact by_contra fun hi => Bool.false_ne_true ((htested hpc hi).symm.trans hf)
        · cases hk
      refine (hserved c n hr).congr rfl rfl id fun hw => .inr ?_
      rcases hw with ⟨hasked, hshown, htaken⟩
      refine ⟨?_, hshown, fun hi _ => htaken hi (.inl hpc)⟩
      by_cases hi : s.pictType = .i
      · refine .inr (.inr ⟨hi, ?_⟩)
        by_cases hf : s.forceKeyFrame = true
        · exact .inr (.inl (if_pos hf))
        · exact .inr (.inr (.inl ⟨if_neg hf, by rw [hconv]; rfl⟩))
      · refine .inl (hasked.resolve_right ?_)
        rintro (hu | ⟨hu, -⟩)
        · rw [hpc] at hu
          cases hu
        · exact hi hu
  next hpc =>
      cases hs
      refine
        { h with
          phase := nofun
          unforced := nofun
          tested := nofun
          cleared := nofun
          served := ?_ }
      intro c n hr
      refine (hserved c n hr).congr rfl rfl id fun hw => .inr ?_
      have hi := hcleared hpc
      refine ⟨.inr (.inr ⟨hi, .inr (.inr (.inl ⟨rfl, by rw [hconv]; rfl⟩))⟩), ?_, ?_⟩
      · exact fun hne => absurd hi hne
      · exact fun hne => absurd hi hne

section

variable {Raw Yuv : Type} {scale : Raw → Yuv} {e e' : EncState Raw Yuv} {a : EncAction Raw}

theorem done_step (h : e.enc = .done) (hs : EncStepped scale sameFmt e a e') : e'.enc = .done := by
  cases hs with
  | encDone hpc => rfl
  | encTake hpc hover => cases h.symm.trans hpc
  | send hpc => cases h.symm.trans hpc
  | lower hpc => cases h.symm.trans hpc
  | _ => exact h

/-- What holds of the captured frames holds of the one that is put into `av_frame`. -/
theorem framed_step {P : Raw → Prop} {Q : Yuv → Prop} (howned : Owned e)
    (hbufs : ∀ bufId, e.isFree bufId = false → P (e.bufs bufId)) (hframe : Q e.avFrame)
    (hscale : ∀ raw, P raw → Q (scale raw))
    (hframe' : ∀ bufId frame, a = .capture bufId frame → P frame)
    (hs : EncStepped scale sameFmt e a e') :
    (∀ bufId, e'.isFree bufId = false → P (e'.bufs bufId)) ∧ Q e'.avFrame := by
  cases hs with
  | @capture bufId frame hpc hfree =>
      refine ⟨fun b hb => ?_, hframe⟩
      show P (Function.update e.bufs bufId frame b)
      by_cases hbb : b = bufId
      · rw [hbb, Function.update_self]
        exact hframe' _ _ rfl
      · rw [Function.update_of_ne hbb]
        exact hbufs b ((Function.update_of_ne hbb ..).symm.trans hb)
  | @putFb bufId hpc =>
      refine ⟨fun b hb => ?_, hframe⟩
      by_cases hbb : b = bufId
      · rw [hbb] at hb
        cases hb.symm.trans (Function.update_self ..)
      · exact hbufs b ((Function.update_of_ne hbb ..).symm.trans hb)
  | scale hpc hsame =>
      have hcur := howned.current _ (by rw [hpc]; rfl)
      exact ⟨hbufs, hscale _ (hbufs _ (howned.busy _ hcur (by rw [hpc]; exact nofun)))⟩
  | _ => exact ⟨hbufs, hframe⟩

end

/-- A key frame stays underway while the encoder keeps it on its way or flags it. -/
theorem KeyState.underway.encoder {enc : EncState Nat (Option Nat)} (h : s.underway)
    (hflagging : s.key = .idle → s.enc.conv.flagging = true →
      enc.conv.flagging = true ∨ enc.convOver = true ∧ enc.enc.unsent = true)
    (hpending : s.pending → enc.convOver = true ∧ enc.enc.unsent = true) :
    { s with enc := enc }.underway := by
  rcases h with hk | ⟨hi, hk | hk | ⟨hk, hf⟩ | hp⟩
  · exact .inl hk
  · exact .inr ⟨hi, .inl hk⟩
  · exact .inr ⟨hi, .inr (.inl hk)⟩
  · refine .inr ⟨hi, .inr (.inr ?_)⟩
    exact (hflagging hk hf).imp_left fun hf' => ⟨hk, hf'⟩
  · exact .inr ⟨hi, .inr (.inr (.inr (hpending hp)))⟩

theorem Waiting.encoder {c : Nat} {enc : EncState Nat (Option Nat)} (h : Waiting c s)
    (hflagging : s.key = .idle → s.enc.conv.flagging = true →
      enc.conv.flagging = true ∨ enc.convOver = true ∧ enc.enc.unsent = true)
    (hpending : s.pending → enc.convOver = true ∧ enc.enc.unsent = true)
    (hframe : enc.avFrame = s.enc.avFrame)
    (hscale : ∀ bufId, enc.conv = .scale bufId →
      s.enc.conv = .scale bufId ∧ enc.bufs bufId = s.enc.bufs bufId) :
    Waiting c { s with enc := enc } where
  asked := h.asked.imp_right fun hu => hu.encoder hflagging hpending
  shown := fun hi i hi' => h.shown hi i (hframe.symm.trans hi')
  taken := fun hi hk bufId hb => by
    obtain ⟨hpc, hbuf⟩ := hscale bufId hb
    show enc.bufs bufId < c
    rw [hbuf]
    exact h.taken hi hk bufId hpc

theorem KeyInv.encoder {a : EncAction Nat} {enc : EncState Nat (Option Nat)} (h : KeyInv s)
    (hs : EncStepped some sameFmt s.enc a enc) (hsend : enc.sent = s.enc.sent)
    (hconv : a = .conv → s.key = .idle) (hcap : ∀ bufId frame, a ≠ .capture bufId frame)
    (htake : ∀ bufId, s.enc.conv = .loop → enc.conv ≠ .scale bufId) :
    KeyInv { s with enc := enc } := by
  have hframes := @framed_step sameFmt _ _ _ _ _ _ (· < s.captured)
    (fun f => ∀ i, f = some i → i < s.captured) h.owned h.numbered h.framed
    (fun raw hraw i hi => Option.some.inj hi ▸ hraw)
    (fun bufId frame ha => absurd ha (hcap bufId frame)) hs
  have hwaiting : ∀ c, Waiting c s → enc.enc = .done ∨ Waiting c { s with enc := enc } := by
    intro c hw
    cases hs with
    | capture => exact absurd rfl (hcap _ _)
    | put hpc hnone => exact .inr ⟨hw.asked, hw.shown, hw.taken⟩
    | convWait => exact .inr hw
    | convDone hpc =>
        refine .inr (hw.encoder (fun _ hf => ?_) id rfl (by exact nofun))
        rw [hpc] at hf
        cases hf
    | convTake hpc hsome => exact absurd rfl (htake _ hpc)
    | unsupported hpc hsame =>
        exact .inr (hw.encoder (fun _ _ => .inl rfl) id rfl (by exact nofun))
    | scale hpc hsame =>
        refine .inr ⟨hw.asked.imp_right fun hu => hu.encoder (fun _ _ => .inl rfl) id, ?_, ?_⟩
        · intro hi i hav
          cases hav
          exact hw.taken hi (.inr (.inr (hconv rfl))) _ hpc
        · exact fun _ _ _ hb => nomatch hb
    | seenLow hpc hover =>
        exact .inr (hw.encoder (fun _ _ => .inl rfl) id rfl (by exact nofun))
    | setOver hpc =>
        by_cases hdone : s.enc.enc = .done
        · exact .inl hdone
        · have hunsent := unsent_of_low h.sending (h.lowered _ hpc) hdone
          exact .inr (hw.encoder (fun _ _ => .inr ⟨rfl, hunsent⟩) (fun _ => ⟨rfl, hunsent⟩) rfl
            (by exact nofun))
    | putFb hpc =>
        refine .inr (hw.encoder (fun _ hf => ?_) id rfl (by exact nofun))
        rw [hpc] at hf
        cases hf
    | clear hpc =>
        refine .inr (hw.encoder (fun _ hf => ?_) id rfl (by exact nofun))
        rw [hpc] at hf
        cases hf
    | encWait => exact .inr hw
    | encDone hpc => exact .inl rfl
    | encTake hpc hover =>
        exact .inr (hw.encoder (fun _ => .inl) (fun _ => ⟨hover, rfl⟩) rfl fun _ hb => ⟨hb, rfl⟩)
    | send hpc => simp at hsend
    | lower hpc =>
        refine .inr (hw.encoder (fun _ => .inl) (fun hp => ?_) rfl fun _ hb => ⟨hb, rfl⟩)
        rw [KeyState.pending, hpc] at hp
        cases hp.2
    | exit => exact .inr ⟨hw.asked, hw.shown, hw.taken⟩
  refine
    { h with
      owned := owned_step h.owned hs
      sending := sending_step h.sending hs
      lowered := lowered_step h.lowered hs
      phase := fun hk => ?_
      picts := by rw [hsend]; exact h.picts
      numbered := hframes.1
      framed := hframes.2
      requested := by rw [hsend]; exact h.requested
      served := fun c n hr =>
        (h.served c n hr).congr rfl hsend (fun hd => done_step hd hs) (hwaiting c) }
  have hscale := h.phase hk
  cases hs <;> first | exact hscale | exact absurd (hconv rfl) hk

theorem KeyInv.capture {bufId : Nat} {enc : EncState Nat (Option Nat)} (h : KeyInv s)
    (hs : EncStepped some sameFmt s.enc (.capture bufId s.captured) enc) :
    KeyInv { s with enc := enc, captured := s.captured + 1 } := by
  have hframes := @framed_step sameFmt _ _ _ _ _ _ (· < s.captured + 1)
    (fun f => ∀ i, f = some i → i < s.captured + 1) h.owned
    (fun b hb => Nat.lt_succ_of_lt (h.numbered b hb))
    (fun i hi => Nat.lt_succ_of_lt (h.framed i hi))
    (fun raw hraw i hi => Option.some.inj hi ▸ hraw)
    (fun _ _ ha => by cases ha; exact Nat.lt_succ_self _) hs
  have hwaiting : ∀ c, Waiting c s →
      enc.enc = .done ∨ Waiting c { s with enc := enc, captured := s.captured + 1 } := by
    rintro c ⟨hasked, hshown, htaken⟩
    cases hs with
    | capture hpc hfree =>
        refine .inr ⟨hasked, hshown, fun hi hk b hb => ?_⟩
        have hcur := h.owned.current b (by rw [show s.enc.conv = _ from hb]; rfl)
        have hbusy := h.owned.busy b hcur (by rw [show s.enc.conv = _ from hb]; exact nofun)
        have hne : b ≠ bufId := by
          rintro rfl
          rw [hbusy] at hfree
          cases hfree
        show Function.update s.enc.bufs bufId s.captured b < c
        rw [Function.update_of_ne hne]
        exact htaken hi hk b hb
  have hsend : enc.sent = s.enc.sent := by
    cases hs
    rfl
  exact
    { h with
      owned := owned_step h.owned hs
      sending := sending_step h.sending hs
      lowered := lowered_step h.lowered hs
      phase := by
        intro hk
        have hscale := h.phase hk
        cases hs
        exact hscale
      picts := by rw [hsend]; exact h.picts
      numbered := hframes.1
      framed := hframes.2
      requested := by rw [hsend]; exact h.requested
      served := fun c n hr =>
        (h.served c n hr).congr rfl hsend (fun hd => done_step hd hs) (hwaiting c) }

theorem KeyInv.take {bufId : Nat} (h : KeyInv s) (hkey : s.key = .idle)
    (hpc : s.enc.conv = .loop) (hcur : s.enc.curBufId = some bufId) :
    KeyInv { s with enc := { s.enc with conv := .scale bufId }, key := .readForce } := by
  have hs : EncStepped some false s.enc .conv { s.enc with conv := .scale bufId } :=
    .convTake hpc hcur
  refine
    { h with
      owned := owned_step h.owned hs
      sending := sending_step h.sending hs
      lowered := lowered_step h.lowered hs
      phase := fun _ => ⟨bufId, rfl⟩
      unforced := nofun
      tested := nofun
      cleared := nofun
      served := fun c n hr => (h.served c n hr).congr rfl rfl id ?_ }
  rintro ⟨hasked, hshown, -⟩
  refine .inr ⟨hasked.imp_right fun hu => ?_, hshown, fun _ hk => ?_⟩
  · obtain ⟨hi, hp⟩ := hu.flagged (by rw [hkey]; exact nofun) (by rw [hkey]; exact nofun)
      (by rw [hkey]; exact nofun) (by rw [hpc]; exact fun _ => rfl)
    exact .inr ⟨hi, .inr (.inr (.inr hp))⟩
  · rcases hk with hk | hk | hk <;> cases hk

/-- What is sent as no key frame is older than the requests that wait. -/
theorem KeyInv.send (h : KeyInv s) (hpc : s.enc.enc = .send) :
    KeyInv { s with
      enc := { s.enc with sent := s.enc.sent ++ [s.enc.avFrame], enc := .clear }
      picts := s.picts ++ [s.pictType] } := by
  have hs : EncStepped some false s.enc (.enc true)
      { s.enc with sent := s.enc.sent ++ [s.enc.avFrame], enc := .clear } :=
    .send hpc
  refine
    { h with
      owned := owned_step h.owned hs
      sending := sending_step h.sending hs
      lowered := lowered_step h.lowered hs
      picts := by simp [h.picts]
      requested := fun c n hr => by simp [Nat.le_succ_of_le (h.requested c n hr)]
      served := fun c n hr => ?_ }
  have hn := h.requested c n hr
  have hpicts : (s.picts ++ [s.pictType]).drop n = s.picts.drop n ++ [s.pictType] :=
    List.drop_append_of_le_length (by rw [h.picts]; exact hn)
  have hsent : (s.enc.sent ++ [s.enc.avFrame]).drop n = s.enc.sent.drop n ++ [s.enc.avFrame] :=
    List.drop_append_of_le_length hn
  unfold Served
  rw [hpicts, hsent]
  by_cases hi : s.pictType = .i
  · exact .inl (List.mem_append_right _ (hi ▸ List.mem_singleton_self _))
  · rcases h.served c n hr with hs | ⟨hold, hs | ⟨hasked, hshown, htaken⟩⟩
    · exact .inl (List.mem_append_left _ hs)
    · rw [hpc] at hs
      cases hs
    · refine .inr ⟨fun i hmem => ?_, .inr ⟨hasked.imp_right ?_, hshown, htaken⟩⟩
      · rcases List.mem_append.1 hmem with hmem | hmem
        · exact hold i hmem
        · exact hshown hi i (List.mem_singleton.1 hmem).symm
      · rintro (hk | ⟨hi', -⟩)
        · exact .inl hk
        · exact absurd hi' hi

/-- Everything captured so far is older than a new request. -/
theorem KeyInv.force (h : KeyInv s) (hok : Heeded s .force) :
    KeyInv { s with
      forceKeyFrame := true, requests := s.requests ++ [(s.captured, s.enc.sent.length)] } := by
  have hforce := hok.force rfl
  refine
    { h with
      unforced := fun hk => absurd hk hforce.1
      tested := fun hk hi => absurd (hforce.2 hk) hi
      requested := ?_
      served := ?_ }
  · intro c n hr
    rcases List.mem_append.1 hr with hr | hr
    · exact h.requested c n hr
    · cases List.mem_singleton.1 hr
      exact Nat.le_refl _
  · intro c n hr
    rcases List.mem_append.1 hr with hr | hr
    · exact (h.served c n hr).congr rfl rfl id fun hw => .inr ⟨.inl rfl, hw.shown, hw.taken⟩
    · cases List.mem_singleton.1 hr
      refine .inr ⟨?_, .inr ⟨.inl rfl, fun _ => h.framed, fun _ _ bufId hb => ?_⟩⟩
      · intro i hi
        rw [List.drop_length] at hi
        cases hi
      · have hb : s.enc.conv = .scale bufId := hb
        have hcur := h.owned.current bufId (by rw [hb]; rfl)
        exact h.numbered bufId (h.owned.busy bufId hcur (by rw [hb]; exact nofun))

theorem KeyInv.conv (h : KeyInv s) (hok : Heeded s .conv)
    (hs : keyConvStep sameFmt s = some s') : KeyInv s' := by
  by_cases hkey : s.key = .idle
  · unfold keyConvStep at hs
    split at hs
    next hidle =>
        rcases Option.map_eq_some_iff.1 hs with ⟨enc, henc, hs⟩
        have hstep := encStepped_conv henc
        split at hs
        next bufId hloop hscale =>
            cases hs
            cases hstep with
            | convWait => cases hloop.symm.trans hscale
            | convTake hpc hcur =>
                cases hscale
                exact h.take hkey hpc hcur
            | _ => cases hscale
        next hno =>
            cases hs
            refine h.encoder hstep ?_ (fun _ => hkey) (fun _ _ => nofun) fun bufId hl hsc => ?_
            · cases hstep <;> rfl
            · exact hno bufId hl hsc
    next hpc => cases hkey.symm.trans hpc
    next hpc => cases hkey.symm.trans hpc
    next hpc => cases hkey.symm.trans hpc
    next hpc => cases hkey.symm.trans hpc
  · exact h.keyed hok hkey hs

theorem KeyInv.step {a : KeyAction} (h : KeyInv s) (hok : Heeded s a)
    (hs : keyStep sameFmt s a = some s') : KeyInv s' := by
  cases a with
  | capture bufId =>
      rcases Option.map_eq_some_iff.1 hs with ⟨enc, henc, rfl⟩
      exact h.capture (encStepped henc)
  | put =>
      rcases Option.map_eq_some_iff.1 hs with ⟨enc, henc, rfl⟩
      have hstep := encStepped henc
      refine h.encoder hstep ?_ nofun (fun _ _ => nofun) fun bufId hloop hscale => ?_
      · cases hstep
        rfl
      · cases hstep
        rw [show s.enc.conv = _ from hscale] at hloop
        cases hloop
  | conv => exact h.conv hok hs
  | enc goOn =>
      rcases Option.map_eq_some_iff.1 hs with ⟨enc, henc, hs⟩
      have hstep : EncStepped some sameFmt s.enc (.enc goOn) enc := encStepped_enc henc
      split at hs
      next hsend =>
          cases hs
          rw [encThreadStep, hsend] at henc
          cases henc
          exact h.send hsend
      next hsend =>
          cases hs
          refine h.encoder hstep ?_ nofun (fun _ _ => nofun) fun bufId hloop hscale => ?_
          · cases hstep with
            | send hpc => exact absurd hpc hsend
            | _ => rfl
          · cases hstep <;> exact absurd (hloop.symm.trans hscale) nofun
  | exit =>
      have hstep : EncStepped some sameFmt s.enc .exit { s.enc with exit := true } := .exit
      cases hs
      exact h.encoder hstep rfl nofun (fun _ _ => nofun)
        fun bufId hloop hscale => absurd (hloop.symm.trans hscale) nofun
  | force =>
      cases hs
      exact h.force hok

/-- Requests that come between two frames, to a conversion that does not overtake a key frame, are
answered with the next frame that is sent. -/
theorem answered_of_heeded {s : KeyState} (h : (keyMachine sameFmt).Run Heeded s) :
    Answered s := by
  have hinv : KeyInv s := by
    refine h.invariant ?_ fun _ _ _ hi hok hs => hi.step hok hs
    rintro _ rfl
    exact keyInv_start
  rintro c n hr ⟨i, -, hi, -, -, hmem, -⟩
  rcases hinv.served c n hr with hs | ⟨hold, -⟩
  · exact hs
  · exact absurd (hold i hmem) (Nat.not_lt.2 hi)

/-- `Heeded`, read off the state and the action. -/
def heeded (s : KeyState) : KeyAction → Bool
  | .force => decide (s.key ≠ .writePict false ∧ (s.key = .testForce → s.pictType = .i))
  | .conv => decide (s.key = .writePict false → s.pictType = .i →
      ¬(s.enc.convOver = true ∧ s.enc.enc.unsent = true))
  | _ => true

theorem heeded_of_heeded (s : KeyState) (a : KeyAction) (h : heeded s a = true) : Heeded s a where
  force := by
    rintro rfl
    rw [heeded, decide_eq_true_iff] at h
    exact h
  pict := by
    rintro rfl
    rw [heeded, decide_eq_true_iff] at h
    exact h

/-- A frame from its capture to its sending, with as many turns of the conversion thread as one with a
request needs. -/
def oneFrame : List KeyAction :=
  [.capture 0, .put] ++ List.replicate 10 .conv ++ [.enc true, .enc true, .enc true]

/-- One request before the second frame, one while the fourth waits for the first look at the flag,
and two more frames. -/
def twoRequests : List KeyAction :=
  oneFrame ++ [.force] ++ oneFrame ++ oneFrame ++
    ([.capture 0, .put, .conv, .force] ++ List.replicate 9 .conv ++
      [.enc true, .enc true, .enc true]) ++ oneFrame ++ oneFrame

theorem answered_twoRequests : ∃ s, (keyMachine false).Run Heeded s ∧
    s.requests = [(1, 1), (4, 3)] ∧ s.picts = [.p, .i, .p, .i, .p, .p] ∧
    s.enc.sent = [some 0, some 1, some 2, some 3, some 4, some 5] ∧ Answered s := by
  have hrun : (((keyMachine false).guarded fun s a => heeded s a = true).exec .start
      twoRequests).map (fun s => (s.requests, s.picts, s.enc.sent)) =
        some ([(1, 1), (4, 3)], [.p, .i, .p, .i, .p, .p],
          [some 0, some 1, some 2, some 3, some 4, some 5]) := by
    decide +kernel
  obtain ⟨s, hs, hview⟩ := Option.map_eq_some_iff.mp hrun
  simp only [Prod.mk.injEq] at hview
  have hheeded := (Machine.run_of_exec hs rfl).mono heeded_of_heeded
  exact ⟨s, hheeded, hview.1, hview.2.1, hview.2.2, answered_of_heeded hheeded⟩

/-- The request comes between the two looks at the flag; two newer frames are sent as no key
frames. -/
def requestBetween : List KeyAction :=
  [.capture 0, .put, .conv, .conv, .force, .conv, .conv, .conv, .conv, .conv, .conv, .conv, .conv,
    .enc true, .enc true, .enc true] ++ oneFrame ++ oneFrame

theorem request_lost : ∃ s, (keyMachine false).Reachable s ∧ ¬Answered s := by
  have hrun : ((keyMachine false).exec .start requestBetween).map
      (fun s => (s.requests, s.enc.sent, s.picts)) =
        some ([(1, 0)], [some 0, some 1, some 2], [.p, .p, .p]) := by
    decide
  rcases Option.map_eq_some_iff.1 hrun with ⟨s, hs, hout⟩
  simp only [Prod.mk.injEq] at hout
  rcases hout with ⟨hreq, hsent, hpicts⟩
  refine ⟨s, .exec (.start rfl) hs, fun h => ?_⟩
  have hkey := h 1 0 (by rw [hreq]; decide) ⟨1, 2, by decide, by decide, by decide,
    by rw [hsent]; decide, by rw [hsent]; decide⟩
  rw [hpicts] at hkey
  exact absurd hkey (by decide)

end Hprd.Codec

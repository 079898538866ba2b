import Hprd.Codec.Hevc.SliceHeader

/-!
# Reading a slice header

A decoder reads the slice segment header under the parameter sets of its frame. What
it finds is what the encoder filled in exactly where the picture order count fits the
width that the sequence parameter set gives it.
-/

namespace Hprd.Codec.Hevc

open Hprd.Core

/-- The fields of a slice segment header; those that the syntax leaves out are `none`. -/
structure SliceSegmentHeader where
  nalUnitType : Nat
  firstSliceSegmentInPicFlag : Nat
  noOutputOfPriorPicsFlag : Option Nat
  slicePicParameterSetId : Nat
  sliceType : Nat
  picOutputFlag : Option Nat
  colourPlaneId : Option Nat
  slicePicOrderCntLsb : Option Nat
  shortTermRefPicSetSpsFlag : Option Nat
  shortTermRefPicSetIdx : Option Nat
  sliceTemporalMvpEnabledFlag : Option Nat
  sliceSaoLumaFlag : Option Nat
  sliceSaoChromaFlag : Option Nat
  numRefIdxActiveOverrideFlag : Option Nat
  numRefIdxL0ActiveMinus1 : Option Nat
  numRefIdxL1ActiveMinus1 : Option Nat
  mvdL1ZeroFlag : Option Nat
  cabacInitFlag : Option Nat
  collocatedFromL0Flag : Option Nat
  collocatedRefIdx : Option Nat
  fiveMinusMaxNumMergeCand : Option Nat
  sliceQpDelta : Int
  sliceCbQpOffset : Option Int
  sliceCrQpOffset : Option Int
  deblockingFilterOverrideFlag : Option Nat
  sliceDeblockingFilterDisabledFlag : Option Nat
  sliceBetaOffsetDiv2 : Option Int
  sliceTcOffsetDiv2 : Option Int
  sliceLoopFilterAcrossSlicesEnabledFlag : Option Nat
deriving DecidableEq, Repr

namespace SliceSegmentHeader

open BitReader

/-- `slice_segment_header()`. Dependent and further segments, sets that are spelled out, long-term
pictures, modified lists, prediction weights and entry points are not read. -/
def read (nalUnitType : Nat) (sps : SeqParamSet) (pps : PicParamSet) :
    BitReader SliceSegmentHeader := do
  let first ← u 1
  let noOutput ← cond (16 ≤ nalUnitType ∧ nalUnitType ≤ 23) (u 1)
  let ppsId ← ue
  check (first = 1 ∧ pps.numExtraSliceHeaderBits = 0)
  let sliceType ← ue
  let picOutput ← cond (pps.displayFlagPresentFlag ≠ 0) (u 1)
  let colourPlane ← cond (sps.separateColourPlaneFlag = 1) (u 2)
  let coded := ¬ (nalUnitType = NALU_IDR_W_DLP ∨ nalUnitType = NALU_IDR_N_LP)
  let poc ← cond coded (u (sps.log2MaxPicOrderCntLsbMinus4 + 4))
  let spsFlag ← cond coded (u 1)
  check (spsFlag ≠ some 0)
  let idx ← cond (coded ∧ 1 < sps.numShortTermRefPicSets)
    (u (ceilLog2 sps.numShortTermRefPicSets))
  check (coded → sps.longTermRefPicsPresentFlag = 0)
  let tmvp ← cond (coded ∧ sps.spsTemporalMvpEnabledFlag ≠ 0) (u 1)
  let saoLuma ← cond (sps.sampleAdaptiveOffsetEnabledFlag ≠ 0) (u 1)
  let saoChroma ← cond (sps.sampleAdaptiveOffsetEnabledFlag ≠ 0 ∧ sps.chromaFormatIdc ≠ 0 ∧
    sps.separateColourPlaneFlag = 0) (u 1)
  let inter := sliceType = SLICE_P ∨ sliceType = SLICE_B
  let override ← cond inter (u 1)
  let l0 ← cond (override = some 1) ue
  let l1 ← cond (override = some 1 ∧ sliceType = SLICE_B) ue
  check (inter → pps.listsModificationPresentFlag = 0)
  let mvd ← cond (sliceType = SLICE_B) (u 1)
  let cabac ← cond (inter ∧ pps.cabacInitPresentFlag ≠ 0) (u 1)
  let fromL0 ← cond (tmvp = some 1 ∧ sliceType = SLICE_B) (u 1)
  let refIdx ← cond (inter ∧ tmvp = some 1 ∧
    (fromL0.getD 1 = 1 ∧ 0 < l0.getD pps.numRefIdxL0DefaultActiveMinus1 ∨
      fromL0.getD 1 = 0 ∧ 0 < l1.getD pps.numRefIdxL1DefaultActiveMinus1)) ue
  check (pps.weightedPredFlag = 0 ∧ pps.weightedBipredFlag = 0)
  let merge ← cond inter ue
  let qp ← se
  let cb ← cond (pps.ppsSliceChromaQpOffsetsPresentFlag ≠ 0) se
  let cr ← cond (pps.ppsSliceChromaQpOffsetsPresentFlag ≠ 0) se
  let deblock ← cond (pps.deblockingFilterOverrideEnabledFlag ≠ 0) (u 1)
  let disabled ← cond (deblock = some 1) (u 1)
  let beta ← cond (disabled = some 0) se
  let tc ← cond (disabled = some 0) se
  let loop ← cond (pps.ppsLoopFilterAcrossSlicesEnabledFlag ≠ 0 ∧ (saoLuma = some 1 ∨
    saoChroma = some 1 ∨ disabled.getD pps.ppsDeblockingFilterDisabledFlag = 0)) (u 1)
  check (pps.tilesEnabledFlag = 0 ∧ pps.entropyCodingSyncEnabledFlag = 0 ∧
    pps.sliceSegmentHeaderExtensionPresentFlag = 0)
  pure ⟨nalUnitType, first, noOutput, ppsId, sliceType, picOutput, colourPlane, poc, spsFlag, idx,
    tmvp, saoLuma, saoChroma, override, l0, l1, mvd, cabac, fromL0, refIdx, merge, qp, cb, cr,
    deblock, disabled, beta, tc, loop⟩

def readNal (sps : SeqParamSet) (pps : PicParamSet) : BitReader SliceSegmentHeader := do
  let startCode ← u 24
  let forbidden ← u 1
  let nalUnitType ← u 6
  let layer ← u 6
  let temporal ← u 3
  check (startCode = 1 ∧ forbidden = 0 ∧ layer = 0 ∧ temporal = 1)
  read nalUnitType sps pps

/-- The other fields that were read, each with the value that the encoder has for it. -/
def carried (hdr : SliceSegmentHeader) (sh : SliceHeader) : List (Option Int × Int) :=
  [(some hdr.firstSliceSegmentInPicFlag, sh.firstSliceSegmentInPicFlag),
    (hdr.noOutputOfPriorPicsFlag.map Int.ofNat, sh.noDisplayOfPriorPicsFlag),
    (some hdr.slicePicParameterSetId, sh.slicePicParameterSetId),
    (hdr.picOutputFlag.map Int.ofNat, sh.picDisplayFlag),
    (hdr.colourPlaneId.map Int.ofNat, sh.colourPlaneId),
    (hdr.shortTermRefPicSetSpsFlag.map Int.ofNat, sh.shortTermRefPicSetSpsFlag),
    (hdr.sliceTemporalMvpEnabledFlag.map Int.ofNat, sh.sliceTemporalMvpEnabledFlag),
    (hdr.sliceSaoLumaFlag.map Int.ofNat, sh.sliceSaoLumaFlag),
    (hdr.sliceSaoChromaFlag.map Int.ofNat, sh.sliceSaoChromaFlag),
    (hdr.numRefIdxActiveOverrideFlag.map Int.ofNat, sh.numRefIdxActiveOverrideFlag),
    (hdr.numRefIdxL0ActiveMinus1.map Int.ofNat, sh.numRefIdxL0ActiveMinus1),
    (hdr.numRefIdxL1ActiveMinus1.map Int.ofNat, sh.numRefIdxL1ActiveMinus1),
    (hdr.mvdL1ZeroFlag.map Int.ofNat, sh.mvdL1ZeroFlag),
    (hdr.cabacInitFlag.map Int.ofNat, sh.cabacInitPresentFlag),
    (hdr.collocatedFromL0Flag.map Int.ofNat, sh.collocatedFromL0Flag),
    (hdr.collocatedRefIdx.map Int.ofNat, sh.collocatedRefIdx),
    (hdr.fiveMinusMaxNumMergeCand.map Int.ofNat, sh.fiveMinusMaxNumMergeCand),
    (some hdr.sliceQpDelta, sh.sliceQpDelta),
    (hdr.sliceCbQpOffset, sh.sliceQpDeltaCb),
    (hdr.sliceCrQpOffset, sh.sliceQpDeltaCr),
    (hdr.deblockingFilterOverrideFlag.map Int.ofNat, sh.deblockingFilterOverrideFlag),
    (hdr.sliceDeblockingFilterDisabledFlag.map Int.ofNat, sh.disableDeblockingFilterFlag),
    (hdr.sliceBetaOffsetDiv2, sh.betaOffsetDiv2),
    (hdr.sliceTcOffsetDiv2, sh.tcOffsetDiv2),
    (hdr.sliceLoopFilterAcrossSlicesEnabledFlag.map Int.ofNat,
      sh.sliceLoopFilterAcrossSlicesEnabledFlag)]

/-- A header that was read tells what the encoder has, with the picture order count `pocLsb`. Where
the count or the index is left out the syntax infers 0. -/
structure Tells (hdr : SliceSegmentHeader) (nalUnitType : Nat) (pocLsb : Int) (sh : SliceHeader) :
    Prop where
  nalUnitType : hdr.nalUnitType = nalUnitType
  picOrderCntLsb : ((hdr.slicePicOrderCntLsb.getD 0 : Nat) : Int) = pocLsb
  sliceType : hdr.sliceType = sh.sliceType
  refPicSetIdx : hdr.shortTermRefPicSetIdx.getD 0 = sh.shortTermRefPicSetIdx
  fields : ∀ p ∈ hdr.carried sh, ∀ v ∈ p.1, v = p.2

end SliceSegmentHeader

/-- `MAX((ceil(log(ip_period - 1 + 4) / log(2.0)) + 3), 4)`. -/
def picOrderCntLsbWidth (ip : Nat) : Nat := max (ceilLog2 (ip - 1 + 4) + 3) 4

/-! ### The headers of the two kinds of frames -/

def idrCalls : List Element := [.u 1 1, .u 1 0, .ue 0, .ue SLICE_I, .u 1 0, .u 1 0, .se 0]

def codedCalls (ip : Nat) (inter : Bool) (poc idx : Nat) : List Element :=
  [.u 1 1, .ue 0, .ue (if inter then SLICE_B else SLICE_I), .u (picOrderCntLsbWidth ip) poc,
    .u 1 1] ++ only (1 < ip) [.u (ceilLog2 ip) idx] ++ [.u 1 1, .u 1 0, .u 1 0] ++
  only (inter = true) [.u 1 0, .u 1 0, .u 1 0, .u 1 1, .ue 0] ++ [.se 0]

section

open Encoder (sliceHeader)

variable {c : Config} {n poc idx : Nat} {t : FrameType}

theorem log2MaxPicOrderCntLsb (ip : Nat) :
    (fillSpsHeader ip).log2MaxPicOrderCntLsbMinus4 + 4 = picOrderCntLsbWidth ip := by
  show max (ceilLog2 (ip - 1 + 4) + 3) 4 - 4 + 4 = max (ceilLog2 (ip - 1 + 4) + 3) 4
  omega

theorem ceilLog2_le {n : Nat} (h : n ≤ 64) : ceilLog2 n ≤ 6 := Nat.clog_le_of_le_pow h

theorem lt_ceilLog2 {k n : Nat} (h : k < n) : k < 2 ^ ceilLog2 n :=
  h.trans_le (Nat.le_pow_clog (by decide) n)

theorem picOrderCntLsbWidth_le {ip : Nat} (h : ip ≤ 64) : picOrderCntLsbWidth ip ≤ 10 := by
  have hlog : ceilLog2 (ip - 1 + 4) ≤ 7 := Nat.clog_le_of_le_pow (by omega)
  unfold picOrderCntLsbWidth
  omega

theorem sliceHeaderRbsp_idr (c : Config) (n : Nat) :
    sliceHeaderRbsp c.ip (sliceHeader c .idr (fillPpsHeader 0) n 0 0) (fillSpsHeader c.ip)
      (fillPpsHeader 0) = some idrCalls := rfl

theorem sliceHeaderRbsp_coded (ht : t ≠ .idr) (hpoc : poc ≠ 0) :
    sliceHeaderRbsp c.ip (sliceHeader c t (fillPpsHeader 0) n poc idx) (fillSpsHeader c.ip)
      (fillPpsHeader 0) = some (codedCalls c.ip (decide (t ≠ .i)) poc idx) := by
  have hlog : ceilLog2 c.ip % 256 = ceilLog2 c.ip :=
    Nat.mod_eq_of_lt ((ceilLog2_le c.ip_le).trans_lt (by decide))
  have hnal : (if (sliceHeader c t (fillPpsHeader 0) n poc idx).picOrderCntLsb = 0 then
      NALU_IDR_W_DLP else NALU_TRAIL_R) = NALU_TRAIL_R := if_neg hpoc
  have hset : refPicSetCalls c.ip (sliceHeader c t (fillPpsHeader 0) n poc idx)
      (fillSpsHeader c.ip) = some (only (1 < c.ip) [.u (ceilLog2 c.ip % 256) idx]) := rfl
  rw [hlog] at hset
  have hindependent :
      (sliceHeader c t (fillPpsHeader 0) n poc idx).dependentSliceSegmentFlag = 0 := rfl
  rw [sliceHeaderRbsp, hnal, if_pos hindependent, sliceCalls, hset, codedCalls,
    ← log2MaxPicOrderCntLsb]
  -- the appended lists only agree once the optional index is spelled out
  by_cases hip : 1 < c.ip
  · rw [only_pos hip]
    cases t with
    | idr => exact absurd rfl ht
    | i => rfl
    | p => rfl
    | b => rfl
  · rw [only_neg hip]
    cases t with
    | idr => exact absurd rfl ht
    | i => rfl
    | p => rfl
    | b => rfl

namespace SliceSegmentHeader

open BitReader

theorem readNal_header {nal : Nat} (h : nal < 2 ^ 6) (sps : SeqParamSet) (pps : PicParamSet)
    (bits : Bits) :
    readNal sps pps (codes (nalStartCodePrefix NALU_TRAIL_R ++ nalHeader nal) ++ bits) =
      read nal sps pps bits := by
  show readNal sps pps (codes [.u 24 1, .u 1 0, .u 6 nal, .u 6 0, .u 3 1] ++ bits) = _
  simp only [codes_cons, codes_nil, Element.code, List.append_assoc, List.nil_append, readNal]
  simp (disch := first | assumption | decide) only [bind_u, bind_check]

/-- What is read of an IDR frame. -/
def idr : SliceSegmentHeader :=
  ⟨NALU_IDR_W_DLP, 1, some 0, 0, SLICE_I, none, none, none, none, none, none, some 0, some 0, none,
    none, none, none, none, none, none, none, 0, none, none, none, none, none, none, none⟩

theorem read_idr (ip : Nat) (rest : Bits) :
    read NALU_IDR_W_DLP (fillSpsHeader ip) (fillPpsHeader 0) (codes idrCalls ++ rest) =
      some (idr, rest) := by
  simp only [idrCalls, codes_cons, codes_nil, Element.code, List.append_assoc, List.nil_append,
    read]
  simp (disch := first
    | decide
    | (simp [fillSpsHeader, NALU_IDR_W_DLP]; done)
    | fail) only [bind_u, bind_ue, bind_se, bind_cond_pos, bind_cond_neg, bind_check]
  rfl

theorem idr_tells (c : Config) (n : Nat) :
    idr.Tells NALU_IDR_W_DLP 0 (sliceHeader c .idr (fillPpsHeader 0) n 0 0) :=
  ⟨rfl, rfl, rfl, rfl, by simp [carried, idr, sliceHeader]⟩

/-- What is read of a frame between two IDR frames. -/
def coded (inter : Bool) (poc : Nat) (idx : Option Nat) : SliceSegmentHeader :=
  let flag (v : Nat) := if inter then some v else none
  ⟨NALU_TRAIL_R, 1, none, 0, if inter then SLICE_B else SLICE_I, none, none, some poc, some 1, idx,
    some 1, some 0, some 0, flag 0, none, none, flag 0, flag 0, flag 1, none, flag 0, 0, none, none,
    none, none, none, none, none⟩

theorem read_coded (inter : Bool) (hpoc : poc < 2 ^ picOrderCntLsbWidth c.ip) (hidx : idx < c.ip)
    (rest : Bits) :
    read NALU_TRAIL_R (fillSpsHeader c.ip) (fillPpsHeader 0)
        (codes (codedCalls c.ip inter poc idx) ++ rest) =
      some (coded inter poc (if 1 < c.ip then some idx else none), rest) := by
  have hwidth := log2MaxPicOrderCntLsb c.ip
  have hlog : ceilLog2 (fillSpsHeader c.ip).numShortTermRefPicSets = ceilLog2 c.ip := rfl
  have hset : idx < 2 ^ ceilLog2 (fillSpsHeader c.ip).numShortTermRefPicSets := lt_ceilLog2 hidx
  rw [codedCalls, ← hwidth, ← hlog]
  rw [← hwidth] at hpoc
  -- the four shapes of the header are read alike
  by_cases hip : 1 < c.ip <;> cases inter <;>
    simp only [only, hip, if_true, if_false, reduceCtorEq, codes_cons, codes_nil, codes_append,
      Element.code, List.append_assoc, List.nil_append, read] <;>
    simp (disch := first
      | assumption
      | decide
      | (simp [fillSpsHeader, NALU_TRAIL_R, NALU_IDR_W_DLP, NALU_IDR_N_LP, hip]; done)
      | fail) only [bind_u, bind_ue, bind_se, bind_cond_pos, bind_cond_neg, bind_check] <;>
    rfl

theorem coded_tells (ht : t ≠ .idr) (hidx : idx < c.ip) :
    (coded (decide (t ≠ .i)) poc (if 1 < c.ip then some idx else none)).Tells NALU_TRAIL_R poc
      (sliceHeader c t (fillPpsHeader 0) n poc idx) := by
  have hindex : (if 1 < c.ip then some idx else none).getD 0 = idx := by
    split
    · rfl
    · show 0 = idx
      omega
  cases t with
  | idr => exact absurd rfl ht
  | i => exact ⟨rfl, rfl, rfl, hindex, by simp [carried, coded, sliceHeader]⟩
  | p => exact ⟨rfl, rfl, rfl, hindex, by simp [carried, coded, sliceHeader]⟩
  | b => exact ⟨rfl, rfl, rfl, hindex, by simp [carried, coded, sliceHeader]⟩

end SliceSegmentHeader

/-! ### What is written -/

theorem putUiCalls_fit {e : Element} (h : e.Fits) : ∀ call ∈ putUiCalls e, call.1 < 2 ^ call.2 := by
  have hue : ∀ v, ∀ call ∈ putUiCalls (.ue v), call.1 < 2 ^ call.2 := by
    intro v call hcall
    have hcount : countBits (v + 1) = (v + 1).log2 + 1 := countBits_eq (Nat.succ_ne_zero v)
    rcases List.mem_cons.mp hcall with rfl | hcall
    · exact Nat.two_pow_pos _
    · rw [List.mem_singleton.mp hcall, hcount]
      exact Nat.lt_log2_self
  cases e with
  | u n v =>
      intro call hcall
      rw [List.mem_singleton.mp hcall]
      exact h
  | ue v => exact hue v
  | se v => exact hue (seIndex v)

theorem trailingCalls_fit (n : Nat) : ∀ call ∈ trailingCalls n, call.1 < 2 ^ call.2 := by
  intro call hcall
  unfold trailingCalls at hcall
  have hmem : call = (1, 1) ∨ call = (0, 8 - (n + 1) % 8) := by
    split at hcall
    · exact Or.inl (List.mem_singleton.mp hcall)
    · simpa using hcall
  rcases hmem with rfl | rfl
  · decide
  · exact Nat.two_pow_pos _

theorem code_length_le {e : Element} (h : Writable e) : e.code.length ≤ 61 := by
  have hue : ∀ v, v < 2 ^ 31 - 1 → (ueCode v).length ≤ 61 := by
    intro v hv
    have hlog : (v + 1).log2 < 31 := (Nat.log2_lt (Nat.succ_ne_zero v)).mpr (by omega)
    simp only [ueCode, List.length_append, List.length_replicate, bitsOf_length]
    omega
  cases e with
  | u n v =>
      show (bitsOf n v).length ≤ 61
      rw [bitsOf_length]
      exact h.1.trans (by decide)
  | ue v => exact hue v h
  | se v => exact hue (seIndex v) (seIndex_lt h)

theorem codes_length_le {es : List Element} (h : ∀ e ∈ es, Writable e) :
    (codes es).length ≤ 61 * es.length := by
  induction es with
  | nil => exact Nat.zero_le _
  | cons e es ih =>
      have he := code_length_le (h e (List.mem_cons_self ..))
      have hes := ih fun f hf => h f (List.mem_cons_of_mem e hf)
      rw [codes_cons, List.length_append, List.length_cons]
      omega

theorem headerLength_le (start : Bool) {es : List Element} (h : ∀ e ∈ es, Writable e)
    (hlen : es.length ≤ 1000) : headerLength (withStartCode start es) ≤ intMax := by
  have hbits := codes_length_le h
  have hstart : (codes (withStartCode start es)).length ≤ 32 + (codes es).length := by
    cases start with
    | false => exact Nat.le_add_left _ _
    | true =>
        show (bitsOf 32 1 ++ codes es).length ≤ 32 + (codes es).length
        rw [List.length_append, bitsOf_length]
  unfold headerLength intMax
  omega

theorem idrCalls_writable : ∀ e ∈ idrCalls, Writable e := by decide

theorem codedCalls_writable (inter : Bool) (hpoc : poc < 2 ^ picOrderCntLsbWidth c.ip)
    (hidx : idx < c.ip) : ∀ e ∈ codedCalls c.ip inter poc idx, Writable e := by
  have hwidth := picOrderCntLsbWidth_le c.ip_le
  have hlog := ceilLog2_le c.ip_le
  have hcount : Writable (.u (picOrderCntLsbWidth c.ip) poc) := ⟨by omega, hpoc⟩
  have hindex : Writable (.u (ceilLog2 c.ip) idx) := ⟨by omega, lt_ceilLog2 hidx⟩
  have hset : ∀ e ∈ only (1 < c.ip) [.u (ceilLog2 c.ip) idx], Writable e := by
    unfold only
    split
    · exact List.forall_mem_singleton.mpr hindex
    · exact List.forall_mem_nil _
  rw [codedCalls]
  simp only [List.forall_mem_append, List.forall_mem_cons]
  cases inter with
  | false =>
      exact ⟨⟨⟨⟨⟨by decide, by decide, by decide, hcount, by decide⟩, hset⟩, by decide⟩,
        by decide⟩, by decide⟩
  | true =>
      exact ⟨⟨⟨⟨⟨by decide, by decide, by decide, hcount, by decide⟩, hset⟩, by decide⟩,
        by decide⟩, by decide⟩

theorem codedCalls_length_le (inter : Bool) (poc idx : Nat) :
    (codedCalls c.ip inter poc idx).length ≤ 15 := by
  unfold codedCalls only
  by_cases hip : 1 < c.ip <;> cases inter <;> simp [hip]

end

/-! ### Whole runs -/

/-- The header of a slice is true: the values fit their widths, and what is read of it is what the
encoder has, with the picture order count since the last IDR frame. -/
def SliceTrue (c : Config) (s : Encoder) : Prop :=
  ∃ es, packedSliceCalls c s = some es ∧
    (∀ call ∈ es.flatMap putUiCalls ++ trailingCalls (codes es).length, call.1 < 2 ^ call.2) ∧
    ∀ junk, ∃ bs hdr rest, buildPackedSliceBuffer junk c s = some bs ∧
      SliceSegmentHeader.readNal s.sps s.pps ((bytesBits bs.memory).take bs.bitOffset) =
        some (hdr, rest) ∧
      hdr.Tells (if s.idrPicFlag then NALU_IDR_W_DLP else NALU_TRAIL_R)
        (((s.currentPktIdx : Int) - s.currentIdrDisplay) %
          2 ^ (s.sps.log2MaxPicOrderCntLsbMinus4 + 4)) s.ssh

/-- A header of fields that fit is read back. -/
theorem sliceTrue_of_writable {c : Config} {s : Encoder} {nal : Nat} {calls : List Element}
    {hdr : SliceSegmentHeader}
    (hcalls : packedSliceCalls c s =
      some (nalStartCodePrefix NALU_TRAIL_R ++ nalHeader nal ++ calls))
    (hnal : nal < 2 ^ 6) (hw : ∀ e ∈ calls, Writable e) (hlen : calls.length ≤ 15)
    (hread : ∀ rest, SliceSegmentHeader.read nal s.sps s.pps (codes calls ++ rest) =
      some (hdr, rest))
    (htells : hdr.Tells (if s.idrPicFlag then NALU_IDR_W_DLP else NALU_TRAIL_R)
      (((s.currentPktIdx : Int) - s.currentIdrDisplay) %
        2 ^ (s.sps.log2MaxPicOrderCntLsbMinus4 + 4)) s.ssh) : SliceTrue c s := by
  have hhead : ∀ e ∈ nalStartCodePrefix NALU_TRAIL_R ++ nalHeader nal, Writable e := by
    have htype : Writable (.u 6 nal) := ⟨by decide, hnal⟩
    show ∀ e ∈ [Element.u 24 1, .u 1 0, .u 6 nal, .u 6 0, .u 3 1], Writable e
    simp only [List.forall_mem_cons]
    exact ⟨by decide, by decide, htype, by decide, by decide, List.forall_mem_nil _⟩
  have hes := List.forall_mem_append.mpr ⟨hhead, hw⟩
  have hcount : (nalStartCodePrefix NALU_TRAIL_R ++ nalHeader nal ++ calls).length ≤ 1000 := by
    rw [List.length_append]
    show 5 + calls.length ≤ 1000
    omega
  have hfit := headerLength_le false hes hcount
  refine ⟨_, hcalls, ?_, ?_⟩
  · rw [List.forall_mem_append]
    refine ⟨?_, trailingCalls_fit _⟩
    intro call hcall
    obtain ⟨e, he, hcall⟩ := List.mem_flatMap.mp hcall
    exact putUiCalls_fit (hes e he).fits call hcall
  · intro junk
    obtain ⟨bs, hput, -, hmem⟩ := @writeHeader_spec junk false _ hes hfit
    refine ⟨bs, hdr,
      trailingBits (codes (nalStartCodePrefix NALU_TRAIL_R ++ nalHeader nal ++ calls)).length,
      ?_, ?_, htells⟩
    · rw [buildPackedSliceBuffer, hcalls]
      exact hput
    · rw [hmem]
      show SliceSegmentHeader.readNal s.sps s.pps (codes (_ ++ calls) ++ _) = _
      rw [codes_append, List.append_assoc, SliceSegmentHeader.readNal_header hnal, hread]
      rfl

namespace Encoder

variable {c : Config} {o g : Nat} {s : Encoder}

theorem Encoded.ssh_idr (h : Encoded c o 0 s) :
    ∃ n, s.ssh = sliceHeader c .idr (fillPpsHeader 0) n 0 0 := by
  obtain ⟨n, hssh⟩ := h.ssh
  have ht : s.currentFrameType = .idr := by rw [h.frameType, Periods.frameTypeAt_eq_idr_iff]
  have hidx : groupDisplay c.groupLen 0 % c.ip = 0 := Nat.zero_mod _
  rw [ht, h.pps, hidx] at hssh
  exact ⟨n, hssh⟩

theorem Encoded.sliceTrue_idr (h : Encoded c o 0 s) : SliceTrue c s := by
  obtain ⟨n, hssh⟩ := h.ssh_idr
  have hidr : s.idrPicFlag = true := h.idrPicFlag
  have hpoc : (s.currentPktIdx : Int) - s.currentIdrDisplay = 0 := h.poc
  refine @sliceTrue_of_writable c s NALU_IDR_W_DLP idrCalls .idr ?_ (by decide) idrCalls_writable
    (by decide) ?_ ?_
  · rw [packedSliceCalls, hidr, h.sps, h.pps, hssh, sliceHeaderRbsp_idr]
    rfl
  · intro rest
    rw [h.sps, h.pps]
    exact SliceSegmentHeader.read_idr c.ip rest
  · rw [hidr, hpoc, Int.zero_emod, hssh]
    exact SliceSegmentHeader.idr_tells c n

theorem groupDisplay_ne_zero (hp : 0 < p) (h0 : g ≠ 0) : groupDisplay p g ≠ 0 := by
  unfold groupDisplay
  rw [if_neg h0]
  split
  · omega
  · next hd =>
      intro h1
      rw [h1] at hd
      exact hd (dvd_zero p)

theorem Encoded.packedSliceCalls_coded (h : Encoded c o g s) (h0 : g ≠ 0) :
    packedSliceCalls c s =
      some (nalStartCodePrefix NALU_TRAIL_R ++ nalHeader NALU_TRAIL_R ++
        codedCalls c.ip (decide (s.currentFrameType ≠ .i)) (groupDisplay c.groupLen g)
          (groupDisplay c.groupLen g % c.ip)) := by
  obtain ⟨n, hssh⟩ := h.ssh
  have hidr : s.idrPicFlag = false := h.idrPicFlag.trans (decide_eq_false h0)
  have ht : s.currentFrameType ≠ .idr := by
    rw [h.frameType]
    exact fun ht => h0 (Periods.frameTypeAt_eq_idr_iff.mp ht)
  rw [h.pps] at hssh
  rw [packedSliceCalls, hidr, h.sps, h.pps, hssh,
    sliceHeaderRbsp_coded ht (groupDisplay_ne_zero c.groupLen_pos h0)]
  rfl

/-- The count of a frame that is no IDR frame has to fit its width. -/
theorem Encoded.sliceTrue_coded_iff (h : Encoded c o g s) (h0 : g ≠ 0) :
    SliceTrue c s ↔ groupDisplay c.groupLen g < 2 ^ picOrderCntLsbWidth c.ip := by
  have hcalls := h.packedSliceCalls_coded h0
  constructor
  · rintro ⟨es, hes, hfit, -⟩
    -- the count is one of the values that are put
    have heq := Option.some.inj (hes.symm.trans hcalls)
    apply hfit (groupDisplay c.groupLen g, picOrderCntLsbWidth c.ip)
    rw [heq]
    simp [codedCalls, putUiCalls]
  · intro hlt
    obtain ⟨n, hssh⟩ := h.ssh
    have hidr : s.idrPicFlag = false := h.idrPicFlag.trans (decide_eq_false h0)
    have ht : s.currentFrameType ≠ .idr := by
      rw [h.frameType]
      exact fun ht => h0 (Periods.frameTypeAt_eq_idr_iff.mp ht)
    have hidx := Nat.mod_lt (groupDisplay c.groupLen g) c.ip_pos
    have hread := @SliceSegmentHeader.read_coded c _ _ (decide (s.currentFrameType ≠ .i)) hlt hidx
    rw [← h.sps, ← h.pps] at hread
    have hmod : (groupDisplay c.groupLen g : Int) % 2 ^ picOrderCntLsbWidth c.ip =
        groupDisplay c.groupLen g := by
      apply Int.emod_eq_of_lt
      · exact Int.natCast_nonneg _
      · exact_mod_cast hlt
    apply sliceTrue_of_writable hcalls (by decide) (codedCalls_writable _ hlt hidx)
      (codedCalls_length_le _ _ _) hread
    rw [hidr, h.poc, h.sps, log2MaxPicOrderCntLsb, hmod, hssh, h.pps]
    exact SliceSegmentHeader.coded_tells ht hidx

end Encoder

/-- The header of the frame of order `n` is true exactly where the display position since the last
IDR frame fits the width of its field. -/
theorem encodeFrames_sliceTrue_iff (c : Config) (n : Nat) (s₀ s : Encoder)
    (h : s₀.encodeFrames c (n + 1) = some s) :
    SliceTrue c s ↔
      groupDisplay c.groupLen (n % c.idrDistance) < 2 ^ picOrderCntLsbWidth c.ip := by
  have henc := Encoder.encodeFrames_encoded h
  by_cases h0 : n % c.idrDistance = 0
  · rw [h0] at henc ⊢
    exact iff_of_true henc.sliceTrue_idr (Nat.two_pow_pos _)
  · exact henc.sliceTrue_coded_iff h0

/-- 7/21/3: the header of the sixth frame is true. -/
theorem encodeFrames_sliceTrue_7_21_3 :
    let c : Config := ⟨⟨7, 21, 3, by decide, by decide, by decide, by decide, by decide⟩,
      by decide, 60, by decide, 640, 480⟩
    ∃ s, Encoder.idle.encodeFrames c 6 = some s ∧ s.currentPktIdx = 4 ∧ SliceTrue c s := by
  intro c
  have hrun : (Encoder.idle.encodeFrames c 6).map (fun s => s.currentPktIdx) = some 4 := by
    decide +kernel
  obtain ⟨s, hs, heq⟩ := Option.map_eq_some_iff.mp hrun
  exact ⟨s, hs, heq, (encodeFrames_sliceTrue_iff c 5 Encoder.idle s hs).mpr (by decide +kernel)⟩

/-- 30/60/1: the frame with the count 32 has a field of 5 bits. -/
theorem encodeFrames_not_sliceTrue_30_60_1 :
    let c : Config := ⟨⟨30, 60, 1, by decide, by decide, by decide, by decide, by decide⟩,
      by decide, 60, by decide, 640, 480⟩
    ∃ s, Encoder.idle.encodeFrames c 33 = some s ∧
      s.currentPktIdx = 32 ∧ s.currentIdrDisplay = 0 ∧ picOrderCntLsbWidth c.ip = 5 ∧
      ¬ SliceTrue c s := by
  intro c
  have hrun : (Encoder.idle.encodeFrames c 33).map
      (fun s => (s.currentPktIdx, s.currentIdrDisplay)) = some (32, 0) := by decide +kernel
  obtain ⟨s, hs, heq⟩ := Option.map_eq_some_iff.mp hrun
  have henc := Encoder.encodeFrames_encoded hs
  have hwidth : picOrderCntLsbWidth c.ip = 5 := by decide +kernel
  refine ⟨s, hs, congrArg Prod.fst heq, congrArg Prod.snd heq, hwidth, fun htrue => ?_⟩
  have hlt := (henc.sliceTrue_coded_iff (by decide +kernel)).mp htrue
  rw [hwidth] at hlt
  exact absurd hlt (by decide +kernel)

end Hprd.Codec.Hevc

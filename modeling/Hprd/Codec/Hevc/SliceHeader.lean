import Hprd.Codec.Hevc.Bitstream
import Hprd.Codec.Hevc.FrameRun

/-!
# The packed slice header

The calls with which the encoder writes the header of a slice, and the slice segment
header syntax with which a decoder reads it under the same parameter sets.
-/

namespace Hprd.Codec.Hevc

open Hprd.Core

def NALU_TRAIL_R : Nat := 1
def NALU_IDR_W_DLP : Nat := 19
def NALU_IDR_N_LP : Nat := 20

/-- A field of the header that is written under a condition. -/
def only (c : Prop) [Decidable c] (es : List Element) : List Element := if c then es else []

theorem only_pos {c : Prop} [Decidable c] (h : c) (es : List Element) : only c es = es := if_pos h

theorem only_neg {c : Prop} [Decidable c] (h : ¬ c) (es : List Element) : only c es = [] := if_neg h

/-- Only the start codes of parameter sets and delimiters have 32 bits. -/
def nalStartCodePrefix (nalUnitType : Nat) : List Element :=
  if nalUnitType = 0x20 ∨ nalUnitType = 0x21 ∨ nalUnitType = 0x22 ∨ nalUnitType = 0x23 then [.u 32 1]
  else [.u 24 1]

def nalHeader (nalUnitType : Nat) : List Element := [.u 1 0, .u 6 nalUnitType, .u 6 0, .u 3 1]

/-- One earlier picture of a set that the slice header spells out. An assertion fails where there
is a single reference frame. -/
def deltaPocS0Call (gopRefDistance frameCntInGop i : Nat) : Option (List Element) :=
  let prev : Int := 0
  let incompleteMiniGop := false
  let pSliceFlag := true
  let whole : Int := -(gopRefDistance : Int)
  let delta : Option (List Element) :=
    if gopRefDistance = 1 then some [.ue 0]
    else if incompleteMiniGop then
      if i < frameCntInGop % gopRefDistance then some [.ue 0]
      else some [.ue (toUInt32 (prev - whole - 1))]
    else if 1 < numActiveRefP then
      if pSliceFlag then some [.ue (toUInt32 (prev - whole - 1))]
      else if frameCntInGop < gopRefDistance then
        some (only (i = 0) [.ue (toUInt32 (prev - -(frameCntInGop : Int) - 1))])
      else if gopRefDistance < frameCntInGop then
        if i = 0 then
          let rest : Int := -((frameCntInGop - gopRefDistance) % gopRefDistance : Nat)
          some [.ue (toUInt32 (prev - rest - 1))]
        else some [.ue (toUInt32 (prev - whole - 1))]
      else some []
    else none
  delta.map (· ++ [.u 1 1])

def deltaPocS1Call (gopRefDistance frameCntInGop numNegativePics : Nat) : Option (List Element) :=
  let prev : Int := 0
  let delta : Option (List Element) :=
    if 1 < numActiveRefP then
      if frameCntInGop < gopRefDistance then
        some [.ue (toUInt32 ((gopRefDistance : Int) - frameCntInGop - prev - 1))]
      else if gopRefDistance < frameCntInGop then
        some [.ue (toUInt32 ((gopRefDistance : Int) * numNegativePics - frameCntInGop - prev - 1))]
      else some []
    else none
  delta.map (· ++ [.u 1 1])

/-- The reference picture set: its index, or the set itself. -/
def refPicSetCalls (ipPeriod : Nat) (sh : SliceHeader) (sps : SeqParamSet) :
    Option (List Element) :=
  if sh.shortTermRefPicSetSpsFlag = 0 then
    let frameCntInGop := sh.picOrderCntLsb / 2
    ((List.range sh.strpNumNegativePics).mapM (deltaPocS0Call ipPeriod frameCntInGop)).bind
      fun negative =>
    ((List.range sh.strpNumPositivePics).mapM fun _ =>
        deltaPocS1Call ipPeriod frameCntInGop sh.strpNumNegativePics).map
      fun positive =>
        only (0 < sps.numShortTermRefPicSets) [.u 1 0] ++
          [.ue sh.strpNumNegativePics, .ue sh.strpNumPositivePics] ++ negative.flatten ++
            positive.flatten
  else some (only (1 < sps.numShortTermRefPicSets)
    [.u (ceilLog2 sps.numShortTermRefPicSets % 256) sh.shortTermRefPicSetIdx])

/-- The entries of a modified list, through a pointer that may be null. -/
def listEntryCalls (sh : SliceHeader) (flag numActiveMinus1 : Nat) (entries : Option (Nat → Nat)) :
    Option (List Element) :=
  if flag = 0 then some []
  else entries.map fun entry => (List.range (numActiveMinus1 + 1)).map fun i =>
    .u (ceilLog2 sh.numPocTotalCur % 256) (entry i)

def refPicListCalls (sh : SliceHeader) (pps : PicParamSet) : Option (List Element) :=
  let modification : Option (List Element) :=
    if pps.listsModificationPresentFlag ≠ 0 ∧ 1 < sh.numPocTotalCur then
      (listEntryCalls sh sh.refPicListModificationFlagL0 sh.numRefIdxL0ActiveMinus1
        sh.listEntryL0).bind fun l0 =>
      (listEntryCalls sh sh.refPicListModificationFlagL1 sh.numRefIdxL1ActiveMinus1
        sh.listEntryL1).map fun l1 =>
          [.u 1 sh.refPicListModificationFlagL0] ++ l0 ++
            [.u 1 sh.refPicListModificationFlagL1] ++ l1
    else some []
  let collocatedFromL0Flag := if sh.sliceType = SLICE_B then sh.collocatedFromL0Flag else 1
  modification.map fun modification =>
    [.u 1 sh.numRefIdxActiveOverrideFlag] ++
    only (sh.numRefIdxActiveOverrideFlag ≠ 0)
      ([.ue sh.numRefIdxL0ActiveMinus1] ++
        only (sh.sliceType = SLICE_B) [.ue sh.numRefIdxL1ActiveMinus1]) ++
    modification ++
    only (sh.sliceType = SLICE_B) [.u 1 sh.mvdL1ZeroFlag] ++
    only (pps.cabacInitPresentFlag ≠ 0) [.u 1 sh.cabacInitPresentFlag] ++
    only (sh.sliceTemporalMvpEnabledFlag ≠ 0)
      (only (sh.sliceType = SLICE_B) [.u 1 sh.collocatedFromL0Flag] ++
        only (collocatedFromL0Flag ≠ 0 ∧ 0 < sh.numRefIdxL0ActiveMinus1 ∨
          collocatedFromL0Flag = 0 ∧ 0 < sh.numRefIdxL1ActiveMinus1) [.ue sh.collocatedRefIdx]) ++
    [.ue sh.fiveMinusMaxNumMergeCand]

def filterCalls (sh : SliceHeader) (pps : PicParamSet) : List Element :=
  [.se sh.sliceQpDelta] ++
  only (pps.chromaQpOffsetListEnabledFlag ≠ 0) [.se sh.sliceQpDeltaCb, .se sh.sliceQpDeltaCr] ++
  only (pps.deblockingFilterOverrideEnabledFlag ≠ 0) [.u 1 sh.deblockingFilterOverrideFlag] ++
  only (sh.deblockingFilterOverrideFlag ≠ 0)
    ([.u 1 sh.disableDeblockingFilterFlag] ++
      only (sh.disableDeblockingFilterFlag = 0) [.se sh.betaOffsetDiv2, .se sh.tcOffsetDiv2]) ++
  only (pps.ppsLoopFilterAcrossSlicesEnabledFlag ≠ 0 ∧ (sh.sliceSaoLumaFlag ≠ 0 ∨
      sh.sliceSaoChromaFlag ≠ 0 ∨ sh.disableDeblockingFilterFlag = 0))
    [.u 1 sh.sliceLoopFilterAcrossSlicesEnabledFlag]

/-- The fields that an independent slice segment has. -/
def sliceCalls (ipPeriod nalUnitType : Nat) (sh : SliceHeader) (sps : SeqParamSet)
    (pps : PicParamSet) : Option (List Element) :=
  let idr := nalUnitType = NALU_IDR_W_DLP ∨ nalUnitType = NALU_IDR_N_LP
  (if idr then some [] else refPicSetCalls ipPeriod sh sps).bind fun refPicSet =>
  (if sh.sliceType = SLICE_I then some [] else refPicListCalls sh pps).map fun refPicList =>
    ((List.range pps.numExtraSliceHeaderBits).map fun i =>
      .u 1 (sh.sliceReservedUndeterminedFlag i)) ++
    [.ue sh.sliceType] ++
    only (pps.displayFlagPresentFlag ≠ 0) [.u 1 sh.picDisplayFlag] ++
    only (sps.separateColourPlaneFlag = 1) [.u 2 sh.colourPlaneId] ++
    only (¬ idr)
      ([.u (sps.log2MaxPicOrderCntLsbMinus4 + 4) sh.picOrderCntLsb,
          .u 1 sh.shortTermRefPicSetSpsFlag] ++
        refPicSet ++
        only (sps.longTermRefPicsPresentFlag ≠ 0)
          (only (0 < sps.numLongTermRefPicsSps) [.ue sh.numLongTermSps] ++
            [.ue sh.numLongTermPics]) ++
        only (sh.sliceTemporalMvpEnabledFlag ≠ 0) [.u 1 sh.sliceTemporalMvpEnabledFlag]) ++
    only (sps.sampleAdaptiveOffsetEnabledFlag ≠ 0)
      [.u 1 sh.sliceSaoLumaFlag, .u 1 sh.sliceSaoChromaFlag] ++
    refPicList ++
    filterCalls sh pps

/-- The calls of `sliceHeader_rbsp`. It takes a frame with the count 0 for an IDR frame. -/
def sliceHeaderRbsp (ipPeriod : Nat) (sh : SliceHeader) (sps : SeqParamSet) (pps : PicParamSet) :
    Option (List Element) :=
  let nalUnitType := if sh.picOrderCntLsb = 0 then NALU_IDR_W_DLP else NALU_TRAIL_R
  (if sh.dependentSliceSegmentFlag = 0 then sliceCalls ipPeriod nalUnitType sh sps pps
    else some []).map fun slice =>
    [.u 1 sh.firstSliceSegmentInPicFlag] ++
    only (16 ≤ nalUnitType ∧ nalUnitType ≤ 23) [.u 1 sh.noDisplayOfPriorPicsFlag] ++
    [.ue sh.slicePicParameterSetId] ++
    only (sh.firstSliceSegmentInPicFlag = 0)
      (only (sh.dependentSliceSegmentFlag ≠ 0) [.u 1 sh.dependentSliceSegmentFlag] ++
        [.u (ceilLog2 (sh.pictureHeightInCtus * sh.pictureWidthInCtus) % 256)
          sh.sliceSegmentAddress]) ++
    slice ++
    only (pps.tilesEnabledFlag ≠ 0 ∨ pps.entropyCodingSyncEnabledFlag ≠ 0)
      ([.ue sh.numEntryPointOffsets] ++
        only (0 < sh.numEntryPointOffsets) [.ue sh.offsetLenMinus1]) ++
    only (pps.sliceSegmentHeaderExtensionPresentFlag ≠ 0) [.ue 0]

/-- The calls of `build_packed_slice_buffer` up to the trailing bits. -/
def packedSliceCalls (c : Config) (s : Encoder) : Option (List Element) :=
  let naluType := if s.idrPicFlag then NALU_IDR_W_DLP else NALU_TRAIL_R
  (sliceHeaderRbsp c.ip s.ssh s.sps s.pps).map fun header =>
    nalStartCodePrefix NALU_TRAIL_R ++ nalHeader naluType ++ header

def buildPackedSliceBuffer (junk : Nat → Word) (c : Config) (s : Encoder) : Option Bitstream :=
  (packedSliceCalls c s).bind (writeHeader junk)

/-- The values and widths with which an element calls `put_ui`. -/
def putUiCalls : Element → List (Nat × Nat)
  | .u n v => [(v, n)]
  | .ue v => [(0, countBits (v + 1) - 1), (v + 1, countBits (v + 1))]
  | .se v => [(0, countBits (seIndex v + 1) - 1), (seIndex v + 1, countBits (seIndex v + 1))]

/-- Those of `rbsp_trailing_bits` behind `n` bits. -/
def trailingCalls (n : Nat) : List (Nat × Nat) :=
  if (n + 1) % 8 = 0 then [(1, 1)] else [(1, 1), (0, 8 - (n + 1) % 8)]

theorem putElement_eq_calls (bs : Bitstream) {e : Element} (h : Writable e) :
    putElement bs e =
      (putUiCalls e).foldlM (fun bs call => putUi bs (BitVec.ofNat 32 call.1) call.2) bs := by
  cases e with
  | u n v => simp [putUiCalls, putElement]
  | ue v =>
      show putUe bs (BitVec.ofNat 32 v) = _
      rw [putUe_eq h]
      simp [putUiCalls]
  | se v =>
      show putSe bs v = _
      rw [putSe_eq h, putUe_eq (seIndex_lt h)]
      simp [putUiCalls]

end Hprd.Codec.Hevc

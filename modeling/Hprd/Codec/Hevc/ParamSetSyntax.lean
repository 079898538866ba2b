import Hprd.Codec.Hevc.PackedParamSets
import Hprd.Codec.Hevc.SliceSyntax
import Hprd.Core.BitSyntax

/-!
# Reading the parameter sets

A decoder reads the video, sequence and picture parameter sets. What it finds is what
the encoder filled in, up to the trailing bits. The profile of both the video and the
sequence parameter set is that of `protier_param`.
-/

namespace Hprd.Codec.Hevc.Packed

open Hprd.Core BitReader

/-! ### The syntax -/

structure ProfileTierLevel where
  generalProfileSpace : Nat
  generalTierFlag : Nat
  generalProfileIdc : Nat
  generalProfileCompatibilityFlag : List Nat
  generalProgressiveSourceFlag : Nat
  generalInterlacedSourceFlag : Nat
  generalNonPackedConstraintFlag : Nat
  generalFrameOnlyConstraintFlag : Nat
  generalReservedZero43bits : List Nat
  generalReservedZeroBit : Nat
  generalLevelIdc : Nat
deriving DecidableEq, Repr

structure SubLayerOrdering where
  maxDecPicBufferingMinus1 : Nat
  maxNumReorderPics : Nat
  maxLatencyIncreasePlus1 : Nat
deriving DecidableEq, Repr

structure VideoParameterSet where
  vpsVideoParameterSetId : Nat
  vpsBaseLayerInternalFlag : Nat
  vpsBaseLayerAvailableFlag : Nat
  vpsMaxLayersMinus1 : Nat
  vpsMaxSubLayersMinus1 : Nat
  vpsTemporalIdNestingFlag : Nat
  vpsReserved0xffff16bits : Nat
  profileTierLevel : ProfileTierLevel
  vpsSubLayerOrderingInfoPresentFlag : Nat
  subLayerOrdering : List SubLayerOrdering
  vpsMaxLayerId : Nat
  vpsNumLayerSetsMinus1 : Nat
  layerIdIncludedFlag : List (List Nat)
  vpsTimingInfoPresentFlag : Nat
  vpsExtensionFlag : Nat
deriving DecidableEq, Repr

/-- A set whose entries are spelled out, each with its flag. -/
structure StRefPicSet where
  interRefPicSetPredictionFlag : Option Nat
  numNegativePics : Nat
  numPositivePics : Nat
  deltaPocS0 : List (Nat × Nat)
  deltaPocS1 : List (Nat × Nat)
deriving DecidableEq, Repr

structure ConformanceWindow where
  left : Nat
  right : Nat
  top : Nat
  bottom : Nat
deriving DecidableEq, Repr

structure Pcm where
  sampleBitDepthLumaMinus1 : Nat
  sampleBitDepthChromaMinus1 : Nat
  log2MinLumaCodingBlockSizeMinus3 : Nat
  log2DiffMaxMinLumaCodingBlockSize : Nat
  loopFilterDisabledFlag : Nat
deriving DecidableEq, Repr

structure SeqParameterSet where
  spsVideoParameterSetId : Nat
  spsMaxSubLayersMinus1 : Nat
  spsTemporalIdNestingFlag : Nat
  profileTierLevel : ProfileTierLevel
  spsSeqParameterSetId : Nat
  chromaFormatIdc : Nat
  separateColourPlaneFlag : Option Nat
  picWidthInLumaSamples : Nat
  picHeightInLumaSamples : Nat
  conformanceWindowFlag : Nat
  confWin : Option ConformanceWindow
  bitDepthLumaMinus8 : Nat
  bitDepthChromaMinus8 : Nat
  log2MaxPicOrderCntLsbMinus4 : Nat
  spsSubLayerOrderingInfoPresentFlag : Nat
  subLayerOrdering : List SubLayerOrdering
  log2MinLumaCodingBlockSizeMinus3 : Nat
  log2DiffMaxMinLumaCodingBlockSize : Nat
  log2MinLumaTransformBlockSizeMinus2 : Nat
  log2DiffMaxMinLumaTransformBlockSize : Nat
  maxTransformHierarchyDepthInter : Nat
  maxTransformHierarchyDepthIntra : Nat
  scalingListEnabledFlag : Nat
  ampEnabledFlag : Nat
  sampleAdaptiveOffsetEnabledFlag : Nat
  pcmEnabledFlag : Nat
  pcm : Option Pcm
  numShortTermRefPicSets : Nat
  stRefPicSets : List StRefPicSet
  longTermRefPicsPresentFlag : Nat
  ltRefPicsSps : Option (List (Nat × Nat))
  spsTemporalMvpEnabledFlag : Nat
  strongIntraSmoothingEnabledFlag : Nat
  vuiParametersPresentFlag : Nat
  spsExtensionPresentFlag : Nat
deriving DecidableEq, Repr

structure Tiles where
  numTileColumnsMinus1 : Nat
  numTileRowsMinus1 : Nat
  uniformSpacingFlag : Nat
  columnWidthMinus1 : List Nat
  rowHeightMinus1 : List Nat
  loopFilterAcrossTilesEnabledFlag : Nat
deriving DecidableEq, Repr

structure Deblocking where
  overrideEnabledFlag : Nat
  disabledFlag : Nat
  betaOffsetDiv2 : Option Int
  tcOffsetDiv2 : Option Int
deriving DecidableEq, Repr

structure PicParameterSet where
  ppsPicParameterSetId : Nat
  ppsSeqParameterSetId : Nat
  dependentSliceSegmentsEnabledFlag : Nat
  outputFlagPresentFlag : Nat
  numExtraSliceHeaderBits : Nat
  signDataHidingEnabledFlag : Nat
  cabacInitPresentFlag : Nat
  numRefIdxL0DefaultActiveMinus1 : Nat
  numRefIdxL1DefaultActiveMinus1 : Nat
  initQpMinus26 : Int
  constrainedIntraPredFlag : Nat
  transformSkipEnabledFlag : Nat
  cuQpDeltaEnabledFlag : Nat
  diffCuQpDeltaDepth : Option Nat
  ppsCbQpOffset : Int
  ppsCrQpOffset : Int
  ppsSliceChromaQpOffsetsPresentFlag : Nat
  weightedPredFlag : Nat
  weightedBipredFlag : Nat
  transquantBypassEnabledFlag : Nat
  tilesEnabledFlag : Nat
  entropyCodingSyncEnabledFlag : Nat
  tiles : Option Tiles
  ppsLoopFilterAcrossSlicesEnabledFlag : Nat
  deblockingFilterControlPresentFlag : Nat
  deblocking : Option Deblocking
  ppsScalingListDataPresentFlag : Nat
  listsModificationPresentFlag : Nat
  log2ParallelMergeLevelMinus2 : Nat
  sliceSegmentHeaderExtensionPresentFlag : Nat
  ppsExtensionPresentFlag : Nat
deriving DecidableEq, Repr

/-- `profile_tier_level()`. Profiles above the first one and sub-layers are not read. -/
def profileTierLevel (maxNumSubLayersMinus1 : Nat) : BitReader ProfileTierLevel := do
  let space ← u 2
  let tier ← u 1
  let idc ← u 5
  let compatibility ← loop (fun _ => u 1) 0 32
  let progressive ← u 1
  let interlaced ← u 1
  let nonPacked ← u 1
  let frameOnly ← u 1
  check (idc < 2 ∧ ∀ flag ∈ compatibility.drop 2, flag = 0)
  let reserved ← loop (fun _ => u 1) 0 43
  let reservedBit ← u 1
  let level ← u 8
  check (maxNumSubLayersMinus1 = 0)
  pure ⟨space, tier, idc, compatibility, progressive, interlaced, nonPacked, frameOnly, reserved,
    reservedBit, level⟩

/-- The entries of the sub-layers, of all or of the highest one only. -/
def subLayerOrdering (presentFlag maxSubLayersMinus1 : Nat) : BitReader (List SubLayerOrdering) :=
  let first := if presentFlag = 1 then 0 else maxSubLayersMinus1
  loop (fun _ => do
    let buffering ← ue
    let reorder ← ue
    let latency ← ue
    pure ⟨buffering, reorder, latency⟩) first (maxSubLayersMinus1 + 1 - first)

/-- `video_parameter_set_rbsp()`. Timing information and extensions are not read. -/
def videoParameterSet : BitReader VideoParameterSet := do
  let id ← u 4
  let internal ← u 1
  let available ← u 1
  let layers ← u 6
  let subLayers ← u 3
  let nesting ← u 1
  let reserved ← u 16
  let ptl ← profileTierLevel subLayers
  let present ← u 1
  let ordering ← subLayerOrdering present subLayers
  let maxLayerId ← u 6
  let sets ← ue
  let included ← loop (fun _ => loop (fun _ => u 1) 0 (maxLayerId + 1)) 1 sets
  let timing ← u 1
  check (timing = 0)
  let extension ← u 1
  check (extension = 0)
  pure ⟨id, internal, available, layers, subLayers, nesting, reserved, ptl, present, ordering,
    maxLayerId, sets, included, timing, extension⟩

/-- The entries of one side of a reference picture set. -/
def deltaPocs (n : Nat) : BitReader (List (Nat × Nat)) :=
  loop (fun _ => do
    let delta ← ue
    let used ← u 1
    pure (delta, used)) 0 n

/-- `st_ref_pic_set(stRpsIdx)`. A set that is predicted from another one is not read. -/
def stRefPicSet (stRpsIdx : Nat) : BitReader StRefPicSet := do
  let inter ← cond (stRpsIdx ≠ 0) (u 1)
  check (inter ≠ some 1)
  let negative ← ue
  let positive ← ue
  let s0 ← deltaPocs negative
  let s1 ← deltaPocs positive
  pure ⟨inter, negative, positive, s0, s1⟩

def conformanceWindow : BitReader ConformanceWindow := do
  let left ← ue
  let right ← ue
  let top ← ue
  let bottom ← ue
  pure ⟨left, right, top, bottom⟩

def pcmSyntax : BitReader Pcm := do
  let luma ← u 4
  let chroma ← u 4
  let min ← ue
  let diff ← ue
  let filter ← u 1
  pure ⟨luma, chroma, min, diff, filter⟩

/-- The long-term pictures, whose counts have the width of a picture order count. -/
def ltRefPics (width : Nat) : BitReader (List (Nat × Nat)) := do
  let count ← ue
  loop (fun _ => do
    let lsb ← u width
    let used ← u 1
    pure (lsb, used)) 0 count

/-- `seq_parameter_set_rbsp()`. Scaling lists, video usability information and extensions are not
read. -/
def seqParameterSet : BitReader SeqParameterSet := do
  let vpsId ← u 4
  let subLayers ← u 3
  let nesting ← u 1
  let ptl ← profileTierLevel subLayers
  let id ← ue
  let chroma ← ue
  let separate ← cond (chroma = 3) (u 1)
  let width ← ue
  let height ← ue
  let windowFlag ← u 1
  let window ← cond (windowFlag = 1) conformanceWindow
  let luma ← ue
  let chromaDepth ← ue
  let poc ← ue
  let present ← u 1
  let ordering ← subLayerOrdering present subLayers
  let minCoding ← ue
  let diffCoding ← ue
  let minTransform ← ue
  let diffTransform ← ue
  let inter ← ue
  let intra ← ue
  let scaling ← u 1
  check (scaling = 0)
  let amp ← u 1
  let sao ← u 1
  let pcmFlag ← u 1
  let pcm ← cond (pcmFlag = 1) pcmSyntax
  let sets ← ue
  let refPicSets ← loop stRefPicSet 0 sets
  let longTerm ← u 1
  let ltRefPics ← cond (longTerm = 1) (ltRefPics (poc + 4))
  let tmvp ← u 1
  let strong ← u 1
  let vui ← u 1
  check (vui = 0)
  let extension ← u 1
  check (extension = 0)
  pure ⟨vpsId, subLayers, nesting, ptl, id, chroma, separate, width, height, windowFlag, window,
    luma, chromaDepth, poc, present, ordering, minCoding, diffCoding, minTransform, diffTransform,
    inter, intra, scaling, amp, sao, pcmFlag, pcm, sets, refPicSets, longTerm, ltRefPics, tmvp,
    strong, vui, extension⟩

def tileSyntax : BitReader Tiles := do
  let columns ← ue
  let rows ← ue
  let uniform ← u 1
  let widths ← loop (fun _ => ue) 0 (if uniform = 0 then columns else 0)
  let heights ← loop (fun _ => ue) 0 (if uniform = 0 then rows else 0)
  let filter ← u 1
  pure ⟨columns, rows, uniform, widths, heights, filter⟩

def deblockingSyntax : BitReader Deblocking := do
  let override ← u 1
  let disabled ← u 1
  let beta ← cond (disabled = 0) se
  let tc ← cond (disabled = 0) se
  pure ⟨override, disabled, beta, tc⟩

/-- `pic_parameter_set_rbsp()`. Scaling lists and extensions are not read. -/
def picParameterSet : BitReader PicParameterSet := do
  let id ← ue
  let spsId ← ue
  let dependent ← u 1
  let output ← u 1
  let extra ← u 3
  let signHiding ← u 1
  let cabac ← u 1
  let l0 ← ue
  let l1 ← ue
  let qp ← se
  let constrained ← u 1
  let skip ← u 1
  let delta ← u 1
  let depth ← cond (delta = 1) ue
  let cb ← se
  let cr ← se
  let chroma ← u 1
  let weighted ← u 1
  let biweighted ← u 1
  let bypass ← u 1
  let tilesFlag ← u 1
  let sync ← u 1
  let tiles ← cond (tilesFlag = 1) tileSyntax
  let across ← u 1
  let control ← u 1
  let deblocking ← cond (control = 1) deblockingSyntax
  let scaling ← u 1
  check (scaling = 0)
  let lists ← u 1
  let merge ← ue
  let header ← u 1
  let extension ← u 1
  check (extension = 0)
  pure ⟨id, spsId, dependent, output, extra, signHiding, cabac, l0, l1, qp, constrained, skip,
    delta, depth, cb, cr, chroma, weighted, biweighted, bypass, tilesFlag, sync, tiles, across,
    control, deblocking, scaling, lists, merge, header, extension⟩

/-- A NAL unit of the given type behind a start code of 32 bits. -/
def nalUnit {α : Type} (nalUnitType : Nat) (rbsp : BitReader α) : BitReader α := do
  let startCode ← u 32
  let forbidden ← u 1
  let type ← u 6
  let layer ← u 6
  let temporal ← u 3
  check (startCode = 1 ∧ forbidden = 0 ∧ type = nalUnitType ∧ layer = 0 ∧ temporal = 1)
  rbsp

/-! ### What the encoder has for each field -/

def ProfileTierParamSet.fields (ptps : ProfileTierParamSet) : ProfileTierLevel :=
  { generalProfileSpace := ptps.generalProfileSpace
    generalTierFlag := ptps.generalTierFlag
    generalProfileIdc := ptps.generalProfileIdc
    generalProfileCompatibilityFlag := (List.range 32).map ptps.generalProfileCompatibilityFlag
    generalProgressiveSourceFlag := ptps.generalProgressiveSourceFlag
    generalInterlacedSourceFlag := ptps.generalInterlacedSourceFlag
    generalNonPackedConstraintFlag := ptps.generalNonPackedConstraintFlag
    generalFrameOnlyConstraintFlag := ptps.generalFrameOnlyConstraintFlag
    generalReservedZero43bits := (List.range 43).map ptps.generalReservedZero43bits
    generalReservedZeroBit := ptps.generalReservedZeroBit
    generalLevelIdc := ptps.generalLevelIdc }

def VideoParamSet.fields (vps : VideoParamSet) (ptps : ProfileTierParamSet) : VideoParameterSet :=
  { vpsVideoParameterSetId := vps.vpsVideoParameterSetId
    vpsBaseLayerInternalFlag := vps.vpsBaseLayerInternalFlag
    vpsBaseLayerAvailableFlag := vps.vpsBaseLayerAvailableFlag
    vpsMaxLayersMinus1 := vps.vpsMaxLayersMinus1
    vpsMaxSubLayersMinus1 := vps.vpsMaxSubLayersMinus1
    vpsTemporalIdNestingFlag := vps.vpsTemporalIdNestingFlag
    vpsReserved0xffff16bits := vps.vpsReserved0xffff16bits
    profileTierLevel := ptps.fields
    vpsSubLayerOrderingInfoPresentFlag := vps.vpsSubLayerOrderingInfoPresentFlag
    subLayerOrdering :=
      (subLayers vps.vpsSubLayerOrderingInfoPresentFlag vps.vpsMaxSubLayersMinus1).map fun i =>
        ⟨vps.vpsMaxDecPicBufferingMinus1 i, vps.vpsMaxNumReorderPics i,
          vps.vpsMaxLatencyIncreasePlus1 i⟩
    vpsMaxLayerId := vps.vpsMaxLayerId
    vpsNumLayerSetsMinus1 := vps.vpsNumLayerSetsMinus1
    layerIdIncludedFlag := (List.range' 1 vps.vpsNumLayerSetsMinus1).map fun i =>
      (List.range (vps.vpsMaxLayerId + 1)).map (vps.layerIdIncludedFlag i)
    vpsTimingInfoPresentFlag := vps.vpsTimingInfoPresentFlag
    vpsExtensionFlag := vps.vpsExtensionFlag }

/-- The set at an index of its sequence parameter set. -/
def strpFields (strp : ShortTermRefPicParamSet) (stRpsIdx : Nat) : StRefPicSet :=
  { interRefPicSetPredictionFlag :=
      if stRpsIdx ≠ 0 then some strp.interRefPicSetPredictionFlag else none
    numNegativePics := strp.numNegativePics
    numPositivePics := strp.numPositivePics
    deltaPocS0 := (List.range strp.numNegativePics).map fun i =>
      (strp.deltaPocS0Minus1 i, strp.usedByCurrPicS0Flag i)
    deltaPocS1 := (List.range strp.numPositivePics).map fun i =>
      (strp.deltaPocS1Minus1 i, strp.usedByCurrPicS1Flag i) }

def SeqParamSet.fields (sps : SeqParamSet) : SeqParameterSet :=
  { spsVideoParameterSetId := sps.spsVideoParameterSetId
    spsMaxSubLayersMinus1 := sps.spsMaxSubLayersMinus1
    spsTemporalIdNestingFlag := sps.spsTemporalIdNestingFlag
    profileTierLevel := sps.ptps.fields
    spsSeqParameterSetId := sps.spsSeqParameterSetId
    chromaFormatIdc := sps.chromaFormatIdc
    separateColourPlaneFlag :=
      if sps.chromaFormatIdc = 3 then some sps.separateColourPlaneFlag else none
    picWidthInLumaSamples := sps.picWidthInLumaSamples
    picHeightInLumaSamples := sps.picHeightInLumaSamples
    conformanceWindowFlag := sps.conformanceWindowFlag
    confWin :=
      if sps.conformanceWindowFlag = 1 then
        some ⟨sps.confWinLeftOffset, sps.confWinRightOffset, sps.confWinTopOffset,
          sps.confWinBottomOffset⟩
      else none
    bitDepthLumaMinus8 := sps.bitDepthLumaMinus8
    bitDepthChromaMinus8 := sps.bitDepthChromaMinus8
    log2MaxPicOrderCntLsbMinus4 := sps.log2MaxPicOrderCntLsbMinus4
    spsSubLayerOrderingInfoPresentFlag := sps.spsSubLayerOrderingInfoPresentFlag
    subLayerOrdering :=
      (subLayers sps.spsSubLayerOrderingInfoPresentFlag sps.spsMaxSubLayersMinus1).map fun i =>
        ⟨sps.spsMaxDecPicBufferingMinus1 i, sps.spsMaxNumReorderPics i,
          sps.spsMaxLatencyIncreasePlus1 i⟩
    log2MinLumaCodingBlockSizeMinus3 := sps.log2MinLumaCodingBlockSizeMinus3
    log2DiffMaxMinLumaCodingBlockSize := sps.log2DiffMaxMinLumaCodingBlockSize
    log2MinLumaTransformBlockSizeMinus2 := sps.log2MinLumaTransformBlockSizeMinus2
    log2DiffMaxMinLumaTransformBlockSize := sps.log2DiffMaxMinLumaTransformBlockSize
    maxTransformHierarchyDepthInter := sps.maxTransformHierarchyDepthInter
    maxTransformHierarchyDepthIntra := sps.maxTransformHierarchyDepthIntra
    scalingListEnabledFlag := sps.scalingListEnabledFlag
    ampEnabledFlag := sps.ampEnabledFlag
    sampleAdaptiveOffsetEnabledFlag := sps.sampleAdaptiveOffsetEnabledFlag
    pcmEnabledFlag := sps.pcmEnabledFlag
    pcm :=
      if sps.pcmEnabledFlag = 1 then
        some ⟨sps.pcmSampleBitDepthLumaMinus1, sps.pcmSampleBitDepthChromaMinus1,
          sps.log2MinPcmLumaCodingBlockSizeMinus3, sps.log2DiffMaxMinPcmLumaCodingBlockSize,
          sps.pcmLoopFilterDisabledFlag⟩
      else none
    numShortTermRefPicSets := sps.numShortTermRefPicSets
    stRefPicSets := (List.range sps.numShortTermRefPicSets).map fun i => strpFields (sps.strp i) i
    longTermRefPicsPresentFlag := sps.longTermRefPicsPresentFlag
    ltRefPicsSps :=
      if sps.longTermRefPicsPresentFlag = 1 then
        some ((List.range sps.numLongTermRefPicsSps).map fun i =>
          (sps.ltRefPicPocLsbSps i, sps.usedByCurrPicLtSpsFlag i))
      else none
    spsTemporalMvpEnabledFlag := sps.spsTemporalMvpEnabledFlag
    strongIntraSmoothingEnabledFlag := sps.strongIntraSmoothingEnabledFlag
    vuiParametersPresentFlag := sps.vuiParametersPresentFlag
    spsExtensionPresentFlag := sps.spsExtensionPresentFlag }

/-- The tiles. Sizes behind a null pointer are none. -/
def PicParamSet.tiles (pps : PicParamSet) : Tiles :=
  let sizes (count : Nat) (field : Option (Nat → Nat)) : List Nat :=
    if pps.uniformSpacingFlag = 0 then (List.range count).map (field.getD fun _ => 0) else []
  { numTileColumnsMinus1 := pps.numTileColumnsMinus1
    numTileRowsMinus1 := pps.numTileRowsMinus1
    uniformSpacingFlag := pps.uniformSpacingFlag
    columnWidthMinus1 := sizes pps.numTileColumnsMinus1 pps.columnWidthMinus1
    rowHeightMinus1 := sizes pps.numTileRowsMinus1 pps.rowHeightMinus1
    loopFilterAcrossTilesEnabledFlag := pps.loopFilterAcrossTilesEnabledFlag }

def PicParamSet.fields (pps : PicParamSet) : PicParameterSet :=
  { ppsPicParameterSetId := pps.ppsPicParameterSetId
    ppsSeqParameterSetId := pps.ppsSeqParameterSetId
    dependentSliceSegmentsEnabledFlag := pps.dependentSliceSegmentsEnabledFlag
    outputFlagPresentFlag := pps.displayFlagPresentFlag
    numExtraSliceHeaderBits := pps.numExtraSliceHeaderBits
    signDataHidingEnabledFlag := pps.signDataHidingEnabledFlag
    cabacInitPresentFlag := pps.cabacInitPresentFlag
    numRefIdxL0DefaultActiveMinus1 := pps.numRefIdxL0DefaultActiveMinus1
    numRefIdxL1DefaultActiveMinus1 := pps.numRefIdxL1DefaultActiveMinus1
    initQpMinus26 := pps.initQpMinus26
    constrainedIntraPredFlag := pps.constrainedIntraPredFlag
    transformSkipEnabledFlag := pps.transformSkipEnabledFlag
    cuQpDeltaEnabledFlag := pps.cuQpDeltaEnabledFlag
    diffCuQpDeltaDepth := if pps.cuQpDeltaEnabledFlag = 1 then some pps.diffCuQpDeltaDepth else none
    ppsCbQpOffset := toInt32 pps.ppsCbQpOffset
    ppsCrQpOffset := toInt32 pps.ppsCrQpOffset
    ppsSliceChromaQpOffsetsPresentFlag := pps.ppsSliceChromaQpOffsetsPresentFlag
    weightedPredFlag := pps.weightedPredFlag
    weightedBipredFlag := pps.weightedBipredFlag
    transquantBypassEnabledFlag := pps.transquantBypassEnabledFlag
    tilesEnabledFlag := pps.tilesEnabledFlag
    entropyCodingSyncEnabledFlag := pps.entropyCodingSyncEnabledFlag
    tiles := if pps.tilesEnabledFlag = 1 then some pps.tiles else none
    ppsLoopFilterAcrossSlicesEnabledFlag := pps.ppsLoopFilterAcrossSlicesEnabledFlag
    deblockingFilterControlPresentFlag := pps.deblockingFilterControlPresentFlag
    deblocking :=
      if pps.deblockingFilterControlPresentFlag = 1 then
        let offset (v : Int) := if pps.ppsDeblockingFilterDisabledFlag = 0 then some v else none
        some ⟨pps.deblockingFilterOverrideEnabledFlag, pps.ppsDeblockingFilterDisabledFlag,
          offset pps.ppsBetaOffsetDiv2, offset pps.ppsTcOffsetDiv2⟩
      else none
    ppsScalingListDataPresentFlag := pps.ppsScalingListDataPresentFlag
    listsModificationPresentFlag := pps.listsModificationPresentFlag
    log2ParallelMergeLevelMinus2 := pps.log2ParallelMergeLevelMinus2
    sliceSegmentHeaderExtensionPresentFlag := pps.sliceSegmentHeaderExtensionPresentFlag
    ppsExtensionPresentFlag := pps.ppsExtensionPresentFlag }

/-! ### The size of the pictures -/

/-- The samples that a chroma sample covers in a row. -/
def subWidthC (chromaFormatIdc : Nat) : Nat :=
  if chromaFormatIdc = 1 ∨ chromaFormatIdc = 2 then 2 else 1

def subHeightC (chromaFormatIdc : Nat) : Nat := if chromaFormatIdc = 1 then 2 else 1

namespace SeqParameterSet

/-- The width of the pictures inside the conformance window. -/
def outputWidth (sps : SeqParameterSet) : Int :=
  match sps.confWin with
  | none => sps.picWidthInLumaSamples
  | some window =>
      sps.picWidthInLumaSamples - subWidthC sps.chromaFormatIdc * (window.left + window.right)

def outputHeight (sps : SeqParameterSet) : Int :=
  match sps.confWin with
  | none => sps.picHeightInLumaSamples
  | some window =>
      sps.picHeightInLumaSamples - subHeightC sps.chromaFormatIdc * (window.top + window.bottom)

end SeqParameterSet

end Hprd.Codec.Hevc.Packed

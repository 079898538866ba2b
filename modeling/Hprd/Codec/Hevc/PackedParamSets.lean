import Hprd.Codec.Hevc.SliceHeader

/-!
# The packed parameter sets

What the encoder fills into its video, sequence and picture parameter sets and the
calls with which it writes them. The profile that is written stands in a static
variable of its own and not in the sets. A pointer that `memset` clears is `none`.
-/

namespace Hprd.Codec.Hevc.Packed

open Hprd.Core

def MAX_TEMPORAL_SUBLAYERS : Nat := 8

def NALU_VPS : Nat := 0x20
def NALU_SPS : Nat := 0x21
def NALU_PPS : Nat := 0x22

def realHevcProfile : Nat := 0

/-- The static variables that the fill functions read. -/
structure Settings where
  intraPeriod : Int
  ipPeriod : Nat
  initialQp : Int

structure ProfileTierParamSet where
  generalProfileSpace : Nat
  generalTierFlag : Nat
  generalProfileIdc : Nat
  generalProfileCompatibilityFlag : Nat → Nat
  generalProgressiveSourceFlag : Nat
  generalInterlacedSourceFlag : Nat
  generalNonPackedConstraintFlag : Nat
  generalFrameOnlyConstraintFlag : Nat
  generalReservedZero43bits : Nat → Nat
  generalReservedZeroBit : Nat
  generalLevelIdc : Nat
deriving Inhabited

def ProfileTierParamSet.zero : ProfileTierParamSet :=
  { generalProfileSpace := 0, generalTierFlag := 0, generalProfileIdc := 0
    generalProfileCompatibilityFlag := fun _ => 0, generalProgressiveSourceFlag := 0
    generalInterlacedSourceFlag := 0, generalNonPackedConstraintFlag := 0
    generalFrameOnlyConstraintFlag := 0, generalReservedZero43bits := fun _ => 0
    generalReservedZeroBit := 0, generalLevelIdc := 0 }

structure VideoParamSet where
  vpsVideoParameterSetId : Nat
  vpsBaseLayerInternalFlag : Nat
  vpsBaseLayerAvailableFlag : Nat
  vpsMaxLayersMinus1 : Nat
  vpsMaxSubLayersMinus1 : Nat
  vpsTemporalIdNestingFlag : Nat
  vpsReserved0xffff16bits : Nat
  ptps : ProfileTierParamSet
  vpsMaxNuhReservedZeroLayerId : Nat
  vpsNumOpSetsMinus1 : Nat
  vpsSubLayerOrderingInfoPresentFlag : Nat
  vpsMaxDecPicBufferingMinus1 : Nat → Nat
  vpsMaxNumReorderPics : Nat → Nat
  vpsMaxLatencyIncreasePlus1 : Nat → Nat
  vpsMaxLayerId : Nat
  vpsNumLayerSetsMinus1 : Nat
  layerIdIncludedFlag : Nat → Nat → Nat
  vpsTimingInfoPresentFlag : Nat
  vpsNumUnitsInTick : Nat
  vpsTimeScale : Nat
  vpsPocProportionalToTimingFlag : Nat
  vpsNumTicksPocDiffOneMinus1 : Nat
  vpsNumHrdParameters : Nat
  hrdLayerSetIdx : Nat → Nat
  cprmsPresentFlag : Nat → Nat
  vpsExtensionFlag : Nat
deriving Inhabited

deriving instance Inhabited for ShortTermRefPicParamSet, Hevc.SeqParamSet, Hevc.PicParamSet

/-- The fields that only the header of the sequence parameter set has, with those that the slice
header depends on. -/
structure SeqParamSet extends Hevc.SeqParamSet where
  spsVideoParameterSetId : Nat
  spsMaxSubLayersMinus1 : Nat
  spsTemporalIdNestingFlag : Nat
  ptps : ProfileTierParamSet
  spsSeqParameterSetId : Nat
  picWidthInLumaSamples : Nat
  picHeightInLumaSamples : Nat
  conformanceWindowFlag : Nat
  confWinLeftOffset : Nat
  confWinRightOffset : Nat
  confWinTopOffset : Nat
  confWinBottomOffset : Nat
  bitDepthLumaMinus8 : Nat
  bitDepthChromaMinus8 : Nat
  spsSubLayerOrderingInfoPresentFlag : Nat
  spsMaxDecPicBufferingMinus1 : Nat → Nat
  spsMaxNumReorderPics : Nat → Nat
  spsMaxLatencyIncreasePlus1 : Nat → Nat
  log2MinLumaCodingBlockSizeMinus3 : Nat
  log2DiffMaxMinLumaCodingBlockSize : Nat
  log2MinLumaTransformBlockSizeMinus2 : Nat
  log2DiffMaxMinLumaTransformBlockSize : Nat
  maxTransformHierarchyDepthInter : Nat
  maxTransformHierarchyDepthIntra : Nat
  scalingListEnabledFlag : Nat
  spsScalingListDataPresentFlag : Nat
  ampEnabledFlag : Nat
  pcmEnabledFlag : Nat
  pcmSampleBitDepthLumaMinus1 : Nat
  pcmSampleBitDepthChromaMinus1 : Nat
  log2MinPcmLumaCodingBlockSizeMinus3 : Nat
  log2DiffMaxMinPcmLumaCodingBlockSize : Nat
  pcmLoopFilterDisabledFlag : Nat
  ltRefPicPocLsbSps : Nat → Nat
  usedByCurrPicLtSpsFlag : Nat → Nat
  strongIntraSmoothingEnabledFlag : Nat
  vuiParametersPresentFlag : Nat
  spsExtensionPresentFlag : Nat
deriving Inhabited

structure PicParamSet extends Hevc.PicParamSet where
  ppsSeqParameterSetId : Nat
  signDataHidingEnabledFlag : Nat
  initQpMinus26 : Int
  constrainedIntraPredFlag : Nat
  transformSkipEnabledFlag : Nat
  cuQpDeltaEnabledFlag : Nat
  diffCuQpDeltaDepth : Nat
  transquantBypassEnabledFlag : Nat
  numTileColumnsMinus1 : Nat
  numTileRowsMinus1 : Nat
  uniformSpacingFlag : Nat
  columnWidthMinus1 : Option (Nat → Nat)
  rowHeightMinus1 : Option (Nat → Nat)
  loopFilterAcrossTilesEnabledFlag : Nat
  ppsScalingListDataPresentFlag : Nat
  log2ParallelMergeLevelMinus2 : Nat
  ppsExtensionPresentFlag : Nat
  ppsRangeExtensionFlag : Nat
  ppsMultilayerExtensionFlag : Nat
  pps3dExtensionFlag : Nat
  ppsExtension5bits : Nat
  log2MaxTransformSkipBlockSizeMinus2 : Nat
  crossComponentPredictionEnabledFlag : Nat
  diffCuChromaQpOffsetDepth : Nat
  chromaQpOffsetListLenMinus1 : Nat
  cbQpOffsetList : Nat → Nat
  crQpOffsetList : Nat → Nat
  log2SaoOffsetScaleLuma : Nat
  log2SaoOffsetScaleChroma : Nat
deriving Inhabited

/-- The sets and the sizes of the encoder, with the static `protier_param`. -/
structure Data where
  frameWidth : Nat
  frameHeight : Nat
  frameHorStride : Nat
  frameVerStride : Nat
  vps : VideoParamSet
  sps : SeqParamSet
  pps : PicParamSet
  protierParam : ProfileTierParamSet
deriving Inhabited

/-- An encoder in cleared memory with the size of its frames. -/
def Data.init (frameWidth frameHeight : Nat) : Data :=
  { (default : Data) with frameWidth := frameWidth, frameHeight := frameHeight }

/-! ### Filling -/

def fillProfileTierLevel (ptps : ProfileTierParamSet) (profilePresentFlag : Nat) :
    ProfileTierParamSet :=
  if profilePresentFlag = 0 then ptps
  else
    { ProfileTierParamSet.zero with
      generalProfileSpace := 0
      generalTierFlag := 0
      generalProfileIdc := realHevcProfile
      generalProfileCompatibilityFlag := fun i => if i = realHevcProfile then 1 else 0
      generalProgressiveSourceFlag := 1
      generalInterlacedSourceFlag := 0
      generalNonPackedConstraintFlag := 0
      generalFrameOnlyConstraintFlag := 1
      generalLevelIdc := 30 * 4 }

/-- `intra_period == 1 ? 1 : 6`, for every sub-layer. -/
def maxDecPicBufferingMinus1 (q : Settings) : Nat → Nat :=
  fillFirst MAX_TEMPORAL_SUBLAYERS fun _ => if q.intraPeriod = 1 then 1 else 6

def maxNumReorderPics (q : Settings) : Nat → Nat :=
  fillFirst MAX_TEMPORAL_SUBLAYERS fun _ => if q.ipPeriod ≠ 0 then q.ipPeriod - 1 else 0

/-- The profile goes into `protier_param`; `ptps` stays cleared. -/
def fillVpsHeader (q : Settings) (data : Data) : Data :=
  { data with
    vps :=
      { vpsVideoParameterSetId := 0
        vpsBaseLayerInternalFlag := 1
        vpsBaseLayerAvailableFlag := 1
        vpsMaxLayersMinus1 := 0
        vpsMaxSubLayersMinus1 := 0
        vpsTemporalIdNestingFlag := 1
        vpsReserved0xffff16bits := 0xFFFF
        ptps := ProfileTierParamSet.zero
        vpsMaxNuhReservedZeroLayerId := 0
        vpsNumOpSetsMinus1 := 0
        vpsSubLayerOrderingInfoPresentFlag := 0
        vpsMaxDecPicBufferingMinus1 := maxDecPicBufferingMinus1 q
        vpsMaxNumReorderPics := maxNumReorderPics q
        vpsMaxLatencyIncreasePlus1 := fun _ => 0
        vpsMaxLayerId := 0
        vpsNumLayerSetsMinus1 := 0
        layerIdIncludedFlag := fun _ _ => 0
        vpsTimingInfoPresentFlag := 0
        vpsNumUnitsInTick := 0
        vpsTimeScale := 0
        vpsPocProportionalToTimingFlag := 0
        vpsNumTicksPocDiffOneMinus1 := 0
        vpsNumHrdParameters := 0
        hrdLayerSetIdx := fun _ => 0
        cprmsPresentFlag := fun _ => 0
        vpsExtensionFlag := 0 }
    protierParam := fillProfileTierLevel data.protierParam 1 }

def align16 (x : Nat) : Nat := (x + 15) / 16 * 16

def fillSpsHeader (q : Settings) (id : Nat) (data : Data) : Data :=
  let frameHorStride := align16 data.frameWidth
  let frameVerStride := align16 data.frameHeight
  let set := Hevc.fillSpsHeader q.ipPeriod
  let windowed := frameHorStride ≠ data.frameWidth ∨ frameVerStride ≠ data.frameHeight
  let right := frameHorStride - data.frameWidth
  let bottom := frameVerStride - data.frameHeight
  let offsets : Nat × Nat :=
    if set.chromaFormatIdc = 0 ∨ set.chromaFormatIdc = 3 then (right, bottom)
    else if set.chromaFormatIdc = 2 then (right >>> 1, bottom)
    else (right >>> 1, bottom >>> 1)
  { data with
    frameHorStride := frameHorStride
    frameVerStride := frameVerStride
    sps :=
      { set with
        spsVideoParameterSetId := 0
        spsMaxSubLayersMinus1 := 0
        spsTemporalIdNestingFlag := 1
        ptps := fillProfileTierLevel ProfileTierParamSet.zero 1
        spsSeqParameterSetId := id
        picWidthInLumaSamples := frameHorStride
        picHeightInLumaSamples := frameVerStride
        conformanceWindowFlag := if windowed then 1 else 0
        confWinLeftOffset := 0
        confWinRightOffset := if windowed then offsets.1 else 0
        confWinTopOffset := 0
        confWinBottomOffset := if windowed then offsets.2 else 0
        bitDepthLumaMinus8 := 0
        bitDepthChromaMinus8 := 0
        spsSubLayerOrderingInfoPresentFlag := 0
        spsMaxDecPicBufferingMinus1 := maxDecPicBufferingMinus1 q
        spsMaxNumReorderPics := maxNumReorderPics q
        spsMaxLatencyIncreasePlus1 := fun _ => 0
        log2MinLumaCodingBlockSizeMinus3 := 0
        log2DiffMaxMinLumaCodingBlockSize := LCU_SIZE.log2 - (0 + 3)
        log2MinLumaTransformBlockSizeMinus2 := 0
        log2DiffMaxMinLumaTransformBlockSize := 3
        maxTransformHierarchyDepthInter := 2
        maxTransformHierarchyDepthIntra := 2
        scalingListEnabledFlag := 0
        spsScalingListDataPresentFlag := 0
        ampEnabledFlag := 1
        pcmEnabledFlag := 0
        pcmSampleBitDepthLumaMinus1 := 0
        pcmSampleBitDepthChromaMinus1 := 0
        log2MinPcmLumaCodingBlockSizeMinus3 := 0
        log2DiffMaxMinPcmLumaCodingBlockSize := 0
        pcmLoopFilterDisabledFlag := 0
        ltRefPicPocLsbSps := fun _ => 0
        usedByCurrPicLtSpsFlag := fun _ => 0
        strongIntraSmoothingEnabledFlag := 0
        vuiParametersPresentFlag := 0
        spsExtensionPresentFlag := 0 } }

def fillPpsHeader (q : Settings) (ppsId spsId : Nat) (data : Data) : Data :=
  { data with
    pps :=
      { Hevc.fillPpsHeader ppsId with
        ppsSeqParameterSetId := spsId
        signDataHidingEnabledFlag := 0
        initQpMinus26 := q.initialQp - 26
        constrainedIntraPredFlag := 0
        transformSkipEnabledFlag := 0
        cuQpDeltaEnabledFlag := 1
        diffCuQpDeltaDepth := 2
        transquantBypassEnabledFlag := 0
        numTileColumnsMinus1 := 0
        numTileRowsMinus1 := 0
        uniformSpacingFlag := 0
        columnWidthMinus1 := none
        rowHeightMinus1 := none
        loopFilterAcrossTilesEnabledFlag := 0
        ppsScalingListDataPresentFlag := 0
        log2ParallelMergeLevelMinus2 := 0
        ppsExtensionPresentFlag := 0
        ppsRangeExtensionFlag := 0
        ppsMultilayerExtensionFlag := 0
        pps3dExtensionFlag := 0
        ppsExtension5bits := 0
        log2MaxTransformSkipBlockSizeMinus2 := 0
        crossComponentPredictionEnabledFlag := 0
        diffCuChromaQpOffsetDepth := 0
        chromaQpOffsetListLenMinus1 := 0
        cbQpOffsetList := fun _ => 0
        crQpOffsetList := fun _ => 0
        log2SaoOffsetScaleLuma := 0
        log2SaoOffsetScaleChroma := 0 } }

/-- The three calls of `encode_frames`. -/
def fillHeaders (q : Settings) (data : Data) : Data :=
  fillPpsHeader q 0 0 (fillSpsHeader q 0 (fillVpsHeader q data))

/-! ### Writing -/

section

open Element (u ue se)

def protierRbsp (protierParam : ProfileTierParamSet) : List Element :=
  [u 2 protierParam.generalProfileSpace, u 1 protierParam.generalTierFlag,
    u 5 protierParam.generalProfileIdc] ++
  ((List.range 32).map fun i => u 1 (protierParam.generalProfileCompatibilityFlag i)) ++
  [u 1 protierParam.generalProgressiveSourceFlag, u 1 protierParam.generalInterlacedSourceFlag,
    u 1 protierParam.generalNonPackedConstraintFlag,
    u 1 protierParam.generalFrameOnlyConstraintFlag, u 16 0, u 16 0, u 12 0,
    u 8 protierParam.generalLevelIdc]

def packShortTermRefPicSetp (strp : ShortTermRefPicParamSet) (firstStrp : Bool) : List Element :=
  only (firstStrp = false) [u 1 strp.interRefPicSetPredictionFlag] ++
  [ue strp.numNegativePics, ue strp.numPositivePics] ++
  ((List.range strp.numNegativePics).flatMap fun i =>
    [ue (strp.deltaPocS0Minus1 i), u 1 (strp.usedByCurrPicS0Flag i)]) ++
  ((List.range strp.numPositivePics).flatMap fun i =>
    [ue (strp.deltaPocS1Minus1 i), u 1 (strp.usedByCurrPicS1Flag i)])

/-- `for (i = (flag ? 0 : last); i <= last; i++)` -/
def subLayers (flag last : Nat) : List Nat :=
  let first := if flag ≠ 0 then 0 else last
  List.range' first (last + 1 - first)

def vpsRbsp (data : Data) : List Element :=
  [u 4 data.vps.vpsVideoParameterSetId, u 2 3, u 6 0, u 3 data.vps.vpsMaxSubLayersMinus1,
    u 1 data.vps.vpsTemporalIdNestingFlag, u 16 0xFFFF] ++
  protierRbsp data.protierParam ++
  [u 1 data.vps.vpsSubLayerOrderingInfoPresentFlag] ++
  ((subLayers data.vps.vpsSubLayerOrderingInfoPresentFlag data.vps.vpsMaxSubLayersMinus1).flatMap
    fun i =>
      [ue (data.vps.vpsMaxDecPicBufferingMinus1 i), ue (data.vps.vpsMaxNumReorderPics i),
        ue (data.vps.vpsMaxLatencyIncreasePlus1 i)]) ++
  [u 6 data.vps.vpsMaxNuhReservedZeroLayerId, ue data.vps.vpsNumOpSetsMinus1,
    u 1 data.vps.vpsTimingInfoPresentFlag] ++
  only (data.vps.vpsTimingInfoPresentFlag ≠ 0)
    ([ue data.vps.vpsNumUnitsInTick, ue data.vps.vpsTimeScale,
        ue data.vps.vpsPocProportionalToTimingFlag] ++
      only (data.vps.vpsPocProportionalToTimingFlag ≠ 0)
        [ue data.vps.vpsNumTicksPocDiffOneMinus1] ++
      [ue data.vps.vpsNumHrdParameters] ++
      (List.range data.vps.vpsNumHrdParameters).flatMap fun i =>
        [ue (data.vps.hrdLayerSetIdx i)] ++ only (0 < i) [u 1 (data.vps.cprmsPresentFlag i)]) ++
  [u 1 0]

def spsRbsp (data : Data) : List Element :=
  let sps := data.sps
  [u 4 sps.spsVideoParameterSetId, u 3 sps.spsMaxSubLayersMinus1,
    u 1 sps.spsTemporalIdNestingFlag] ++
  protierRbsp data.protierParam ++
  [ue sps.spsSeqParameterSetId, ue sps.chromaFormatIdc] ++
  only (sps.chromaFormatIdc = 3) [u 1 sps.separateColourPlaneFlag] ++
  [ue sps.picWidthInLumaSamples, ue sps.picHeightInLumaSamples,
    u 1 sps.conformanceWindowFlag] ++
  only (sps.conformanceWindowFlag ≠ 0)
    [ue sps.confWinLeftOffset, ue sps.confWinRightOffset, ue sps.confWinTopOffset,
      ue sps.confWinBottomOffset] ++
  [ue sps.bitDepthLumaMinus8, ue sps.bitDepthChromaMinus8, ue sps.log2MaxPicOrderCntLsbMinus4,
    u 1 sps.spsSubLayerOrderingInfoPresentFlag] ++
  ((subLayers sps.spsSubLayerOrderingInfoPresentFlag sps.spsMaxSubLayersMinus1).flatMap fun i =>
    [ue (sps.spsMaxDecPicBufferingMinus1 i), ue (sps.spsMaxNumReorderPics i),
      ue (sps.spsMaxLatencyIncreasePlus1 i)]) ++
  [ue sps.log2MinLumaCodingBlockSizeMinus3, ue sps.log2DiffMaxMinLumaCodingBlockSize,
    ue sps.log2MinLumaTransformBlockSizeMinus2, ue sps.log2DiffMaxMinLumaTransformBlockSize,
    ue sps.maxTransformHierarchyDepthInter, ue sps.maxTransformHierarchyDepthIntra,
    u 1 sps.scalingListEnabledFlag] ++
  only (sps.scalingListEnabledFlag ≠ 0) [u 1 sps.spsScalingListDataPresentFlag] ++
  [u 1 sps.ampEnabledFlag, u 1 sps.sampleAdaptiveOffsetEnabledFlag, u 1 sps.pcmEnabledFlag] ++
  only (sps.pcmEnabledFlag ≠ 0)
    [u 4 sps.pcmSampleBitDepthLumaMinus1, u 4 sps.pcmSampleBitDepthChromaMinus1,
      ue sps.log2MinPcmLumaCodingBlockSizeMinus3, ue sps.log2DiffMaxMinPcmLumaCodingBlockSize,
      u 1 sps.pcmLoopFilterDisabledFlag] ++
  [ue sps.numShortTermRefPicSets] ++
  ((List.range sps.numShortTermRefPicSets).flatMap fun i =>
    packShortTermRefPicSetp (sps.strp i) (i == 0)) ++
  [u 1 sps.longTermRefPicsPresentFlag] ++
  only (sps.longTermRefPicsPresentFlag ≠ 0)
    ([ue sps.numLongTermRefPicsSps] ++
      (List.range sps.numLongTermRefPicsSps).flatMap fun i =>
        [ue (sps.ltRefPicPocLsbSps i), u 1 (sps.usedByCurrPicLtSpsFlag i)]) ++
  [u 1 sps.spsTemporalMvpEnabledFlag, u 1 sps.strongIntraSmoothingEnabledFlag,
    u 1 sps.vuiParametersPresentFlag, u 1 sps.spsExtensionPresentFlag]

/-- The widths of the columns or rows, through a pointer that may be null. -/
def tileSizeCalls (count : Nat) (sizes : Option (Nat → Nat)) : Option (List Element) :=
  if count = 0 then some [] else sizes.map fun size => (List.range count).map fun i => ue (size i)

def tileCalls (pps : PicParamSet) : Option (List Element) :=
  if pps.tilesEnabledFlag = 0 then some []
  else
    (if pps.uniformSpacingFlag = 0 then
      (tileSizeCalls pps.numTileColumnsMinus1 pps.columnWidthMinus1).bind fun columns =>
      (tileSizeCalls pps.numTileRowsMinus1 pps.rowHeightMinus1).map fun rows => columns ++ rows
    else some []).map fun sizes =>
      [ue pps.numTileColumnsMinus1, ue pps.numTileRowsMinus1, u 1 pps.uniformSpacingFlag] ++
        sizes ++ [u 1 pps.loopFilterAcrossTilesEnabledFlag]

def rangeExtensionCalls (pps : PicParamSet) : List Element :=
  only (pps.transformSkipEnabledFlag ≠ 0) [ue pps.log2MaxTransformSkipBlockSizeMinus2] ++
  [u 1 pps.crossComponentPredictionEnabledFlag, u 1 pps.chromaQpOffsetListEnabledFlag] ++
  only (pps.chromaQpOffsetListEnabledFlag ≠ 0)
    ([ue pps.diffCuChromaQpOffsetDepth, ue pps.chromaQpOffsetListLenMinus1] ++
      (List.range (pps.chromaQpOffsetListLenMinus1 + 1)).flatMap fun i =>
        [ue (pps.cbQpOffsetList i), ue (pps.crQpOffsetList i)]) ++
  [ue pps.log2SaoOffsetScaleLuma, ue pps.log2SaoOffsetScaleChroma]

def ppsRbsp (data : Data) : Option (List Element) :=
  let pps := data.pps
  (tileCalls pps).map fun tiles =>
    [ue pps.ppsPicParameterSetId, ue pps.ppsSeqParameterSetId,
      u 1 pps.dependentSliceSegmentsEnabledFlag, u 1 pps.displayFlagPresentFlag,
      u 3 pps.numExtraSliceHeaderBits, u 1 pps.signDataHidingEnabledFlag,
      u 1 pps.cabacInitPresentFlag, ue pps.numRefIdxL0DefaultActiveMinus1,
      ue pps.numRefIdxL1DefaultActiveMinus1, se pps.initQpMinus26,
      u 1 pps.constrainedIntraPredFlag, u 1 pps.transformSkipEnabledFlag,
      u 1 pps.cuQpDeltaEnabledFlag] ++
    only (pps.cuQpDeltaEnabledFlag ≠ 0) [ue pps.diffCuQpDeltaDepth] ++
    [se (toInt32 pps.ppsCbQpOffset), se (toInt32 pps.ppsCrQpOffset),
      u 1 pps.ppsSliceChromaQpOffsetsPresentFlag, u 1 pps.weightedPredFlag,
      u 1 pps.weightedBipredFlag, u 1 pps.transquantBypassEnabledFlag,
      u 1 pps.tilesEnabledFlag, u 1 pps.entropyCodingSyncEnabledFlag] ++
    tiles ++
    [u 1 pps.ppsLoopFilterAcrossSlicesEnabledFlag,
      u 1 pps.deblockingFilterControlPresentFlag] ++
    only (pps.deblockingFilterControlPresentFlag ≠ 0)
      ([u 1 pps.deblockingFilterOverrideEnabledFlag,
          u 1 pps.ppsDeblockingFilterDisabledFlag] ++
        only (pps.ppsDeblockingFilterDisabledFlag = 0)
          [se pps.ppsBetaOffsetDiv2, se pps.ppsTcOffsetDiv2]) ++
    [u 1 pps.ppsScalingListDataPresentFlag, u 1 pps.listsModificationPresentFlag,
      ue pps.log2ParallelMergeLevelMinus2, u 1 pps.sliceSegmentHeaderExtensionPresentFlag,
      u 1 pps.ppsExtensionPresentFlag] ++
    only (pps.ppsExtensionPresentFlag ≠ 0)
      [u 1 pps.ppsRangeExtensionFlag, u 1 pps.ppsMultilayerExtensionFlag,
        u 1 pps.pps3dExtensionFlag, u 1 pps.ppsExtension5bits] ++
    only (pps.ppsRangeExtensionFlag ≠ 0) (rangeExtensionCalls pps)

end

def buildPacked (junk : Nat → Word) (nalUnitType : Nat) (rbsp : List Element) : Option Bitstream :=
  writeHeader junk (nalStartCodePrefix nalUnitType ++ nalHeader nalUnitType ++ rbsp)

def buildPackedVideoBuffer (junk : Nat → Word) (data : Data) : Option Bitstream :=
  buildPacked junk NALU_VPS (vpsRbsp data)

def buildPackedSeqBuffer (junk : Nat → Word) (data : Data) : Option Bitstream :=
  buildPacked junk NALU_SPS (spsRbsp data)

def buildPackedPicBuffer (junk : Nat → Word) (data : Data) : Option Bitstream :=
  (ppsRbsp data).bind (buildPacked junk NALU_PPS)

end Hprd.Codec.Hevc.Packed

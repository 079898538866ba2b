import Hprd.Core.CInt
import Mathlib.Data.Nat.Log

/-!
# Parameter sets and slice headers

What the fill functions put into the sequence and picture parameter sets and into the
header of a slice, as far as the slice header and the reference lists depend on it.
Memory that `memset` clears reads 0.
-/

namespace Hprd.Codec.Hevc

open Hprd.Core

def numActiveRefP : Nat := 1

/-- `ceil(log(n) / log(2.0))`. The quotient of the two logarithms is exact at the powers of two
up to 64. -/
def ceilLog2 (n : Nat) : Nat := Nat.clog 2 n

structure ShortTermRefPicParamSet where
  interRefPicSetPredictionFlag : Nat
  numNegativePics : Nat
  numPositivePics : Nat
  deltaPocS0Minus1 : Nat → Nat
  usedByCurrPicS0Flag : Nat → Nat
  deltaPocS1Minus1 : Nat → Nat
  usedByCurrPicS1Flag : Nat → Nat

/-- What `memset` leaves of a set. -/
def ShortTermRefPicParamSet.zero : ShortTermRefPicParamSet :=
  { interRefPicSetPredictionFlag := 0, numNegativePics := 0, numPositivePics := 0
    deltaPocS0Minus1 := fun _ => 0, usedByCurrPicS0Flag := fun _ => 0
    deltaPocS1Minus1 := fun _ => 0, usedByCurrPicS1Flag := fun _ => 0 }

/-- `for (i = 0; i < n; i++) field[i] = f i`. -/
def fillFirst (n : Nat) (f : Nat → Nat) : Nat → Nat := fun i => if i < n then f i else 0

def fillShortTermRefPicHeader (ipPeriod strpIndex : Nat) : ShortTermRefPicParamSet :=
  let numPositivePics := if 1 < ipPeriod then 1 else 0
  let strp :=
    { ShortTermRefPicParamSet.zero with
      interRefPicSetPredictionFlag := 0
      numNegativePics := numActiveRefP
      numPositivePics := if strpIndex = 0 then 0 else numPositivePics }
  if strpIndex = 0 then
    { strp with
      deltaPocS0Minus1 := fillFirst strp.numNegativePics fun _ => toUInt32 (ipPeriod - 1)
      usedByCurrPicS0Flag := fillFirst strp.numNegativePics fun _ => 1 }
  else
    { strp with
      deltaPocS0Minus1 := fillFirst strp.numNegativePics fun i =>
        if i = 0 then toUInt32 (strpIndex - 1) else toUInt32 (ipPeriod - 1)
      usedByCurrPicS0Flag := fillFirst strp.numNegativePics fun _ => 1
      deltaPocS1Minus1 := fillFirst strp.numPositivePics fun _ =>
        toUInt32 (ipPeriod - 1 - strpIndex)
      usedByCurrPicS1Flag := fillFirst strp.numPositivePics fun _ => 1 }

structure SeqParamSet where
  chromaFormatIdc : Nat
  separateColourPlaneFlag : Nat
  log2MaxPicOrderCntLsbMinus4 : Nat
  sampleAdaptiveOffsetEnabledFlag : Nat
  numShortTermRefPicSets : Nat
  strp : Nat → ShortTermRefPicParamSet
  longTermRefPicsPresentFlag : Nat
  numLongTermRefPicsSps : Nat
  spsTemporalMvpEnabledFlag : Nat

def fillSpsHeader (ipPeriod : Nat) : SeqParamSet :=
  { chromaFormatIdc := 1
    separateColourPlaneFlag := 0
    log2MaxPicOrderCntLsbMinus4 := max (ceilLog2 (ipPeriod - 1 + 4) + 3) 4 - 4
    sampleAdaptiveOffsetEnabledFlag := 1
    numShortTermRefPicSets := ipPeriod
    strp := fun i =>
      if i < min ipPeriod 64 then fillShortTermRefPicHeader ipPeriod i
      else ShortTermRefPicParamSet.zero
    longTermRefPicsPresentFlag := 0
    numLongTermRefPicsSps := 0
    spsTemporalMvpEnabledFlag := 1 }

structure PicParamSet where
  ppsPicParameterSetId : Nat
  dependentSliceSegmentsEnabledFlag : Nat
  displayFlagPresentFlag : Nat
  numExtraSliceHeaderBits : Nat
  cabacInitPresentFlag : Nat
  numRefIdxL0DefaultActiveMinus1 : Nat
  numRefIdxL1DefaultActiveMinus1 : Nat
  ppsCbQpOffset : Nat
  ppsCrQpOffset : Nat
  ppsSliceChromaQpOffsetsPresentFlag : Nat
  weightedPredFlag : Nat
  weightedBipredFlag : Nat
  tilesEnabledFlag : Nat
  entropyCodingSyncEnabledFlag : Nat
  ppsLoopFilterAcrossSlicesEnabledFlag : Nat
  deblockingFilterControlPresentFlag : Nat
  deblockingFilterOverrideEnabledFlag : Nat
  ppsDeblockingFilterDisabledFlag : Nat
  ppsBetaOffsetDiv2 : Int
  ppsTcOffsetDiv2 : Int
  listsModificationPresentFlag : Nat
  sliceSegmentHeaderExtensionPresentFlag : Nat
  chromaQpOffsetListEnabledFlag : Nat

def fillPpsHeader (ppsId : Nat) : PicParamSet :=
  { ppsPicParameterSetId := ppsId
    dependentSliceSegmentsEnabledFlag := 0
    displayFlagPresentFlag := 0
    numExtraSliceHeaderBits := 0
    cabacInitPresentFlag := 1
    numRefIdxL0DefaultActiveMinus1 := 0
    numRefIdxL1DefaultActiveMinus1 := 0
    ppsCbQpOffset := 0
    ppsCrQpOffset := 0
    ppsSliceChromaQpOffsetsPresentFlag := 0
    weightedPredFlag := 0
    weightedBipredFlag := 0
    tilesEnabledFlag := 0
    entropyCodingSyncEnabledFlag := 0
    ppsLoopFilterAcrossSlicesEnabledFlag := 0
    deblockingFilterControlPresentFlag := 1
    deblockingFilterOverrideEnabledFlag := 0
    ppsDeblockingFilterDisabledFlag := 0
    ppsBetaOffsetDiv2 := 2
    ppsTcOffsetDiv2 := 0
    listsModificationPresentFlag := 0
    sliceSegmentHeaderExtensionPresentFlag := 0
    chromaQpOffsetListEnabledFlag := 0 }

def SLICE_B : Nat := 0
def SLICE_P : Nat := 1
def SLICE_I : Nat := 2

/-- The header of a slice. The lists of entries are pointers, null as `none`. -/
structure SliceHeader where
  firstSliceSegmentInPicFlag : Nat
  noDisplayOfPriorPicsFlag : Nat
  slicePicParameterSetId : Nat
  dependentSliceSegmentFlag : Nat
  pictureWidthInCtus : Nat
  pictureHeightInCtus : Nat
  sliceSegmentAddress : Nat
  sliceReservedUndeterminedFlag : Nat → Nat
  sliceType : Nat
  picDisplayFlag : Nat
  colourPlaneId : Nat
  picOrderCntLsb : Nat
  strpNumNegativePics : Nat
  strpNumPositivePics : Nat
  shortTermRefPicSetSpsFlag : Nat
  shortTermRefPicSetIdx : Nat
  numLongTermSps : Nat
  numLongTermPics : Nat
  sliceTemporalMvpEnabledFlag : Nat
  sliceSaoLumaFlag : Nat
  sliceSaoChromaFlag : Nat
  numRefIdxActiveOverrideFlag : Nat
  numRefIdxL0ActiveMinus1 : Nat
  numRefIdxL1ActiveMinus1 : Nat
  numPocTotalCur : Nat
  refPicListModificationFlagL0 : Nat
  refPicListModificationFlagL1 : Nat
  listEntryL0 : Option (Nat → Nat)
  listEntryL1 : Option (Nat → Nat)
  mvdL1ZeroFlag : Nat
  cabacInitPresentFlag : Nat
  collocatedFromL0Flag : Nat
  collocatedRefIdx : Nat
  fiveMinusMaxNumMergeCand : Nat
  sliceQpDelta : Int
  sliceQpDeltaCb : Int
  sliceQpDeltaCr : Int
  deblockingFilterOverrideFlag : Nat
  disableDeblockingFilterFlag : Nat
  betaOffsetDiv2 : Int
  tcOffsetDiv2 : Int
  sliceLoopFilterAcrossSlicesEnabledFlag : Nat
  numEntryPointOffsets : Nat
  offsetLenMinus1 : Nat

def LCU_SIZE : Nat := 32

def p2b : Bool := true

end Hprd.Codec.Hevc

import Hprd.Codec.Hevc.FrameOrder
import Hprd.Codec.Hevc.RefPicList
import Hprd.Codec.Hevc.ParamSets

/-!
# The frame loop of the HEVC encoder

One round of `encode_frames`: the order and type of the frame, its picture order
count, the slice header and the reference lists, and the window of past reference
frames. The libva calls succeed or end the process; they change none of this.
-/

namespace Hprd.Codec.Hevc

open Hprd.Core

structure Config extends Periods where
  ip_le : ip ≤ 64
  frameCount : Nat
  frameCount_lt : frameCount < 2 ^ 32
  frameWidth : Nat
  frameHeight : Nat

def SURFACE_NUM : Nat := 16

def maxPicOrderCntLsb : Nat := 2 <<< 8

def numRefFrames : Nat := 2

/-- The fields of the encoder and the static variables of its file. `refPicList0` and
`refPicList1` are the first entries of the lists of `slice_param`, `none` if they are invalid. -/
structure Encoder where
  currentFrameEncoding : Nat
  currentPktIdx : Nat
  currentIdrDisplay : Nat
  currentFrameType : FrameType
  numShortTerm : Nat
  idrPicFlag : Bool
  currentCurrPic : VAPictureHevc
  referenceFrames : Pictures
  refPicList0P : Pictures
  refPicList0B : Pictures
  refPicList1B : Pictures
  refPicList0 : Option VAPictureHevc
  refPicList1 : Option VAPictureHevc
  picOrderCntMsbRef : Int
  picOrderCntLsbRef : Int
  sps : SeqParamSet
  pps : PicParamSet
  ssh : SliceHeader

/-- The picture order count of a frame, with both static variables as the call leaves them. -/
def calcPoc (frameType : FrameType) (picOrderCntMsbRef picOrderCntLsbRef picOrderCntLsb : Int) :
    Option (Int × Int × Int) :=
  let prevPicOrderCntMsb := if frameType = .idr then 0 else picOrderCntMsbRef
  let prevPicOrderCntLsb := if frameType = .idr then 0 else picOrderCntLsbRef
  let picOrderCntMsb :=
    if picOrderCntLsb < prevPicOrderCntLsb ∧
        (maxPicOrderCntLsb / 2 : Nat) ≤ prevPicOrderCntLsb - picOrderCntLsb then
      wrapInt32 (prevPicOrderCntMsb + maxPicOrderCntLsb)
    else if prevPicOrderCntLsb < picOrderCntLsb ∧
        (maxPicOrderCntLsb / 2 : Nat) < picOrderCntLsb - prevPicOrderCntLsb then
      wrapInt32 (prevPicOrderCntMsb - maxPicOrderCntLsb)
    else prevPicOrderCntMsb
  (int32 (picOrderCntMsb + picOrderCntLsb)).map fun picOrderCnt =>
    if frameType ≠ .b then (picOrderCnt, picOrderCntMsb, picOrderCntLsb)
    else (picOrderCnt, picOrderCntMsbRef, picOrderCntLsbRef)

namespace Encoder

/-- The argument that `calc_poc` is given. -/
def pocLsb (s : Encoder) : Nat :=
  toUInt64 ((s.currentPktIdx : Int) - s.currentIdrDisplay) % maxPicOrderCntLsb

def calcPoc (s : Encoder) : Option (Int × Encoder) :=
  (Hevc.calcPoc s.currentFrameType s.picOrderCntMsbRef s.picOrderCntLsbRef s.pocLsb).map
    fun (poc, msb, lsb) => (poc, { s with picOrderCntMsbRef := msb, picOrderCntLsbRef := lsb })

def startFrame (s : Encoder) (displayingOrder : Nat) (frameType : FrameType) : Encoder :=
  let s := { s with currentPktIdx := displayingOrder, currentFrameType := frameType }
  if frameType = .idr then { s with numShortTerm := 0, currentIdrDisplay := s.currentPktIdx }
  else s

def fillHeaders (c : Config) (s : Encoder) : Encoder :=
  { s with sps := fillSpsHeader c.ip, pps := fillPpsHeader 0 }

/-- `last_picture` divides by the intra period. -/
def renderPicture (c : Config) (s : Encoder) : Option Encoder :=
  (unsignedMod (s.currentFrameEncoding + 1) (toUInt64 c.intra)).bind fun _ =>
  s.calcPoc.bind fun (poc, s) => (int32 (poc * 2)).map fun picOrderCnt =>
    { s with
      currentCurrPic := ⟨s.currentPktIdx % SURFACE_NUM, picOrderCnt⟩
      idrPicFlag := s.currentFrameType = .idr }

def sliceHeader (c : Config) (frameType : FrameType) (pps : PicParamSet)
    (numShortTerm picOrderCntLsb shortTermRefPicSetIdx : Nat) : SliceHeader :=
  let intra := frameType = .i ∨ frameType = .idr
  { firstSliceSegmentInPicFlag := 1
    noDisplayOfPriorPicsFlag := 0
    slicePicParameterSetId := 0
    dependentSliceSegmentFlag := 0
    pictureWidthInCtus := (c.frameWidth + LCU_SIZE - 1) / LCU_SIZE
    pictureHeightInCtus := (c.frameHeight + LCU_SIZE - 1) / LCU_SIZE
    sliceSegmentAddress := 0
    sliceReservedUndeterminedFlag := fun _ => 0
    sliceType :=
      if frameType = .p then if p2b then SLICE_B else SLICE_P
      else if frameType = .b then SLICE_B else SLICE_I
    picDisplayFlag := 1
    colourPlaneId := 0
    picOrderCntLsb := picOrderCntLsb
    strpNumNegativePics := numShortTerm
    strpNumPositivePics := 0
    shortTermRefPicSetSpsFlag := 1
    shortTermRefPicSetIdx := shortTermRefPicSetIdx
    numLongTermSps := 0
    numLongTermPics := 0
    sliceTemporalMvpEnabledFlag := 1
    sliceSaoLumaFlag := 0
    sliceSaoChromaFlag := 0
    numRefIdxActiveOverrideFlag := 0
    numRefIdxL0ActiveMinus1 := pps.numRefIdxL0DefaultActiveMinus1
    numRefIdxL1ActiveMinus1 := pps.numRefIdxL1DefaultActiveMinus1
    numPocTotalCur := if intra then 0 else 2
    refPicListModificationFlagL0 := if intra then 0 else 1
    refPicListModificationFlagL1 := 0
    listEntryL0 := none
    listEntryL1 := none
    mvdL1ZeroFlag := 0
    cabacInitPresentFlag := 0
    collocatedFromL0Flag := 1
    collocatedRefIdx := pps.numRefIdxL0DefaultActiveMinus1
    fiveMinusMaxNumMergeCand := 0
    sliceQpDelta := 0
    sliceQpDeltaCb := pps.ppsCbQpOffset
    sliceQpDeltaCr := pps.ppsCrQpOffset
    deblockingFilterOverrideFlag := 0
    disableDeblockingFilterFlag := 0
    betaOffsetDiv2 := pps.ppsBetaOffsetDiv2
    tcOffsetDiv2 := pps.ppsTcOffsetDiv2
    sliceLoopFilterAcrossSlicesEnabledFlag := 0
    numEntryPointOffsets := 0
    offsetLenMinus1 := 0 }

def fillSliceHeader (c : Config) (s : Encoder) : Option Encoder :=
  s.calcPoc.bind fun (poc, s) =>
  let picOrderCntLsb := toUInt32 poc
  (unsignedMod picOrderCntLsb c.ip).map fun idx =>
    { s with ssh := sliceHeader c s.currentFrameType s.pps s.numShortTerm picOrderCntLsb idx }

def updateRefPicList (s : Encoder) : Option Encoder :=
  let right : Int := s.numShortTerm - 1
  match s.currentFrameType with
  | .p =>
      (sortOne false scanRounds (memcpy s.refPicList0P s.referenceFrames s.numShortTerm) 0
        right).map fun list => { s with refPicList0P := list }
  | .b =>
      let currentPoc := s.currentCurrPic.picOrderCnt
      (sortTwo (memcpy s.refPicList0B s.referenceFrames s.numShortTerm) 0 right currentPoc true
        false true).bind fun list0 =>
      (sortTwo (memcpy s.refPicList1B s.referenceFrames s.numShortTerm) 0 right currentPoc false
        true false).map fun list1 => { s with refPicList0B := list0, refPicList1B := list1 }
  | _ => some s

def renderSlice (s : Encoder) : Option Encoder :=
  s.updateRefPicList.map fun s =>
    match s.currentFrameType with
    | .p =>
        { s with
          refPicList0 := some (s.refPicList0P 0)
          refPicList1 := if p2b then some (s.refPicList0P 0) else none }
    | .b => { s with refPicList0 := some (s.refPicList0B 0), refPicList1 := some (s.refPicList1B 0) }
    | _ => { s with refPicList0 := none, refPicList1 := none }

def updateReferenceFrames (s : Encoder) : Encoder :=
  if s.currentFrameType = .b then s
  else
    let numShortTerm := min (s.numShortTerm + 1) numRefFrames
    { s with
      numShortTerm := numShortTerm
      referenceFrames := fun i =>
        if i = 0 then s.currentCurrPic
        else if i < numShortTerm then s.referenceFrames (i - 1)
        else s.referenceFrames i }

/-- One round of the loop. -/
def encodeFrame (c : Config) (s : Encoder) : Option Encoder :=
  if s.currentFrameEncoding < c.frameCount then
    (c.frame s.currentFrameEncoding).bind fun (displayingOrder, frameType) =>
    (renderPicture c (fillHeaders c (s.startFrame displayingOrder frameType))).bind fun s =>
    (fillSliceHeader c s).bind fun s => s.renderSlice.map fun s =>
      { s.updateReferenceFrames with currentFrameEncoding := s.currentFrameEncoding + 1 }
  else none

def encodeFrames (c : Config) : Nat → Encoder → Option Encoder
  | 0, s => some { s with currentFrameEncoding := 0 }
  | n + 1, s => (encodeFrames c n s).bind (encodeFrame c)

/-- An encoder before its first frame, with 30/60/1 as its periods. -/
def idle : Encoder :=
  { currentFrameEncoding := 0, currentPktIdx := 0, currentIdrDisplay := 0, currentFrameType := .idr
    numShortTerm := 0, idrPicFlag := false, currentCurrPic := ⟨0, 0⟩
    referenceFrames := fun _ => ⟨0, 0⟩, refPicList0P := fun _ => ⟨0, 0⟩
    refPicList0B := fun _ => ⟨0, 0⟩, refPicList1B := fun _ => ⟨0, 0⟩
    refPicList0 := none, refPicList1 := none, picOrderCntMsbRef := 0, picOrderCntLsbRef := 0
    sps := fillSpsHeader 1, pps := fillPpsHeader 0
    ssh := sliceHeader ⟨⟨30, 60, 1, by decide, by decide, by decide, by decide, by decide⟩,
      by decide, 60, by decide, 0, 0⟩ .idr (fillPpsHeader 0) 0 0 0 }

end Encoder

end Hprd.Codec.Hevc

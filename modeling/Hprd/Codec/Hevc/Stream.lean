import Hprd.Codec.Hevc.Playback
import Hprd.Codec.Hevc.ParamSetRead

/-!
# The stream

The packed headers that `encode_frames` hands to the driver, and a decoder that knows
nothing of the encoder but their bits. It refuses a picture when a reference of it is
missing or no place is free. The pictures themselves are what the driver codes behind
each slice header.
-/

namespace Hprd.Codec.Hevc

open Hprd.Core

/-- The header of a NAL unit, and what the data behind it show if it is one of a slice. -/
structure NalUnit where
  header : Bits
  picture : Option Nat

/-! ### The encoder's side -/

def handed (built : Option Bitstream) : Option Bits :=
  built.map fun bs => (bytesBits bs.memory).take bs.bitOffset

/-- What an IDR frame has ahead of it. The buffers come from `calloc` and `realloc`. -/
def packedSets (junk : Nat → Nat → Word) (data : Packed.Data) (frameType : FrameType) :
    Option (List NalUnit) :=
  if frameType = .idr then do
    let vps ← handed (Packed.buildPackedVideoBuffer (junk Packed.NALU_VPS) data)
    let sps ← handed (Packed.buildPackedSeqBuffer (junk Packed.NALU_SPS) data)
    some [⟨vps, none⟩, ⟨sps, none⟩]
  else some []

def packedHeaders (junk : Nat → Nat → Word) (c : Config) (data : Packed.Data) (s : Encoder) :
    Option (List NalUnit) := do
  let sets ← packedSets junk data s.currentFrameType
  let pps ← handed (Packed.buildPackedPicBuffer (junk Packed.NALU_PPS) data)
  let slice ← handed (buildPackedSliceBuffer (junk NALU_TRAIL_R) c s)
  some (sets ++ [⟨pps, none⟩, ⟨slice, some s.currentPktIdx⟩])

def encodeStream (junk : Nat → Nat → Nat → Word) (c : Config) (initialQp : Int) :
    Nat → Encoder × Packed.Data → Option ((Encoder × Packed.Data) × List NalUnit)
  | 0, (s, data) => some (({ s with currentFrameEncoding := 0 }, data), [])
  | n + 1, start => do
      let ((s, data), units) ← encodeStream junk c initialQp n start
      let s ← s.encodeFrame c
      let data := Packed.fillHeaders ⟨c.intra, c.ip, initialQp⟩ data
      let more ← packedHeaders (junk n) c data s
      some ((s, data), units ++ more)

/-! ### The decoder's side -/

section

open BitReader

/-- `nal_unit_type` behind a start code, ahead of which a zero byte may stand. -/
def nalUnitType : BitReader Nat := do
  let startCode ← u 24
  let last ← cond (startCode = 0) (u 8)
  check (startCode = 1 ∨ last = some 1)
  let forbidden ← u 1
  let type ← u 6
  check (forbidden = 0)
  pure type

end

namespace Packed

/-- The running sums of the differences of one side. -/
def deltaSums (sign : Int) : Int → List (Nat × Nat) → List Int
  | _, [] => []
  | sum, (deltaMinus1, _) :: rest =>
      let sum := sum + sign * (deltaMinus1 + 1)
      sum :: deltaSums sign sum rest

/-- The counts of the pictures in the set of a picture. -/
def StRefPicSet.pictures (set : StRefPicSet) (poc : Int) : List Int :=
  (deltaSums (-1) 0 set.deltaPocS0 ++ deltaSums 1 0 set.deltaPocS1).map (poc + ·)

/-- What the slice header depends on. -/
def SeqParameterSet.forSlices (sps : SeqParameterSet) : Hevc.SeqParamSet :=
  { chromaFormatIdc := sps.chromaFormatIdc
    separateColourPlaneFlag := sps.separateColourPlaneFlag.getD 0
    log2MaxPicOrderCntLsbMinus4 := sps.log2MaxPicOrderCntLsbMinus4
    sampleAdaptiveOffsetEnabledFlag := sps.sampleAdaptiveOffsetEnabledFlag
    numShortTermRefPicSets := sps.numShortTermRefPicSets
    strp := fun _ => ShortTermRefPicParamSet.zero
    longTermRefPicsPresentFlag := sps.longTermRefPicsPresentFlag
    numLongTermRefPicsSps := (sps.ltRefPicsSps.getD []).length
    spsTemporalMvpEnabledFlag := sps.spsTemporalMvpEnabledFlag }

def SeqParameterSet.bufferLimits (sps : SeqParameterSet) : BufferLimits :=
  let highest := sps.subLayerOrdering.getLastD ⟨0, 0, 0⟩
  ⟨highest.maxDecPicBufferingMinus1, highest.maxNumReorderPics⟩

def PicParameterSet.forSlices (pps : PicParameterSet) : Hevc.PicParamSet :=
  { ppsPicParameterSetId := pps.ppsPicParameterSetId
    dependentSliceSegmentsEnabledFlag := pps.dependentSliceSegmentsEnabledFlag
    displayFlagPresentFlag := pps.outputFlagPresentFlag
    numExtraSliceHeaderBits := pps.numExtraSliceHeaderBits
    cabacInitPresentFlag := pps.cabacInitPresentFlag
    numRefIdxL0DefaultActiveMinus1 := pps.numRefIdxL0DefaultActiveMinus1
    numRefIdxL1DefaultActiveMinus1 := pps.numRefIdxL1DefaultActiveMinus1
    ppsCbQpOffset := toUInt32 pps.ppsCbQpOffset
    ppsCrQpOffset := toUInt32 pps.ppsCrQpOffset
    ppsSliceChromaQpOffsetsPresentFlag := pps.ppsSliceChromaQpOffsetsPresentFlag
    weightedPredFlag := pps.weightedPredFlag
    weightedBipredFlag := pps.weightedBipredFlag
    tilesEnabledFlag := pps.tilesEnabledFlag
    entropyCodingSyncEnabledFlag := pps.entropyCodingSyncEnabledFlag
    ppsLoopFilterAcrossSlicesEnabledFlag := pps.ppsLoopFilterAcrossSlicesEnabledFlag
    deblockingFilterControlPresentFlag := pps.deblockingFilterControlPresentFlag
    deblockingFilterOverrideEnabledFlag := pps.deblocking.elim 0 (·.overrideEnabledFlag)
    ppsDeblockingFilterDisabledFlag := pps.deblocking.elim 0 (·.disabledFlag)
    ppsBetaOffsetDiv2 := (pps.deblocking.bind (·.betaOffsetDiv2)).getD 0
    ppsTcOffsetDiv2 := (pps.deblocking.bind (·.tcOffsetDiv2)).getD 0
    listsModificationPresentFlag := pps.listsModificationPresentFlag
    sliceSegmentHeaderExtensionPresentFlag := pps.sliceSegmentHeaderExtensionPresentFlag
    chromaQpOffsetListEnabledFlag := 0 }

end Packed

/-- The count of a picture whose low bits are known, next to that of the picture before. -/
def picOrderCnt (width : Nat) (prev : Int) (lsb : Nat) : Int :=
  let maxLsb : Int := 2 ^ width
  let prevLsb := prev % maxLsb
  let prevMsb := prev - prevLsb
  let msb :=
    if lsb < prevLsb ∧ maxLsb / 2 ≤ prevLsb - lsb then prevMsb + maxLsb
    else if prevLsb < lsb ∧ maxLsb / 2 < lsb - prevLsb then prevMsb - maxLsb
    else prevMsb
  msb + lsb

/-- A decoder: the last sets that it has read, the count of the last picture, its pictures. -/
structure Viewer where
  sps : Option Packed.SeqParameterSet
  pps : Option Packed.PicParameterSet
  prevPoc : Int
  pictures : PictureBuffer Nat

namespace Viewer

def start : Viewer := ⟨none, none, 0, .empty⟩

/-- What a slice header says of its picture. -/
def coded (v : Viewer) (sps : Packed.SeqParameterSet) (hdr : SliceSegmentHeader) (frame : Nat) :
    Option (CodedPicture Nat) :=
  if hdr.nalUnitType = NALU_IDR_W_DLP ∨ hdr.nalUnitType = NALU_IDR_N_LP then
    some ⟨true, 0, [], frame⟩
  else do
    let lsb ← hdr.slicePicOrderCntLsb
    let set ← sps.stRefPicSets[hdr.shortTermRefPicSetIdx.getD 0]?
    let poc := picOrderCnt (sps.log2MaxPicOrderCntLsbMinus4 + 4) v.prevPoc lsb
    some ⟨false, poc, set.pictures poc, frame⟩

/-- The pictures that a picture refers to are there, and a place for it. -/
def Accepts (v : Viewer) (limits : BufferLimits) (pic : CodedPicture Nat) : Prop :=
  let room := v.pictures.makeRoom limits pic
  (∀ r ∈ pic.refPicSet, r ∈ room.refs) ∧
    PictureBuffer.fullness room.refs room.waiting ≤ limits.maxDecPicBufferingMinus1

instance (v : Viewer) (limits : BufferLimits) (pic : CodedPicture Nat) :
    Decidable (v.Accepts limits pic) := inferInstanceAs (Decidable (_ ∧ _))

def slice (v : Viewer) (header : Bits) (frame : Nat) : Option Viewer := do
  let sps ← v.sps
  let pps ← v.pps
  let (hdr, _) ← SliceSegmentHeader.readNal sps.forSlices pps.forSlices header
  let pic ← v.coded sps hdr frame
  if v.Accepts sps.bufferLimits pic then
    some { v with prevPoc := pic.poc, pictures := v.pictures.decode sps.bufferLimits pic }
  else none

/-- The next NAL unit, if it is one that the decoder can go on with. -/
def receive (v : Viewer) (nal : NalUnit) : Option Viewer :=
  (nalUnitType nal.header).bind fun (type, _) =>
    if type = Packed.NALU_VPS then
      (Packed.nalUnit type Packed.videoParameterSet nal.header).map fun _ => v
    else if type = Packed.NALU_SPS then
      (Packed.nalUnit type Packed.seqParameterSet nal.header).map fun (sps, _) =>
        { v with sps := some sps }
    else if type = Packed.NALU_PPS then
      (Packed.nalUnit type Packed.picParameterSet nal.header).map fun (pps, _) =>
        { v with pps := some pps }
    else nal.picture.bind (v.slice nal.header)

def receiveAll (v : Viewer) (units : List NalUnit) : Option Viewer := units.foldlM receive v

end Viewer

section

variable {c : Config} {junk : Nat → Word} {q : Packed.Settings} {data : Packed.Data}
variable {s s' s₀ : Encoder} {b : PictureBuffer Nat} {v : Viewer} {n o g : Nat}

/-! ### Values that are too large -/

/-- The low bits of the word that is being filled are the last ones put. -/
theorem Bitstream.testBit_of_written {bs : Bitstream} {front : Bits}
    (hones : bs.written = front ++ [true, true]) (hk : 2 ≤ bs.bitOffset % 32) :
    ∀ i < 2, (bs.buffer (bs.bitOffset / 32)).toNat.testBit i = true := by
  obtain ⟨k, hk⟩ := Nat.exists_eq_add_of_le' hk
  rw [Bitstream.written, hk, bitsOf_add, ← List.append_assoc] at hones
  have hlast := (List.append_inj' hones rfl).2
  simp only [bitsOf, List.cons.injEq, and_true] at hlast
  intro i hi
  interval_cases i
  · exact hlast.2
  · exact hlast.1

/-- A value of two bits too many is lost in the ones ahead of it. -/
theorem putUi_overflow {bs : Bitstream} {v n : Nat} {front : Bits}
    (hones : bs.written = front ++ [true, true]) (hk : 2 ≤ bs.bitOffset % 32)
    (hin : bs.bitOffset % 32 + n < 32) (hv : v < 4 * 2 ^ n) :
    putUi bs (BitVec.ofNat 32 v) n = putUi bs (BitVec.ofNat 32 (v % 2 ^ n)) n := by
  have hbits := Bitstream.testBit_of_written hones hk
  have hword : bs.buffer (bs.bitOffset / 32) <<< n ||| BitVec.ofNat 32 v =
      bs.buffer (bs.bitOffset / 32) <<< n ||| BitVec.ofNat 32 (v % 2 ^ n) := by
    apply BitVec.eq_of_getLsbD_eq
    intro i hi
    simp only [BitVec.getLsbD_or, BitVec.getLsbD_shiftLeft, BitVec.getLsbD_ofNat, hi,
      Nat.testBit_mod_two_pow, decide_true, Bool.true_and]
    by_cases hlow : i < n
    · rw [decide_eq_true hlow, Bool.true_and]
    · rw [decide_eq_false hlow, Bool.false_and, Bool.or_false, Bool.not_false, Bool.true_and]
      by_cases hmid : i - n < 2
      · rw [← BitVec.testBit_toNat, hbits _ hmid, Bool.true_or]
      · have hhigh : v < 2 ^ i := by
          have hpow : 2 ^ (n + 2) ≤ 2 ^ i := Nat.pow_le_pow_right (by decide) (by omega)
          rw [Nat.pow_add] at hpow
          omega
        rw [Nat.testBit_lt_two_pow hhigh, Bool.or_false]
  unfold putUi
  dsimp only
  rw [if_pos (by omega : n < 32 - bs.bitOffset % 32), if_pos (by omega : n < 32 - bs.bitOffset % 32)]
  simp only [Bitstream.load, Bitstream.store]
  split
  · rfl
  · split
    · rfl
    · split
      · simp only [Option.bind_some, hword]
      · rfl

theorem writeHeader_overflow (junk : Nat → Word) {before behind : List Element} {v n : Nat}
    {front : Bits} (hw : ∀ e ∈ before, Writable e) (hlen : (codes before).length ≤ 1000)
    (hones : codes before = front ++ [true, true]) (hk : 2 ≤ (codes before).length % 32)
    (hin : (codes before).length % 32 + n < 32) (hv : v < 4 * 2 ^ n) :
    writeHeader junk (before ++ .u n v :: behind) =
      writeHeader junk (before ++ .u n (v % 2 ^ n) :: behind) := by
  obtain ⟨bs, hput, hwritten, -⟩ := putAll_start junk false hw (show (codes before).length ≤ _ by
    unfold intMax; omega)
  have hput' : before.foldlM putElement (bitstreamStart junk) = some bs := hput
  have hwritten' : bs.written = codes before := hwritten
  have hoff : bs.bitOffset = (codes before).length := by
    rw [← hwritten', Bitstream.written_length]
  rw [← hoff] at hk hin
  have heq := putUi_overflow (hwritten'.trans hones) hk hin hv
  rw [writeHeader, writeHeader, List.foldlM_append, List.foldlM_append, hput']
  simp only [Option.bind_eq_bind, Option.bind_some, List.foldlM_cons]
  rw [show putElement bs (.u n v) = putElement bs (.u n (v % 2 ^ n)) from heq]

/-! ### The parameter sets -/

open BitReader in
theorem nalUnitType_of_nalUnit {α : Type} {r : BitReader α} {nal : Nat} {bits rest : Bits} {a : α}
    (h : Packed.nalUnit nal r bits = some (a, rest)) :
    ∃ behind, nalUnitType bits = some (nal, behind) := by
  obtain ⟨⟨startCode, b₁⟩, h₁, h⟩ := Option.bind_eq_some_iff.mp h
  obtain ⟨⟨forbidden, b₂⟩, h₂, h⟩ := Option.bind_eq_some_iff.mp h
  obtain ⟨⟨type, b₃⟩, h₃, h⟩ := Option.bind_eq_some_iff.mp h
  obtain ⟨⟨layer, b₄⟩, -, h⟩ := Option.bind_eq_some_iff.mp h
  obtain ⟨⟨temporal, b₅⟩, -, h⟩ := Option.bind_eq_some_iff.mp h
  obtain ⟨⟨checked, b₆⟩, h₆, -⟩ := Option.bind_eq_some_iff.mp h
  obtain ⟨rfl, rfl, rfl, -, -⟩ := of_check h₆
  obtain ⟨high, low, mid, hhigh, hlow, hsum⟩ := u_split (m := 24) (n := 8) h₁
  obtain ⟨rfl, rfl⟩ : high = 0 ∧ low = 1 := by omega
  refine ⟨b₃, ?_⟩
  rw [nalUnitType, bind_read hhigh, bind_cond_pos rfl, bind_read hlow, bind_check (.inr rfl),
    bind_read h₂, bind_read h₃, bind_check rfl]
  rfl

theorem handed_of_parses {α : Type} {built : Option Bitstream} {r : BitReader α} {a : α}
    (h : Packed.ParsesAs built r a) :
    ∃ bits rest, handed built = some bits ∧ r bits = some (a, rest) := by
  obtain ⟨bs, k, rfl, -, -, hread⟩ := h
  exact ⟨_, _, rfl, hread⟩

theorem Viewer.receive_vps {built : Option Bitstream} {vps : Packed.VideoParameterSet}
    (h : Packed.ParsesAs built (Packed.nalUnit Packed.NALU_VPS Packed.videoParameterSet) vps) :
    ∃ bits, handed built = some bits ∧ ∀ v : Viewer, v.receive ⟨bits, none⟩ = some v := by
  obtain ⟨bits, rest, hbits, hread⟩ := handed_of_parses h
  obtain ⟨behind, htype⟩ := nalUnitType_of_nalUnit hread
  refine ⟨bits, hbits, fun v => ?_⟩
  rw [Viewer.receive, htype, Option.bind_some]
  dsimp only
  rw [if_pos rfl, hread]
  rfl

theorem Viewer.receive_sps {built : Option Bitstream} {sps : Packed.SeqParameterSet}
    (h : Packed.ParsesAs built (Packed.nalUnit Packed.NALU_SPS Packed.seqParameterSet) sps) :
    ∃ bits, handed built = some bits ∧
      ∀ v : Viewer, v.receive ⟨bits, none⟩ = some { v with sps := some sps } := by
  obtain ⟨bits, rest, hbits, hread⟩ := handed_of_parses h
  obtain ⟨behind, htype⟩ := nalUnitType_of_nalUnit hread
  refine ⟨bits, hbits, fun v => ?_⟩
  rw [Viewer.receive, htype, Option.bind_some]
  dsimp only
  rw [if_neg (by decide), if_pos rfl, hread]
  rfl

theorem Viewer.receive_pps {built : Option Bitstream} {pps : Packed.PicParameterSet}
    (h : Packed.ParsesAs built (Packed.nalUnit Packed.NALU_PPS Packed.picParameterSet) pps) :
    ∃ bits, handed built = some bits ∧
      ∀ v : Viewer, v.receive ⟨bits, none⟩ = some { v with pps := some pps } := by
  obtain ⟨bits, rest, hbits, hread⟩ := handed_of_parses h
  obtain ⟨behind, htype⟩ := nalUnitType_of_nalUnit hread
  refine ⟨bits, hbits, fun v => ?_⟩
  rw [Viewer.receive, htype, Option.bind_some]
  dsimp only
  rw [if_neg (by decide), if_neg (by decide), if_pos rfl, hread]
  rfl

def seqSet (q : Packed.Settings) (width height : Nat) : Packed.SeqParameterSet :=
  (Packed.fillHeaders q (Packed.Data.init width height)).sps.fields

def picSet (q : Packed.Settings) : Packed.PicParameterSet :=
  (Packed.fillHeaders q (Packed.Data.init 0 0)).pps.fields

theorem fields_fillHeaders (q : Packed.Settings) (data : Packed.Data) :
    (Packed.fillHeaders q data).sps.fields = seqSet q data.frameWidth data.frameHeight ∧
      (Packed.fillHeaders q data).pps.fields = picSet q := ⟨rfl, rfl⟩

theorem readNal_forSlices (q : Packed.Settings) (width height : Nat) :
    SliceSegmentHeader.readNal (seqSet q width height).forSlices (picSet q).forSlices =
      SliceSegmentHeader.readNal (fillSpsHeader q.ipPeriod) (fillPpsHeader 0) := rfl

/-! ### The reference picture sets -/

theorem deltaSums_range' {sign : Int} {f : Nat → Nat × Nat} {sums : Nat → Int}
    (hsums : ∀ i, sums (i + 1) = sums i + sign * ((f (i + 1)).1 + 1)) (n : Nat) {i : Nat} {sum : Int}
    (hstart : sums i = sum + sign * ((f i).1 + 1)) :
    Packed.deltaSums sign sum ((List.range' i n).map f) = (List.range' i n).map sums := by
  induction n generalizing i sum with
  | zero => rfl
  | succ n ih =>
      rw [List.range'_succ, List.map_cons, List.map_cons, ← ih (hsums i), hstart]
      rfl

/-- The pictures of a set of which all are used are those of its two sides. -/
theorem pictures_strpFields {strp : ShortTermRefPicParamSet} (k : Nat)
    (hs0 : ∀ i < strp.numNegativePics, strp.usedByCurrPicS0Flag i ≠ 0)
    (hs1 : ∀ i < strp.numPositivePics, strp.usedByCurrPicS1Flag i ≠ 0) (poc : Int) :
    (Packed.strpFields strp k).pictures poc = strp.before poc ++ strp.after poc := by
  have hneg := @deltaSums_range' (-1)
    (fun i => (strp.deltaPocS0Minus1 i, strp.usedByCurrPicS0Flag i)) strp.deltaPocS0
    (fun i => by rw [ShortTermRefPicParamSet.deltaPocS0, Int.neg_one_mul]; rfl)
    strp.numNegativePics 0 0 (by rw [Int.zero_add, Int.neg_one_mul]; rfl)
  have hpos := @deltaSums_range' 1
    (fun i => (strp.deltaPocS1Minus1 i, strp.usedByCurrPicS1Flag i)) strp.deltaPocS1
    (fun i => by rw [ShortTermRefPicParamSet.deltaPocS1, Int.one_mul])
    strp.numPositivePics 0 0 (by rw [Int.zero_add, Int.one_mul]; rfl)
  have hused : ∀ {n : Nat} {used : Nat → Nat}, (∀ i < n, used i ≠ 0) →
      (List.range n).filter (fun i => used i ≠ 0) = List.range n := fun h =>
    List.filter_eq_self.mpr fun i hi => decide_eq_true (h i (List.mem_range.mp hi))
  rw [← List.range_eq_range'] at hneg hpos
  rw [Packed.StRefPicSet.pictures, ShortTermRefPicParamSet.before, ShortTermRefPicParamSet.after,
    hused hs0, hused hs1]
  show ((Packed.deltaSums (-1) 0 ((List.range strp.numNegativePics).map _)) ++
    Packed.deltaSums 1 0 ((List.range strp.numPositivePics).map _)).map (poc + ·) = _
  rw [hneg, hpos, List.map_append, List.map_map, List.map_map]
  rfl

/-- The encoder uses all pictures of its sets. -/
theorem fillShortTermRefPicHeader_used (ip k : Nat) :
    (∀ i < (fillShortTermRefPicHeader ip k).numNegativePics,
        (fillShortTermRefPicHeader ip k).usedByCurrPicS0Flag i ≠ 0) ∧
      ∀ i < (fillShortTermRefPicHeader ip k).numPositivePics,
        (fillShortTermRefPicHeader ip k).usedByCurrPicS1Flag i ≠ 0 := by
  have hfirst : ∀ {n i : Nat}, i < n → fillFirst n (fun _ => 1) i ≠ 0 := fun h => by
    rw [fillFirst, if_pos h]
    exact Nat.one_ne_zero
  unfold fillShortTermRefPicHeader
  by_cases hk : k = 0
  · simp only [if_pos hk]
    exact ⟨fun i => hfirst, fun i h => absurd h (Nat.not_lt_zero i)⟩
  · simp only [if_neg hk]
    exact ⟨fun i => hfirst, fun i => hfirst⟩

theorem stRefPicSets_seqSet (q : Packed.Settings) (width height : Nat) {k : Nat}
    (hk : k < q.ipPeriod) (hip : q.ipPeriod ≤ 64) :
    (seqSet q width height).stRefPicSets[k]? =
      some (Packed.strpFields (fillShortTermRefPicHeader q.ipPeriod k) k) := by
  have hmin : k < min q.ipPeriod 64 := by omega
  have hsets : (seqSet q width height).stRefPicSets = (List.range q.ipPeriod).map fun i =>
      Packed.strpFields ((fillSpsHeader q.ipPeriod).strp i) i := rfl
  rw [hsets, List.getElem?_map, List.getElem?_range hk, Option.map_some]
  show some (Packed.strpFields (if k < min q.ipPeriod 64 then _ else _) k) = _
  rw [if_pos hmin]

/-! ### Counts -/

/-- The low bits tell which of the counts near the last one is meant. -/
theorem picOrderCnt_of_near {width : Nat} {prev poc : Nat} (hup : poc < prev + 2 ^ width / 2)
    (hdown : prev < poc + 2 ^ width / 2) :
    picOrderCnt width prev (poc % 2 ^ width) = poc := by
  have hrange : (2 ^ width : Int) = ((2 ^ width : Nat) : Int) := by push_cast; rfl
  have hpos : 0 < 2 ^ width := Nat.two_pow_pos width
  unfold picOrderCnt
  dsimp only
  rw [hrange, ← Int.natCast_mod]
  generalize 2 ^ width = range at *
  have hprev := Nat.mod_lt prev hpos
  have hpoc := Nat.mod_lt poc hpos
  have hprevMsb := Nat.mod_add_div prev range
  have hpocMsb := Nat.mod_add_div poc range
  generalize prev % range = prevLsb at *
  generalize poc % range = lsb at *
  generalize prev / range = prevMsb at *
  generalize poc / range = msb at *
  have hsplit : ∀ m k, range * (m + k + 1) = range * m + range * k + range := fun m k => by ring
  have hfar : ∀ k, k ≠ 0 → range ≤ range * k := fun k hk =>
    Nat.le_mul_of_pos_right range (Nat.pos_of_ne_zero hk)
  -- the high bits differ by one at most
  have hmsb : range * msb = range * prevMsb ∨ range * msb = range * prevMsb + range ∨
      range * msb + range = range * prevMsb := by
    rcases Nat.lt_trichotomy msb prevMsb with hlt | heq | hgt
    · obtain ⟨k, rfl⟩ := Nat.exists_eq_add_of_lt hlt
      have hk := hfar k
      rw [hsplit] at hprevMsb ⊢
      by_cases h0 : k = 0
      · subst h0
        omega
      · have := hk h0
        omega
    · exact .inl (by rw [heq])
    · obtain ⟨k, rfl⟩ := Nat.exists_eq_add_of_lt hgt
      have hk := hfar k
      rw [hsplit] at hpocMsb ⊢
      by_cases h0 : k = 0
      · subst h0
        omega
      · have := hk h0
        omega
  split
  · omega
  · split
    · omega
    · omega

/-- Frames that follow each other are closer than half the range of the low bits. -/
theorem groupDisplay_near {p : Nat} (hp : 0 < p) (g : Nat) :
    groupDisplay p (g + 1) < groupDisplay p g + 2 ^ picOrderCntLsbWidth p / 2 ∧
      groupDisplay p g < groupDisplay p (g + 1) + 2 ^ picOrderCntLsbWidth p / 2 := by
  have hhalf : p + 2 ≤ 2 ^ picOrderCntLsbWidth p / 2 := by
    have hlog : p - 1 + 4 ≤ 2 ^ ceilLog2 (p - 1 + 4) := Nat.le_pow_clog (by decide) _
    have hwidth : 2 ^ (ceilLog2 (p - 1 + 4) + 3) ≤ 2 ^ picOrderCntLsbWidth p :=
      Nat.pow_le_pow_right (by decide) (Nat.le_max_left ..)
    rw [Nat.pow_add] at hwidth
    omega
  have hfar : groupDisplay p (g + 1) ≤ g + p ∧ g ≤ groupDisplay p (g + 1) := by
    rcases decodedAt_succ hp g with ⟨-, -, -, hdisp⟩ | ⟨-, -, hdisp⟩
    · rw [hdisp]
      omega
    · rw [hdisp]
      omega
  have hhere : groupDisplay p g ≤ g + p - 1 ∧ g ≤ groupDisplay p g + 1 := by
    unfold groupDisplay
    split
    · omega
    · split
      · omega
      · omega
  omega

/-! ### The slice headers -/

theorem handed_slice {nal : Nat} {calls : List Element} {junk : Nat → Word}
    (hbuilt : buildPackedSliceBuffer junk c s =
      writeHeader junk (nalStartCodePrefix NALU_TRAIL_R ++ nalHeader nal ++ calls))
    (hnal : nal < 2 ^ 6) (hw : ∀ e ∈ calls, Writable e) (hlen : calls.length ≤ 15) :
    ∃ rest, handed (buildPackedSliceBuffer junk c s) =
      some (codes (nalStartCodePrefix NALU_TRAIL_R ++ nalHeader nal) ++ (codes calls ++ rest)) := by
  have hhead : ∀ e ∈ nalStartCodePrefix NALU_TRAIL_R ++ nalHeader nal, Writable e := by
    have htype : Writable (.u 6 nal) := ⟨by decide, hnal⟩
    show ∀ e ∈ [Element.u 24 1, .u 1 0, .u 6 nal, .u 6 0, .u 3 1], Writable e
    simp only [List.forall_mem_cons]
    exact ⟨by decide, by decide, htype, by decide, by decide, List.forall_mem_nil _⟩
  have hes := List.forall_mem_append.mpr ⟨hhead, hw⟩
  have hcount : (nalStartCodePrefix NALU_TRAIL_R ++ nalHeader nal ++ calls).length ≤ 1000 := by
    rw [List.length_append]
    show 5 + calls.length ≤ 1000
    omega
  obtain ⟨bs, hput, -, hmem⟩ :=
    @writeHeader_spec junk false _ hes (headerLength_le false hes hcount)
  refine ⟨trailingBits
    (codes (nalStartCodePrefix NALU_TRAIL_R ++ nalHeader nal) ++ codes calls).length, ?_⟩
  rw [handed, hbuilt]
  show (writeHeader junk (withStartCode false _)).map _ = _
  rw [hput, Option.map_some, hmem]
  show some (codes (_ ++ calls) ++ _) = _
  rw [codes_append, List.append_assoc]
  rfl

/-- A count of two bits too many is written by its low bits: ahead of it stand the codes of the
parameter set and of the slice type, which end in ones. -/
theorem writeHeader_codedCalls (junk : Nat → Word) {ip poc : Nat} (hip : ip ≤ 64)
    (hpoc : poc < 4 * 2 ^ picOrderCntLsbWidth ip) (inter : Bool) (idx : Nat) :
    writeHeader junk (nalStartCodePrefix NALU_TRAIL_R ++ nalHeader NALU_TRAIL_R ++
        codedCalls ip inter poc idx) =
      writeHeader junk (nalStartCodePrefix NALU_TRAIL_R ++ nalHeader NALU_TRAIL_R ++
        codedCalls ip inter (poc % 2 ^ picOrderCntLsbWidth ip) idx) := by
  let before : List Element := [.u 24 1, .u 1 0, .u 6 NALU_TRAIL_R, .u 6 0, .u 3 1, .u 1 1, .ue 0,
    .ue (if inter then SLICE_B else SLICE_I)]
  have hwidth := picOrderCntLsbWidth_le hip
  have hlen : (codes before).length = if inter then 43 else 45 := by
    cases inter <;> decide
  have hones : ∃ front, codes before = front ++ [true, true] := by
    refine ⟨(codes before).dropLast.dropLast, ?_⟩
    cases inter <;> decide
  obtain ⟨front, hones⟩ := hones
  have hsmall : (codes before).length ≤ 45 := by
    rw [hlen]
    split <;> decide
  have hbig : 43 ≤ (codes before).length := by
    rw [hlen]
    split <;> decide
  have hwritable : ∀ e ∈ before, Writable e := by
    cases inter <;> decide
  exact @writeHeader_overflow junk before _ _ _ _ hwritable (by omega) hones (by omega) (by omega)
    hpoc

open BitReader in
theorem nalUnitType_slice {nal : Nat} (hnal : nal < 2 ^ 6) (bits : Bits) :
    ∃ behind, nalUnitType (codes (nalStartCodePrefix NALU_TRAIL_R ++ nalHeader nal) ++ bits) =
      some (nal, behind) := by
  show ∃ behind, nalUnitType (codes [.u 24 1, .u 1 0, .u 6 nal, .u 6 0, .u 3 1] ++ bits) =
    some (nal, behind)
  simp only [codes_cons, codes_nil, Element.code, List.append_assoc, List.nil_append, nalUnitType]
  rw [bind_u (by decide), bind_cond_neg (by decide), bind_check (.inl rfl), bind_u (by decide),
    bind_u hnal, bind_check rfl]
  exact ⟨_, rfl⟩

theorem Viewer.receive_slice {nal frame : Nat} {calls : List Element} {rest : Bits}
    {hdr : SliceSegmentHeader} {pic : CodedPicture Nat} {width height : Nat}
    (hnal : nal < 2 ^ 5) (hsps : v.sps = some (seqSet q width height))
    (hpps : v.pps = some (picSet q))
    (hread : SliceSegmentHeader.read nal (fillSpsHeader q.ipPeriod) (fillPpsHeader 0)
      (codes calls ++ rest) = some (hdr, rest))
    (hcoded : v.coded (seqSet q width height) hdr frame = some pic)
    (haccepts : v.Accepts (seqSet q width height).bufferLimits pic) :
    v.receive ⟨codes (nalStartCodePrefix NALU_TRAIL_R ++ nalHeader nal) ++ (codes calls ++ rest),
        some frame⟩ =
      some { v with
        prevPoc := pic.poc
        pictures := v.pictures.decode (seqSet q width height).bufferLimits pic } := by
  have hnal' : nal < 2 ^ 6 := by omega
  obtain ⟨behind, htype⟩ := nalUnitType_slice hnal' (codes calls ++ rest)
  have hvps : nal ≠ Packed.NALU_VPS := by unfold Packed.NALU_VPS; omega
  have hnsps : nal ≠ Packed.NALU_SPS := by unfold Packed.NALU_SPS; omega
  have hnpps : nal ≠ Packed.NALU_PPS := by unfold Packed.NALU_PPS; omega
  rw [Viewer.receive, htype, Option.bind_some]
  dsimp only
  rw [if_neg hvps, if_neg hnsps, if_neg hnpps, Option.bind_some, Viewer.slice, hsps, hpps]
  simp only [Option.bind_eq_bind, Option.bind_some]
  rw [readNal_forSlices, SliceSegmentHeader.readNal_header hnal', hread, Option.bind_some]
  dsimp only
  rw [hcoded, Option.bind_some, if_pos haccepts]

theorem Viewer.coded_of_trail {sps : Packed.SeqParameterSet} {hdr : SliceSegmentHeader}
    {set : Packed.StRefPicSet} {lsb k : Nat} (frame : Nat) (hnal : hdr.nalUnitType = NALU_TRAIL_R)
    (hlsb : hdr.slicePicOrderCntLsb = some lsb)
    (hidx : hdr.shortTermRefPicSetIdx.getD 0 = k) (hset : sps.stRefPicSets[k]? = some set) :
    let poc := picOrderCnt (sps.log2MaxPicOrderCntLsbMinus4 + 4) v.prevPoc lsb
    v.coded sps hdr frame = some ⟨false, poc, set.pictures poc, frame⟩ := by
  rw [Viewer.coded, hnal, if_neg (by decide), hlsb]
  simp only [Option.bind_eq_bind, Option.bind_some]
  rw [hidx, hset, Option.bind_some]

/-- The header of a frame is read as what the frame announces. -/
theorem Encoder.Encoded.sliceRead (h : Encoder.Encoded c o g s) (h1 : c.intra ≠ 1)
    (hfit : groupDisplay c.ip g < 4 * 2 ^ picOrderCntLsbWidth c.ip)
    (hprev : g ≠ 0 → v.prevPoc = groupDisplay c.ip (g - 1)) (initialQp : Int)
    (width height : Nat) :
    ∃ nal calls hdr, (∀ junk, buildPackedSliceBuffer junk c s =
        writeHeader junk (nalStartCodePrefix NALU_TRAIL_R ++ nalHeader nal ++ calls)) ∧
      nal < 2 ^ 5 ∧ (∀ e ∈ calls, Writable e) ∧ calls.length ≤ 15 ∧
      (∀ rest, SliceSegmentHeader.read nal (fillSpsHeader c.ip) (fillPpsHeader 0)
        (codes calls ++ rest) = some (hdr, rest)) ∧
      v.coded (seqSet ⟨c.intra, c.ip, initialQp⟩ width height) hdr s.currentPktIdx =
        some s.announced := by
  have hlen : c.groupLen = c.ip := if_neg h1
  have hsay := h.announced h1
  have hidx := h.pktIdx
  rw [hlen] at hidx
  by_cases h0 : g = 0
  · subst h0
    obtain ⟨n, hssh⟩ := h.ssh_idr
    have hidr : s.idrPicFlag = true := h.idrPicFlag
    refine ⟨NALU_IDR_W_DLP, idrCalls, .idr, fun junk => ?_, by decide, idrCalls_writable, by decide,
      SliceSegmentHeader.read_idr c.ip, ?_⟩
    · rw [buildPackedSliceBuffer, packedSliceCalls, hidr, h.sps, h.pps, hssh, sliceHeaderRbsp_idr]
      rfl
    · rw [hsay, hidx]
      rfl
  · have hpoc := hprev h0
    have hcalls := h.packedSliceCalls_coded h0
    have hmod := Nat.mod_lt (groupDisplay c.ip g) c.ip_pos
    have hlow := Nat.mod_lt (groupDisplay c.ip g) (Nat.two_pow_pos (picOrderCntLsbWidth c.ip))
    have hstrp := h.strp
    rw [hlen] at hcalls hstrp
    generalize decide (s.currentFrameType ≠ .i) = inter at hcalls
    refine ⟨NALU_TRAIL_R, _, _, fun junk => ?_, by decide, codedCalls_writable inter hlow hmod,
      codedCalls_length_le _ _ _, SliceSegmentHeader.read_coded inter hlow hmod, ?_⟩
    · rw [buildPackedSliceBuffer, hcalls]
      exact writeHeader_codedCalls junk c.ip_le hfit inter _
    obtain ⟨k, rfl⟩ : ∃ k, g = k + 1 := Nat.exists_eq_succ_of_ne_zero h0
    obtain ⟨hup, hdown⟩ := groupDisplay_near c.ip_pos k
    have hwidth : (seqSet ⟨c.intra, c.ip, initialQp⟩ width height).log2MaxPicOrderCntLsbMinus4 + 4 =
        picOrderCntLsbWidth c.ip := log2MaxPicOrderCntLsb c.ip
    have hcount : picOrderCnt (picOrderCntLsbWidth c.ip) v.prevPoc
        (groupDisplay c.ip (k + 1) % 2 ^ picOrderCntLsbWidth c.ip) = groupDisplay c.ip (k + 1) := by
      rw [hpoc]
      exact picOrderCnt_of_near hup hdown
    have hindex : (if 1 < c.ip then some (groupDisplay c.ip (k + 1) % c.ip) else none).getD 0 =
        groupDisplay c.ip (k + 1) % c.ip := by
      by_cases hip : 1 < c.ip
      · rw [if_pos hip]
        rfl
      · have hone : c.ip = 1 := by
          have := c.ip_pos
          omega
        rw [if_neg hip, hone, Nat.mod_one]
        rfl
    obtain ⟨hs0, hs1⟩ := fillShortTermRefPicHeader_used c.ip (groupDisplay c.ip (k + 1) % c.ip)
    have hset := stRefPicSets_seqSet ⟨c.intra, c.ip, initialQp⟩ width height hmod c.ip_le
    refine (Viewer.coded_of_trail _ rfl rfl hindex hset).trans ?_
    have hidr : s.idrPicFlag = false := h.idrPicFlag.trans (decide_eq_false h0)
    have hlsb : (s.ssh.picOrderCntLsb : Int) = groupDisplay c.ip (k + 1) :=
      congrArg CodedPicture.poc hsay
    rw [hwidth, hcount, pictures_strpFields _ hs0 hs1, Encoder.announced, hlsb, hidr, hstrp,
      if_neg Bool.false_ne_true]

/-! ### Runs -/

/-- The decoder is where a decoder is that is told everything, after `n` frames. -/
structure Viewer.Follows (c : Config) (initialQp : Int) (n : Nat) (b : PictureBuffer Nat)
    (v : Viewer) : Prop where
  pictures : v.pictures = b
  sps : n ≠ 0 → v.sps = some (seqSet ⟨c.intra, c.ip, initialQp⟩ c.frameWidth c.frameHeight)
  prevPoc : n ≠ 0 → v.prevPoc = groupDisplay c.ip ((n - 1) % c.seqLen)

variable {initialQp : Int} (junks : Nat → Nat → Word)

theorem Viewer.Follows.sets (h : v.Follows c initialQp n b)
    (hw : data.frameWidth = c.frameWidth) (hh : data.frameHeight = c.frameHeight)
    (hwidth : c.frameWidth ≤ 2 ^ 16) (hheight : c.frameHeight ≤ 2 ^ 16) {t : FrameType}
    (ht : n = 0 → t = .idr) :
    ∃ sets, packedSets junks (Packed.fillHeaders ⟨c.intra, c.ip, initialQp⟩ data) t = some sets ∧
      v.receiveAll sets = some { v with
        sps := some (seqSet ⟨c.intra, c.ip, initialQp⟩ c.frameWidth c.frameHeight) } := by
  by_cases hidr : t = .idr
  · obtain ⟨vps, hvps, hreceive⟩ := Viewer.receive_vps (@Packed.buildPackedVideoBuffer_parses
      ⟨c.intra, c.ip, initialQp⟩ data (junks Packed.NALU_VPS) c.ip_le)
    obtain ⟨sps, hsps, hreceive'⟩ := Viewer.receive_sps (@Packed.buildPackedSeqBuffer_parses
      ⟨c.intra, c.ip, initialQp⟩ data (junks Packed.NALU_SPS) c.ip_le
      (hw ▸ hwidth) (hh ▸ hheight))
    rw [(fields_fillHeaders _ data).1, hw, hh] at hreceive'
    refine ⟨[⟨vps, none⟩, ⟨sps, none⟩], ?_, ?_⟩
    · rw [packedSets, if_pos hidr, hvps, hsps]
      rfl
    · rw [Viewer.receiveAll, List.foldlM_cons, hreceive, Option.bind_eq_bind, Option.bind_some,
        List.foldlM_cons, hreceive']
      rfl
  · refine ⟨[], if_neg hidr, ?_⟩
    rw [← h.sps fun h0 => hidr (ht h0)]
    rfl

theorem Viewer.Follows.frame (h : v.Follows c initialQp n b) (h1 : c.intra ≠ 1)
    (hrun : s₀.encodeFramesTo c n = some (s, b)) (hnext : Encoder.encodeFrame c s = some s')
    (hfit : groupDisplay c.ip (n % c.seqLen) < 4 * 2 ^ picOrderCntLsbWidth c.ip)
    (hqp : 0 ≤ initialQp ∧ initialQp ≤ 51)
    (hw : data.frameWidth = c.frameWidth) (hh : data.frameHeight = c.frameHeight)
    (hwidth : c.frameWidth ≤ 2 ^ 16) (hheight : c.frameHeight ≤ 2 ^ 16) :
    ∃ units v', packedHeaders junks c (Packed.fillHeaders ⟨c.intra, c.ip, initialQp⟩ data) s' =
        some units ∧ v.receiveAll units = some v' ∧
      v'.Follows c initialQp (n + 1) (b.decode (bufferLimits c) s'.announced) := by
  have hdist : c.idrDistance = c.seqLen := if_neg h1
  have henc := Encoder.encodeFrame_encoded (Encoder.encodeFrames_ready
    (Encoder.encodeFrames_of_to hrun)) hnext
  rw [hdist] at henc
  have hidr : n = 0 → s'.currentFrameType = .idr := by
    rintro rfl
    rw [henc.frameType, Periods.frameTypeAt_eq_idr_iff, Nat.zero_mod]
  obtain ⟨sets, hsets, hreceive⟩ := h.sets junks hw hh hwidth hheight hidr
  obtain ⟨pps, hpps, hreceive'⟩ := Viewer.receive_pps (@Packed.buildPackedPicBuffer_parses
    ⟨c.intra, c.ip, initialQp⟩ data (junks Packed.NALU_PPS) hqp.1 hqp.2)
  rw [(fields_fillHeaders _ data).2] at hreceive'
  have hprev : n % c.seqLen ≠ 0 → v.prevPoc = groupDisplay c.ip (n % c.seqLen - 1) := by
    intro h0
    have hn : n ≠ 0 := fun hn => h0 (by rw [hn, Nat.zero_mod])
    rw [← pred_mod h0]
    exact h.prevPoc hn
  let v₂ : Viewer := { v with
    sps := some (seqSet ⟨c.intra, c.ip, initialQp⟩ c.frameWidth c.frameHeight)
    pps := some (picSet ⟨c.intra, c.ip, initialQp⟩) }
  obtain ⟨nal, calls, hdr, hbuilt, hnal, hwritable, hlen, hread, hcoded⟩ :=
    henc.sliceRead (v := v₂) h1 hfit hprev initialQp c.frameWidth c.frameHeight
  have haccepts : v₂.Accepts (bufferLimits c) s'.announced := by
    have hheld := (Encoder.encodeFramesTo_held h1 hrun hnext).1
    have hroom := Encoder.encodeFramesTo_room h1 hrun hnext
    rw [← h.pictures] at hheld hroom
    exact ⟨hheld, hroom⟩
  obtain ⟨rest, hslice⟩ := handed_slice (hbuilt (junks NALU_TRAIL_R)) (by omega) hwritable hlen
  have hlast := Viewer.receive_slice (q := ⟨c.intra, c.ip, initialQp⟩) hnal rfl rfl (hread rest)
    hcoded haccepts
  generalize codes (nalStartCodePrefix NALU_TRAIL_R ++ nalHeader nal) ++ (codes calls ++ rest) =
    header at hslice hlast
  refine ⟨sets ++ [⟨pps, none⟩, ⟨header, some s'.currentPktIdx⟩], { v₂ with
    prevPoc := s'.announced.poc
    pictures := v₂.pictures.decode (bufferLimits c) s'.announced }, ?_, ?_, ?_, ?_, ?_⟩
  · rw [packedHeaders, hsets, hpps, hslice]
    rfl
  · rw [Viewer.receiveAll, List.foldlM_append, ← Viewer.receiveAll, hreceive, Option.bind_eq_bind,
      Option.bind_some, List.foldlM_cons, hreceive', Option.bind_eq_bind, Option.bind_some,
      List.foldlM_cons, hlast]
    rfl
  · show v.pictures.decode (bufferLimits c) s'.announced = _
    rw [h.pictures]
  · exact fun _ => rfl
  · intro _
    show s'.announced.poc = _
    rw [henc.announced h1]
    rfl

variable {junk : Nat → Nat → Nat → Word} {data₀ : Packed.Data}

/-- Whatever the encoder does, the stream comes out and the decoder follows it. -/
theorem encodeStream_follows (h : s₀.encodeFrames c n = some s) (h1 : c.intra ≠ 1)
    (hfit : ∀ k < n, groupDisplay c.ip (k % c.seqLen) < 4 * 2 ^ picOrderCntLsbWidth c.ip)
    (hqp : 0 ≤ initialQp ∧ initialQp ≤ 51)
    (hw : data₀.frameWidth = c.frameWidth) (hh : data₀.frameHeight = c.frameHeight)
    (hwidth : c.frameWidth ≤ 2 ^ 16) (hheight : c.frameHeight ≤ 2 ^ 16) :
    ∃ data units b v, encodeStream junk c initialQp n (s₀, data₀) = some ((s, data), units) ∧
      data.frameWidth = c.frameWidth ∧ data.frameHeight = c.frameHeight ∧
      s₀.encodeFramesTo c n = some (s, b) ∧ Viewer.start.receiveAll units = some v ∧
      v.Follows c initialQp n b := by
  induction n generalizing s with
  | zero =>
      cases h
      exact ⟨data₀, [], .empty, .start, rfl, hw, hh, rfl, rfl, rfl, fun h0 => absurd rfl h0,
        fun h0 => absurd rfl h0⟩
  | succ n ih =>
      obtain ⟨s₁, hrun, hnext⟩ := Option.bind_eq_some_iff.mp h
      obtain ⟨data, units, b, v, hstream, hw', hh', hto, hv, hfollows⟩ :=
        ih hrun fun k hk => hfit k (Nat.lt_succ_of_lt hk)
      obtain ⟨more, v', hmore, hreceive, hfollows'⟩ := hfollows.frame (junk n) h1 hto hnext
        (hfit n (Nat.lt_succ_self n)) hqp hw' hh' hwidth hheight
      refine ⟨Packed.fillHeaders ⟨c.intra, c.ip, initialQp⟩ data, units ++ more,
        b.decode (bufferLimits c) s.announced, v', ?_, hw', hh', ?_, ?_, hfollows'⟩
      · rw [encodeStream, hstream, Option.bind_eq_bind, Option.bind_some]
        dsimp only
        rw [hnext, Option.bind_eq_bind, Option.bind_some, hmore]
        rfl
      · rw [Encoder.encodeFramesTo, hto, Option.bind_some]
        dsimp only
        rw [hnext]
        rfl
      · rw [Viewer.receiveAll, List.foldlM_append, ← Viewer.receiveAll, hv]
        exact hreceive

/-- A decoder that is given the bits of the packed headers and nothing else takes the whole stream,
cuts its pictures to the size of the frames, and shows them in the order of their capture. -/
theorem viewed_in_order (c : Config) (h1 : c.intra ≠ 1) (initialQp : Int)
    (hqp : 0 ≤ initialQp ∧ initialQp ≤ 51)
    (hw : c.frameWidth ≤ 2 ^ 16 ∧ c.frameWidth % 2 = 0)
    (hh : c.frameHeight ≤ 2 ^ 16 ∧ c.frameHeight % 2 = 0) (junk : Nat → Nat → Nat → Word) (n : Nat)
    (hfit : ∀ k < n, groupDisplay c.ip (k % c.seqLen) < 4 * 2 ^ picOrderCntLsbWidth c.ip)
    (s₀ s : Encoder) (data₀ : Packed.Data) (hdata : data₀.frameWidth = c.frameWidth ∧
      data₀.frameHeight = c.frameHeight) (h : s₀.encodeFrames c n = some s) :
    ∃ data units v, encodeStream junk c initialQp n (s₀, data₀) = some ((s, data), units) ∧
      Viewer.start.receiveAll units = some v ∧
      (∀ sps ∈ v.sps, sps.outputWidth = c.frameWidth ∧ sps.outputHeight = c.frameHeight) ∧
      (c.Unbroken n → v.pictures.shown = List.range v.pictures.shown.length ∧
        v.pictures.shown.length + v.pictures.waiting.length = n ∧
        v.pictures.waiting.length ≤ c.ip - 1 ∧
        (c.Complete n → v.pictures.shown ++ v.pictures.waiting.map Prod.snd = List.range n)) := by
  obtain ⟨data, units, b, v, hstream, -, -, hto, hv, hfollows⟩ :=
    @encodeStream_follows c s s₀ n initialQp junk data₀ h h1 hfit hqp hdata.1 hdata.2 hw.1 hh.1
  refine ⟨data, units, v, hstream, hv, ?_, fun hn => ?_⟩
  · cases n with
    | zero =>
        cases hstream
        cases hv
        exact fun sps hsps => nomatch hsps
    | succ n =>
        rw [hfollows.sps (Nat.succ_ne_zero n)]
        rintro _ ⟨rfl⟩
        exact @Packed.outputSize_fillHeaders _ (.init c.frameWidth c.frameHeight) hw.2 hh.2
  · rw [hfollows.pictures]
    cases n with
    | zero =>
        cases hto
        exact ⟨rfl, rfl, Nat.zero_le _, fun _ => rfl⟩
    | succ n =>
        obtain ⟨earlier, hplay, hearlier⟩ := Encoder.encodeFramesTo_playing h1 hto
        rw [hearlier hn] at hplay
        exact hplay.inOrder h1 hn

/-- 30/60/1: 40 frames of 1366x768. From frame 32 on the count has a bit more than its field. -/
theorem viewed_in_order_30_60_1 :
    let c : Config := ⟨⟨30, 60, 1, by decide, by decide, by decide, by decide, by decide⟩,
      by decide, 60, by decide, 1366, 768⟩
    ∃ s data units v, encodeStream (fun _ _ _ => 0xffffffff) c 26 40
        (Encoder.idle, .init 1366 768) = some ((s, data), units) ∧
      Viewer.start.receiveAll units = some v ∧
      v.pictures.shown ++ v.pictures.waiting.map Prod.snd = List.range 40 := by
  intro c
  have hrun : (Encoder.idle.encodeFrames c 40).isSome = true := by decide +kernel
  obtain ⟨s, hs⟩ := Option.isSome_iff_exists.mp hrun
  obtain ⟨data, units, v, hstream, hv, -, hshown⟩ := viewed_in_order c (by decide) 26 (by decide)
    (by decide) (by decide) (fun _ _ _ => 0xffffffff) 40 (by decide +kernel) Encoder.idle s
    (.init 1366 768) ⟨rfl, rfl⟩ hs
  obtain ⟨-, -, -, hall⟩ := hshown (.inr (.inr (by decide)))
  exact ⟨s, data, units, v, hstream, hv, hall (.inr (.inr (one_dvd _)))⟩

end

end Hprd.Codec.Hevc

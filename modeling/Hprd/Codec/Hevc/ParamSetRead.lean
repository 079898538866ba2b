import Hprd.Codec.Hevc.ParamSetSyntax

/-!
# The parameter sets read back

Each structure of the syntax takes exactly the calls that wrote it. The three buffers
therefore give their sets back with nothing left before the trailing bits, and the
picture inside the conformance window has the size of the frame.
-/

namespace Hprd.Codec.Hevc.Packed

open Hprd.Core BitReader

open Element (u ue se)

/-! ### Structures of the sets -/

/-- The one profile that the fill functions know. -/
def profile : ProfileTierParamSet := fillProfileTierLevel ProfileTierParamSet.zero 1

theorem profileTierLevel_reads :
    Reads (profileTierLevel 0) (protierRbsp profile) profile.fields := by
  have hflag : ∀ i, profile.generalProfileCompatibilityFlag i < 2 := by
    intro i
    show (if i = realHevcProfile then 1 else 0) < 2
    split <;> decide
  have hcompatible := reads_flags hflag 32
  have hreserved := @reads_flags profile.generalReservedZero43bits (fun _ => Nat.zero_lt_two) 43
  -- the calls for the reserved bits do not end where the flags do
  have hzeros : codes [u 16 0, u 16 0, u 12 0] =
      codes ((List.range 43).map fun i => u 1 (profile.generalReservedZero43bits i)) ++
        codes [u 1 0] := by decide
  have hcodes : codes (protierRbsp profile) =
      codes [u 2 0, u 1 0, u 5 0] ++
      (codes ((List.range 32).map fun i => u 1 (profile.generalProfileCompatibilityFlag i)) ++
      (codes [u 1 1, u 1 0, u 1 0, u 1 1] ++
      (codes ((List.range 43).map fun i => u 1 (profile.generalReservedZero43bits i)) ++
      codes [u 1 0, u 8 120]))) := by
    show codes (_ ++ _ ++ ([u 1 1, u 1 0, u 1 0, u 1 1] ++ [u 16 0, u 16 0, u 12 0] ++
      [u 8 120])) = _
    rw [codes_append, codes_append, codes_append, codes_append, hzeros]
    simp only [codes_cons, codes_nil, List.append_assoc, List.append_nil]
    rfl
  intro rest
  rw [hcodes]
  simp only [codes_cons, codes_nil, Element.code, List.append_assoc, List.nil_append,
    profileTierLevel]
  simp (disch := decide) only [bind_u, bind_check, hcompatible.next, hreserved.next]
  rfl

theorem subLayerOrdering_reads {flag : Nat} (hflag : flag < 2) (last : Nat)
    (buffering reorder latency : Nat → Nat) :
    Reads (subLayerOrdering flag last)
      ((subLayers flag last).flatMap fun i => [ue (buffering i), ue (reorder i), ue (latency i)])
      ((subLayers flag last).map fun i => ⟨buffering i, reorder i, latency i⟩) := by
  have hfirst : (if flag = 1 then 0 else last) = if flag ≠ 0 then 0 else last := by
    split <;> split <;> omega
  unfold subLayerOrdering subLayers
  rw [hfirst]
  apply reads_loop
  intro i _ _ rest
  simp only [codes_cons, codes_nil, Element.code, List.append_assoc, List.nil_append, bind_ue]
  rfl

theorem deltaPocs_reads {used : Nat → Nat} (hused : ∀ i, used i < 2) (delta : Nat → Nat)
    (n : Nat) :
    Reads (deltaPocs n) ((List.range n).flatMap fun i => [ue (delta i), u 1 (used i)])
      ((List.range n).map fun i => (delta i, used i)) := by
  rw [List.range_eq_range']
  apply reads_loop
  intro i _ _ rest
  simp only [codes_cons, codes_nil, Element.code, List.append_assoc, List.nil_append, bind_ue]
  rw [bind_u (hused i)]
  rfl

theorem stRefPicSet_reads {strp : ShortTermRefPicParamSet}
    (hinter : strp.interRefPicSetPredictionFlag = 0)
    (h0 : ∀ i, strp.usedByCurrPicS0Flag i < 2) (h1 : ∀ i, strp.usedByCurrPicS1Flag i < 2)
    (i : Nat) :
    Reads (stRefPicSet i) (packShortTermRefPicSetp strp (i == 0)) (strpFields strp i) := by
  have hs0 := deltaPocs_reads h0 strp.deltaPocS0Minus1 strp.numNegativePics
  have hs1 := deltaPocs_reads h1 strp.deltaPocS1Minus1 strp.numPositivePics
  intro rest
  by_cases hi : i = 0
  · rw [packShortTermRefPicSetp, only_neg (by simp [hi])]
    simp only [codes_append, codes_cons, codes_nil, Element.code, List.append_assoc,
      List.nil_append, stRefPicSet]
    rw [bind_cond_neg (not_not.mpr hi), bind_check (by decide), bind_ue, bind_ue, hs0.next,
      hs1.next, strpFields, if_neg (not_not.mpr hi)]
    rfl
  · rw [packShortTermRefPicSetp, only_pos (by simp [hi]), hinter]
    simp only [codes_append, codes_cons, codes_nil, Element.code, List.append_assoc,
      List.nil_append, stRefPicSet]
    rw [bind_cond_pos hi, bind_u (by decide), bind_check (by decide), bind_ue, bind_ue, hs0.next,
      hs1.next, strpFields, if_pos hi, hinter]
    rfl

theorem fillFirst_lt {n : Nat} {f : Nat → Nat} {b : Nat} (hb : 0 < b) (h : ∀ i, f i < b)
    (i : Nat) : fillFirst n f i < b := by
  unfold fillFirst
  split
  · exact h i
  · exact hb

/-- A set that was filled in spells its pictures out with flags. -/
theorem fillShortTermRefPicHeader_flags (ip i : Nat) :
    (fillShortTermRefPicHeader ip i).interRefPicSetPredictionFlag = 0 ∧
      (∀ k, (fillShortTermRefPicHeader ip i).usedByCurrPicS0Flag k < 2) ∧
      ∀ k, (fillShortTermRefPicHeader ip i).usedByCurrPicS1Flag k < 2 := by
  have hone : ∀ n k, fillFirst n (fun _ => 1) k < 2 :=
    fun n => fillFirst_lt (by decide) fun _ => by decide
  by_cases hi : i = 0
  · simp only [fillShortTermRefPicHeader, if_pos hi]
    exact ⟨trivial, hone _, fun _ => Nat.zero_lt_two⟩
  · simp only [fillShortTermRefPicHeader, if_neg hi]
    exact ⟨trivial, hone _, hone _⟩

theorem refPicSets_reads (ip n : Nat) :
    Reads (loop stRefPicSet 0 n)
      ((List.range n).flatMap fun i =>
        packShortTermRefPicSetp ((Hevc.fillSpsHeader ip).strp i) (i == 0))
      ((List.range n).map fun i => strpFields ((Hevc.fillSpsHeader ip).strp i) i) := by
  rw [List.range_eq_range']
  apply reads_loop
  intro i _ _
  have hset : (Hevc.fillSpsHeader ip).strp i =
      if i < min ip 64 then fillShortTermRefPicHeader ip i else ShortTermRefPicParamSet.zero := rfl
  rw [hset]
  split
  · obtain ⟨hinter, h0, h1⟩ := fillShortTermRefPicHeader_flags ip i
    exact stRefPicSet_reads hinter h0 h1 i
  · exact stRefPicSet_reads rfl (fun _ => Nat.zero_lt_two) (fun _ => Nat.zero_lt_two) i

/-! ### The three sets -/

variable {q : Settings} {data : Data}

def orderingCalls (q : Settings) : List Element :=
  (subLayers 0 0).flatMap fun i =>
    [ue (maxDecPicBufferingMinus1 q i), ue (maxNumReorderPics q i), ue 0]

theorem orderingCalls_reads : Reads (subLayerOrdering 0 0) (orderingCalls q)
    [⟨maxDecPicBufferingMinus1 q 0, maxNumReorderPics q 0, 0⟩] :=
  subLayerOrdering_reads (by decide) 0 (maxDecPicBufferingMinus1 q) (maxNumReorderPics q) fun _ => 0

def vpsCalls (q : Settings) : List Element :=
  [u 4 0, u 2 3, u 6 0, u 3 0, u 1 1, u 16 0xFFFF] ++ protierRbsp profile ++ [u 1 0] ++
    orderingCalls q ++ [u 6 0, ue 0, u 1 0, u 1 0]

theorem vpsRbsp_fillHeaders : vpsRbsp (fillHeaders q data) = vpsCalls q := rfl

theorem videoParameterSet_reads :
    Reads videoParameterSet (vpsCalls q)
      ((fillHeaders q data).vps.fields (fillHeaders q data).protierParam) := by
  -- the two flags of the base layer are put as one reserved field
  have hbase : bitsOf 2 3 = bitsOf 1 1 ++ bitsOf 1 1 := rfl
  intro rest
  simp only [vpsCalls, codes_append, codes_cons, codes_nil, Element.code, hbase,
    List.append_assoc, List.nil_append, videoParameterSet]
  simp (disch := decide) only [bind_u, bind_ue, profileTierLevel_reads.next,
    orderingCalls_reads.next]
  rfl

def windowFlag (data : Data) : Nat :=
  if align16 data.frameWidth ≠ data.frameWidth ∨ align16 data.frameHeight ≠ data.frameHeight then 1
  else 0

def windowRight (data : Data) : Nat :=
  if align16 data.frameWidth ≠ data.frameWidth ∨ align16 data.frameHeight ≠ data.frameHeight then
    (align16 data.frameWidth - data.frameWidth) >>> 1
  else 0

def windowBottom (data : Data) : Nat :=
  if align16 data.frameWidth ≠ data.frameWidth ∨ align16 data.frameHeight ≠ data.frameHeight then
    (align16 data.frameHeight - data.frameHeight) >>> 1
  else 0

def spsCalls (q : Settings) (data : Data) : List Element :=
  let set := Hevc.fillSpsHeader q.ipPeriod
  [u 4 0, u 3 0, u 1 1] ++ protierRbsp profile ++ [ue 0, ue 1] ++ only (1 = 3) [u 1 0] ++
    [ue (align16 data.frameWidth), ue (align16 data.frameHeight), u 1 (windowFlag data)] ++
    only (windowFlag data ≠ 0) [ue 0, ue (windowRight data), ue 0, ue (windowBottom data)] ++
    [ue 0, ue 0, ue set.log2MaxPicOrderCntLsbMinus4, u 1 0] ++ orderingCalls q ++
    [ue 0, ue (LCU_SIZE.log2 - (0 + 3)), ue 0, ue 3, ue 2, ue 2, u 1 0] ++ only (0 ≠ 0) [u 1 0] ++
    [u 1 1, u 1 1, u 1 0] ++ only (0 ≠ 0) [u 4 0, u 4 0, ue 0, ue 0, u 1 0] ++ [ue q.ipPeriod] ++
    ((List.range q.ipPeriod).flatMap fun i => packShortTermRefPicSetp (set.strp i) (i == 0)) ++
    [u 1 0] ++ only (0 ≠ 0) ([ue 0] ++ (List.range 0).flatMap fun _ => [ue 0, u 1 0]) ++
    [u 1 1, u 1 0, u 1 0, u 1 0]

theorem spsRbsp_fillHeaders : spsRbsp (fillHeaders q data) = spsCalls q data := rfl

theorem windowFlag_lt (data : Data) : windowFlag data < 2 := by
  unfold windowFlag
  split <;> decide

theorem conformanceWindow_reads {flag : Nat} (hflag : flag < 2) (left right top bottom : Nat) :
    Reads (cond (flag = 1) conformanceWindow)
      (only (flag ≠ 0) [ue left, ue right, ue top, ue bottom])
      (if flag = 1 then some ⟨left, right, top, bottom⟩ else none) := by
  have hone : only (flag ≠ 0) [ue left, ue right, ue top, ue bottom] =
      if flag = 1 then [ue left, ue right, ue top, ue bottom] else [] := by
    unfold only
    split <;> split <;> first | rfl | omega
  rw [hone]
  apply reads_cond
  intro rest
  simp only [codes_cons, codes_nil, Element.code, List.append_assoc, List.nil_append,
    conformanceWindow, bind_ue]
  rfl

theorem seqParameterSet_reads :
    Reads seqParameterSet (spsCalls q data) (fillHeaders q data).sps.fields := by
  have hflag : windowFlag data < 2 ^ 1 := windowFlag_lt data
  have hwindow := conformanceWindow_reads hflag 0 (windowRight data) 0 (windowBottom data)
  have hsets := refPicSets_reads q.ipPeriod q.ipPeriod
  intro rest
  simp (disch := decide) only [spsCalls, only_neg, codes_append, codes_cons, codes_nil,
    Element.code, List.append_assoc, List.nil_append, seqParameterSet]
  simp (disch := first | decide | assumption) only [bind_u, bind_ue, bind_check, bind_cond_neg,
    profileTierLevel_reads.next, hwindow.next, orderingCalls_reads.next, hsets.next]
  rfl

def ppsCalls (q : Settings) : List Element :=
  [ue 0, ue 0, u 1 0, u 1 0, u 3 0, u 1 0, u 1 1, ue 0, ue 0, se (q.initialQp - 26), u 1 0, u 1 0,
    u 1 1] ++ only (1 ≠ 0) [ue 2] ++
    [se 0, se 0, u 1 0, u 1 0, u 1 0, u 1 0, u 1 0, u 1 0] ++ [u 1 0, u 1 1] ++
    only (1 ≠ 0) ([u 1 0, u 1 0] ++ only (0 = 0) [se 2, se 0]) ++
    [u 1 0, u 1 0, ue 0, u 1 0, u 1 0] ++ only (0 ≠ 0) [u 1 0, u 1 0, u 1 0, u 1 0]

theorem chromaQpOffsets_fillHeaders :
    toInt32 (fillHeaders q data).pps.ppsCbQpOffset = 0 ∧
      toInt32 (fillHeaders q data).pps.ppsCrQpOffset = 0 := by
  have hzero : toInt32 0 = 0 := by decide
  exact ⟨hzero, hzero⟩

theorem ppsRbsp_fillHeaders : ppsRbsp (fillHeaders q data) = some (ppsCalls q) := by
  have htiles : tileCalls (fillHeaders q data).pps = some [] := rfl
  have hrange : only ((fillHeaders q data).pps.ppsRangeExtensionFlag ≠ 0)
      (rangeExtensionCalls (fillHeaders q data).pps) = [] := rfl
  rw [ppsRbsp]
  simp only [htiles, hrange, Option.map_some, List.append_nil, chromaQpOffsets_fillHeaders]
  rfl

theorem picParameterSet_reads :
    Reads picParameterSet (ppsCalls q) (fillHeaders q data).pps.fields := by
  intro rest
  simp (disch := decide) only [ppsCalls, only_pos, only_neg, codes_append, codes_cons, codes_nil,
    Element.code, List.append_assoc, List.nil_append, picParameterSet]
  simp (disch := decide) only [bind_u, bind_ue, bind_se, bind_check, bind_cond_pos,
    bind_cond_neg, deblockingSyntax, bind_assoc, pure_bind]
  rw [PicParamSet.fields, chromaQpOffsets_fillHeaders.1, chromaQpOffsets_fillHeaders.2]
  rfl

/-! ### The calls are written -/

theorem only_writable {c : Prop} [Decidable c] {es : List Element}
    (h : ∀ e ∈ es, Writable e) : ∀ e ∈ only c es, Writable e := by
  unfold only
  split
  · exact h
  · exact List.forall_mem_nil _

theorem profile_writable : ∀ e ∈ protierRbsp profile, Writable e := by decide

theorem orderingCalls_writable (hip : q.ipPeriod ≤ 64) :
    ∀ e ∈ orderingCalls q, Writable e := by
  have hbuffering : maxDecPicBufferingMinus1 q 0 < 2 ^ 31 - 1 := by
    apply fillFirst_lt (by decide)
    intro _
    split <;> decide
  have hreorder : maxNumReorderPics q 0 < 2 ^ 31 - 1 := by
    apply fillFirst_lt (by decide)
    intro _
    split <;> omega
  show ∀ e ∈ [ue (maxDecPicBufferingMinus1 q 0), ue (maxNumReorderPics q 0), ue 0], Writable e
  simp only [List.forall_mem_cons]
  exact ⟨hbuffering, hreorder, by decide, List.forall_mem_nil _⟩

theorem deltaCalls_writable {delta used : Nat → Nat} (hdelta : ∀ i, delta i < 2 ^ 31 - 1)
    (hused : ∀ i, used i < 2) (n : Nat) :
    ∀ e ∈ (List.range n).flatMap fun i => [ue (delta i), u 1 (used i)], Writable e := by
  intro e he
  obtain ⟨i, -, he⟩ := List.mem_flatMap.mp he
  have hpair : ∀ e ∈ [ue (delta i), u 1 (used i)], Writable e := by
    simp only [List.forall_mem_cons]
    exact ⟨hdelta i, ⟨by decide, hused i⟩, List.forall_mem_nil _⟩
  exact hpair e he

theorem toUInt32_lt_64 {v : Int} (h0 : 0 ≤ v) (h : v < 64) : toUInt32 v < 2 ^ 31 - 1 := by
  unfold toUInt32
  omega

theorem fillShortTermRefPicHeader_deltas {ip i : Nat} (hip : ip ≤ 64) (hi : i < ip) :
    (∀ k, (fillShortTermRefPicHeader ip i).deltaPocS0Minus1 k < 2 ^ 31 - 1) ∧
      ∀ k, (fillShortTermRefPicHeader ip i).deltaPocS1Minus1 k < 2 ^ 31 - 1 := by
  have hwhole := @toUInt32_lt_64 ((ip : Int) - 1) (by omega) (by omega)
  by_cases h0 : i = 0
  · simp only [fillShortTermRefPicHeader, if_pos h0]
    exact ⟨fillFirst_lt (by decide) fun _ => hwhole, fun _ => (by decide : 0 < 2 ^ 31 - 1)⟩
  · have hpast := @toUInt32_lt_64 ((i : Int) - 1) (by omega) (by omega)
    have hfuture := @toUInt32_lt_64 ((ip : Int) - 1 - i) (by omega) (by omega)
    simp only [fillShortTermRefPicHeader, if_neg h0]
    refine ⟨fillFirst_lt (by decide) fun k => ?_, fillFirst_lt (by decide) fun _ => hfuture⟩
    split
    · exact hpast
    · exact hwhole

theorem fillShortTermRefPicHeader_counts (ip i : Nat) :
    (fillShortTermRefPicHeader ip i).numNegativePics = 1 ∧
      (fillShortTermRefPicHeader ip i).numPositivePics ≤ 1 := by
  by_cases h0 : i = 0
  · simp only [fillShortTermRefPicHeader, if_pos h0]
    exact ⟨rfl, Nat.zero_le 1⟩
  · simp only [fillShortTermRefPicHeader, if_neg h0]
    refine ⟨rfl, ?_⟩
    split <;> decide

theorem fillShortTermRefPicHeader_calls {ip i : Nat} (hip : ip ≤ 64) (hi : i < ip) :
    (∀ e ∈ packShortTermRefPicSetp (fillShortTermRefPicHeader ip i) (i == 0), Writable e) ∧
      (packShortTermRefPicSetp (fillShortTermRefPicHeader ip i) (i == 0)).length ≤ 7 := by
  obtain ⟨hinter, hused0, hused1⟩ := fillShortTermRefPicHeader_flags ip i
  obtain ⟨hdelta0, hdelta1⟩ := fillShortTermRefPicHeader_deltas hip hi
  obtain ⟨hnegative, hpositive⟩ := fillShortTermRefPicHeader_counts ip i
  generalize fillShortTermRefPicHeader ip i = strp at *
  rw [packShortTermRefPicSetp, hinter, hnegative]
  constructor
  · simp only [List.forall_mem_append, List.forall_mem_cons]
    refine ⟨⟨⟨only_writable (by decide), by decide, ?_, List.forall_mem_nil _⟩,
      deltaCalls_writable hdelta0 hused0 1⟩, deltaCalls_writable hdelta1 hused1 _⟩
    show strp.numPositivePics < 2 ^ 31 - 1
    omega
  · have hhead : (only ((i == 0) = false) [u 1 0]).length ≤ 1 := by
      unfold only
      split <;> decide
    simp only [List.length_append, List.length_flatMap, List.length_cons, List.length_nil,
      List.map_const', List.sum_replicate, List.length_range, smul_eq_mul]
    omega

theorem refPicSets_calls {ip : Nat} (hip : ip ≤ 64) :
    let calls := (List.range ip).flatMap fun i =>
      packShortTermRefPicSetp ((Hevc.fillSpsHeader ip).strp i) (i == 0)
    (∀ e ∈ calls, Writable e) ∧ calls.length ≤ 448 := by
  intro calls
  have hcalls : ∀ i < ip,
      (∀ e ∈ packShortTermRefPicSetp ((Hevc.fillSpsHeader ip).strp i) (i == 0), Writable e) ∧
      (packShortTermRefPicSetp ((Hevc.fillSpsHeader ip).strp i) (i == 0)).length ≤ 7 := by
    intro i hi
    have hset : (Hevc.fillSpsHeader ip).strp i = fillShortTermRefPicHeader ip i := by
      show (if i < min ip 64 then fillShortTermRefPicHeader ip i else _) = _
      exact if_pos (by omega)
    rw [hset]
    exact fillShortTermRefPicHeader_calls hip hi
  constructor
  · intro e he
    obtain ⟨i, hi, he⟩ := List.mem_flatMap.mp he
    exact (hcalls i (List.mem_range.mp hi)).1 e he
  · have hsum : calls.length ≤ ip * 7 := by
      have hle := List.sum_le_card_nsmul ((List.range ip).map fun i =>
        (packShortTermRefPicSetp ((Hevc.fillSpsHeader ip).strp i) (i == 0)).length) 7
      rw [List.length_map, List.length_range, smul_eq_mul] at hle
      rw [List.length_flatMap]
      apply hle
      intro n hn
      obtain ⟨i, hi, rfl⟩ := List.mem_map.mp hn
      exact (hcalls i (List.mem_range.mp hi)).2
    omega

theorem vpsCalls_writable (hip : q.ipPeriod ≤ 64) : ∀ e ∈ vpsCalls q, Writable e := by
  simp only [vpsCalls, List.forall_mem_append]
  exact ⟨⟨⟨⟨by decide, profile_writable⟩, by decide⟩, orderingCalls_writable hip⟩, by decide⟩

theorem align16_le {x : Nat} (h : x ≤ 2 ^ 16) : align16 x ≤ 2 ^ 16 := by
  unfold align16
  omega

theorem windowCalls_writable (hw : data.frameWidth ≤ 2 ^ 16) (hh : data.frameHeight ≤ 2 ^ 16) :
    ∀ e ∈ [ue 0, ue (windowRight data), ue 0, ue (windowBottom data)], Writable e := by
  have hwidth := align16_le hw
  have hheight := align16_le hh
  have hright : windowRight data < 2 ^ 31 - 1 := by
    unfold windowRight
    split
    · rw [Nat.shiftRight_one]
      omega
    · decide
  have hbottom : windowBottom data < 2 ^ 31 - 1 := by
    unfold windowBottom
    split
    · rw [Nat.shiftRight_one]
      omega
    · decide
  simp only [List.forall_mem_cons]
  exact ⟨by decide, hright, by decide, hbottom, List.forall_mem_nil _⟩

theorem spsCalls_writable (hip : q.ipPeriod ≤ 64) (hw : data.frameWidth ≤ 2 ^ 16)
    (hh : data.frameHeight ≤ 2 ^ 16) : ∀ e ∈ spsCalls q data, Writable e := by
  have hsize : ∀ x ≤ 2 ^ 16, Writable (ue (align16 x)) := by
    intro x hx
    have hle := align16_le hx
    show align16 x < 2 ^ 31 - 1
    omega
  have hsizes : ∀ e ∈ [ue (align16 data.frameWidth), ue (align16 data.frameHeight),
      u 1 (windowFlag data)], Writable e := by
    have hflag : Writable (u 1 (windowFlag data)) := ⟨by decide, windowFlag_lt data⟩
    simp only [List.forall_mem_cons]
    exact ⟨hsize _ hw, hsize _ hh, hflag, List.forall_mem_nil _⟩
  have hcounts : ∀ e ∈ [ue 0, ue 0,
      ue (Hevc.fillSpsHeader q.ipPeriod).log2MaxPicOrderCntLsbMinus4, u 1 0], Writable e := by
    have hwidth := picOrderCntLsbWidth_le hip
    have hlog := log2MaxPicOrderCntLsb q.ipPeriod
    have hcount : Writable (ue (Hevc.fillSpsHeader q.ipPeriod).log2MaxPicOrderCntLsbMinus4) := by
      show (Hevc.fillSpsHeader q.ipPeriod).log2MaxPicOrderCntLsbMinus4 < 2 ^ 31 - 1
      omega
    simp only [List.forall_mem_cons]
    exact ⟨by decide, by decide, hcount, by decide, List.forall_mem_nil _⟩
  have hperiod : ∀ e ∈ [ue q.ipPeriod], Writable e := by
    rw [List.forall_mem_singleton]
    show q.ipPeriod < 2 ^ 31 - 1
    omega
  simp only [spsCalls, List.append_assoc, List.forall_mem_append]
  exact ⟨by decide, profile_writable, by decide, by decide, hsizes,
    only_writable (windowCalls_writable hw hh), hcounts, orderingCalls_writable hip, by decide,
    by decide, by decide, by decide, hperiod, (refPicSets_calls hip).1, by decide, by decide,
    by decide⟩

theorem spsCalls_length_le (hip : q.ipPeriod ≤ 64) : (spsCalls q data).length ≤ 600 := by
  have hsets := (refPicSets_calls hip).2
  have hprofile : (protierRbsp profile).length = 43 := rfl
  have hordering : (orderingCalls q).length = 3 := rfl
  have hwindow : (only (windowFlag data ≠ 0)
      [ue 0, ue (windowRight data), ue 0, ue (windowBottom data)]).length ≤ 4 := by
    unfold only
    split
    · exact Nat.le_refl 4
    · exact Nat.zero_le 4
  simp (disch := decide) only [spsCalls, only_neg, List.length_append, hprofile, hordering,
    List.length_cons, List.length_nil]
  omega

theorem ppsCalls_writable (h0 : 0 ≤ q.initialQp) (h1 : q.initialQp ≤ 51) :
    ∀ e ∈ ppsCalls q, Writable e := by
  have hhead : ∀ e ∈ [ue 0, ue 0, u 1 0, u 1 0, u 3 0, u 1 0, u 1 1, ue 0, ue 0,
      se (q.initialQp - 26), u 1 0, u 1 0, u 1 1], Writable e := by
    have hqp : Writable (se (q.initialQp - 26)) := by
      show (q.initialQp - 26).natAbs < 2 ^ 30
      omega
    simp only [List.forall_mem_cons]
    exact ⟨by decide, by decide, by decide, by decide, by decide, by decide, by decide, by decide,
      by decide, hqp, by decide, by decide, by decide, List.forall_mem_nil _⟩
  simp only [ppsCalls, List.append_assoc, List.forall_mem_append]
  exact ⟨hhead, by decide, by decide, by decide, by decide, by decide, by decide⟩

/-! ### The buffers -/

/-- A buffer of whole bytes is read up to its trailing bits. -/
def ParsesAs {α : Type} (built : Option Bitstream) (r : BitReader α) (a : α) : Prop :=
  ∃ bs k, built = some bs ∧ bs.bitOffset % 8 = 0 ∧ k < 8 ∧
    r ((bytesBits bs.memory).take bs.bitOffset) = some (a, true :: List.replicate k false)

theorem nalUnit_reads {α : Type} {nal : Nat} {rbsp : List Element} {r : BitReader α} {a : α}
    (hnal : nal < 2 ^ 6) (hread : Reads r rbsp a) :
    Reads (nalUnit nal r) (withStartCode true (nalHeader nal ++ rbsp)) a := by
  intro rest
  show nalUnit nal r (codes ([u 32 1, u 1 0, u 6 nal, u 6 0, u 3 1] ++ rbsp) ++ rest) = _
  simp only [codes_append, codes_cons, codes_nil, Element.code, List.append_assoc,
    List.nil_append, nalUnit]
  simp (disch := first | assumption | decide) only [bind_u]
  rw [bind_check ⟨rfl, rfl, rfl, rfl, rfl⟩]
  exact hread rest

/-- A parameter set of fields that fit is read back behind its header. -/
theorem buildPacked_parses {α : Type} {nal : Nat} {rbsp : List Element} {r : BitReader α} {a : α}
    (junk : Nat → Word) (hstart : nalStartCodePrefix nal = [u 32 1]) (hnal : nal < 2 ^ 6)
    (hw : ∀ e ∈ rbsp, Writable e) (hlen : rbsp.length ≤ 600) (hread : Reads r rbsp a) :
    ParsesAs (buildPacked junk nal rbsp) (nalUnit nal r) a := by
  have hhead : ∀ e ∈ nalHeader nal, Writable e := by
    have htype : Writable (u 6 nal) := ⟨by decide, hnal⟩
    simp only [nalHeader, List.forall_mem_cons]
    exact ⟨by decide, htype, by decide, by decide, List.forall_mem_nil _⟩
  have hes := List.forall_mem_append.mpr ⟨hhead, hw⟩
  have hcount : (nalHeader nal ++ rbsp).length ≤ 1000 := by
    rw [List.length_append]
    show 4 + rbsp.length ≤ 1000
    omega
  obtain ⟨bs, hput, hoff, hmem⟩ := writeHeader_spec junk hes (headerLength_le true hes hcount)
  refine ⟨bs, 7 - (codes (withStartCode true (nalHeader nal ++ rbsp))).length % 8, ?_, ?_,
    by omega, ?_⟩
  · rw [buildPacked, hstart]
    exact hput
  · rw [hoff]
    exact Nat.mul_mod_right 8 _
  · rw [hmem]
    exact nalUnit_reads hnal hread _

theorem ParsesAs.unique {α : Type} {built : Option Bitstream} {r : BitReader α} {a b : α}
    (ha : ParsesAs built r a) (hb : ParsesAs built r b) : a = b := by
  obtain ⟨bs, k, hbs, -, -, hr⟩ := ha
  obtain ⟨bs', k', hbs', -, -, hr'⟩ := hb
  cases hbs.symm.trans hbs'
  exact congrArg Prod.fst (Option.some.inj (hr.symm.trans hr'))

/-! ### The three buffers -/

theorem buildPackedVideoBuffer_parses (junk : Nat → Word) (hip : q.ipPeriod ≤ 64) :
    ParsesAs (buildPackedVideoBuffer junk (fillHeaders q data)) (nalUnit NALU_VPS videoParameterSet)
      ((fillHeaders q data).vps.fields (fillHeaders q data).protierParam) := by
  have hlen : (vpsCalls q).length ≤ 600 := by
    show 57 ≤ 600
    decide
  rw [buildPackedVideoBuffer, vpsRbsp_fillHeaders]
  exact buildPacked_parses junk rfl (by decide) (vpsCalls_writable hip) hlen
    videoParameterSet_reads

theorem buildPackedSeqBuffer_parses (junk : Nat → Word) (hip : q.ipPeriod ≤ 64)
    (hw : data.frameWidth ≤ 2 ^ 16) (hh : data.frameHeight ≤ 2 ^ 16) :
    ParsesAs (buildPackedSeqBuffer junk (fillHeaders q data)) (nalUnit NALU_SPS seqParameterSet)
      (fillHeaders q data).sps.fields := by
  rw [buildPackedSeqBuffer, spsRbsp_fillHeaders]
  exact buildPacked_parses junk rfl (by decide) (spsCalls_writable hip hw hh)
    (spsCalls_length_le hip) seqParameterSet_reads

theorem buildPackedPicBuffer_parses (junk : Nat → Word) (h0 : 0 ≤ q.initialQp)
    (h1 : q.initialQp ≤ 51) :
    ParsesAs (buildPackedPicBuffer junk (fillHeaders q data)) (nalUnit NALU_PPS picParameterSet)
      (fillHeaders q data).pps.fields := by
  have hlen : (ppsCalls q).length ≤ 600 := by
    show 33 ≤ 600
    decide
  rw [buildPackedPicBuffer, ppsRbsp_fillHeaders]
  exact buildPacked_parses junk rfl (by decide) (ppsCalls_writable h0 h1) hlen
    picParameterSet_reads

/-- An even size is what is left of the next multiple of 16 inside the window. -/
theorem window_cut {x : Nat} (h : x % 2 = 0) :
    (align16 x : Int) - 2 * ((0 : Nat) + ((align16 x - x) >>> 1 : Nat)) = x := by
  rw [Nat.shiftRight_one]
  unfold align16
  omega

theorem outputSize_fillHeaders (hw : data.frameWidth % 2 = 0) (hh : data.frameHeight % 2 = 0) :
    (fillHeaders q data).sps.fields.outputWidth = data.frameWidth ∧
      (fillHeaders q data).sps.fields.outputHeight = data.frameHeight := by
  have hwidth : (fillHeaders q data).sps.fields.picWidthInLumaSamples =
      align16 data.frameWidth := rfl
  have hheight : (fillHeaders q data).sps.fields.picHeightInLumaSamples =
      align16 data.frameHeight := rfl
  have hwin : (fillHeaders q data).sps.fields.confWin =
      if windowFlag data = 1 then some ⟨0, windowRight data, 0, windowBottom data⟩ else none := rfl
  rw [SeqParameterSet.outputWidth, SeqParameterSet.outputHeight, hwidth, hheight, hwin]
  by_cases hwindow : align16 data.frameWidth ≠ data.frameWidth ∨
      align16 data.frameHeight ≠ data.frameHeight
  · rw [windowFlag, windowRight, windowBottom, if_pos hwindow, if_pos hwindow, if_pos hwindow]
    exact ⟨window_cut hw, window_cut hh⟩
  · rw [windowFlag, if_neg hwindow]
    rw [not_or, not_not, not_not] at hwindow
    exact ⟨congrArg Nat.cast hwindow.1, congrArg Nat.cast hwindow.2⟩

/-- The three buffers tell what the sets hold, and the size of the frame. The profile of both sets
that have one is that of `protier_param`. -/
structure ParseBack (junk : Nat → Word) (data : Data) : Prop where
  vps : ParsesAs (buildPackedVideoBuffer junk data) (nalUnit NALU_VPS videoParameterSet)
    (data.vps.fields data.protierParam)
  sps : ParsesAs (buildPackedSeqBuffer junk data) (nalUnit NALU_SPS seqParameterSet)
    data.sps.fields
  pps : ParsesAs (buildPackedPicBuffer junk data) (nalUnit NALU_PPS picParameterSet)
    data.pps.fields
  profile : data.protierParam.fields = data.sps.ptps.fields
  width : data.sps.fields.outputWidth = data.frameWidth
  height : data.sps.fields.outputHeight = data.frameHeight

/-- The parameter sets of every even frame size read back. -/
theorem fillHeaders_parseBack (junk : Nat → Word) (q : Settings) (data : Data)
    (hip : 1 ≤ q.ipPeriod ∧ q.ipPeriod ≤ 64) (hqp : 0 ≤ q.initialQp ∧ q.initialQp ≤ 51)
    (hw : 2 ≤ data.frameWidth ∧ data.frameWidth ≤ 2 ^ 16 ∧ data.frameWidth % 2 = 0)
    (hh : 2 ≤ data.frameHeight ∧ data.frameHeight ≤ 2 ^ 16 ∧ data.frameHeight % 2 = 0) :
    ParseBack junk (fillHeaders q data) where
  vps := buildPackedVideoBuffer_parses junk hip.2
  sps := buildPackedSeqBuffer_parses junk hip.2 hw.2.1 hh.2.1
  pps := buildPackedPicBuffer_parses junk hqp.1 hqp.2
  profile := rfl
  width := (outputSize_fillHeaders hw.2.2 hh.2.2).1
  height := (outputSize_fillHeaders hw.2.2 hh.2.2).2

/-- 1366x768 is cut from 1376 columns. -/
theorem fillHeaders_parseBack_1366_768 :
    let data := fillHeaders ⟨30, 3, 26⟩ (Data.init 1366 768)
    ParseBack (fun _ => 0xffffffff) data ∧ data.sps.picWidthInLumaSamples = 1376 ∧
      data.sps.confWinRightOffset = 5 ∧ data.sps.numShortTermRefPicSets = 3 :=
  ⟨fillHeaders_parseBack _ ⟨30, 3, 26⟩ (Data.init 1366 768) (by decide) (by decide) (by decide)
    (by decide), rfl, rfl, rfl⟩

/-- The profile that is read is not the one of the video parameter set itself. -/
theorem fillVpsHeader_ptps_cleared :
    let data := fillHeaders ⟨30, 1, 26⟩ (Data.init 640 480)
    data.vps.ptps.generalLevelIdc = 0 ∧
      (∃ vps, ParsesAs (buildPackedVideoBuffer (fun _ => 0) data)
        (nalUnit NALU_VPS videoParameterSet) vps ∧ vps.profileTierLevel.generalLevelIdc = 120) ∧
      ¬ ParsesAs (buildPackedVideoBuffer (fun _ => 0) data) (nalUnit NALU_VPS videoParameterSet)
        (data.vps.fields data.vps.ptps) := by
  intro data
  have hparse : ParsesAs (buildPackedVideoBuffer (fun _ => 0) data)
      (nalUnit NALU_VPS videoParameterSet) (data.vps.fields data.protierParam) :=
    buildPackedVideoBuffer_parses _ (by decide)
  refine ⟨rfl, ⟨_, hparse, rfl⟩, fun hcleared => ?_⟩
  have heq := hparse.unique hcleared
  have hlevel := congrArg (fun vps => vps.profileTierLevel.generalLevelIdc) heq
  exact absurd hlevel (by decide)

end Hprd.Codec.Hevc.Packed

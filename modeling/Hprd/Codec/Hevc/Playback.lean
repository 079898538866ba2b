import Hprd.Core.PictureBuffer
import Hprd.Codec.Hevc.PackedParamSets
import Hprd.Codec.Hevc.RefPicSet
import Hprd.Codec.Hevc.Surfaces

/-!
# Playing the stream

A decoder that is told of each frame what its slice header says keeps, within the
limits of the sequence parameter set, every picture that the frame was predicted from,
and shows the frames in the order in which they were captured.
-/

namespace Hprd.Codec.Hevc

open Hprd.Core

/-- The limits for the highest sub-layer. -/
def bufferLimits (c : Config) : BufferLimits :=
  let sps := (Packed.fillSpsHeader ⟨c.intra, c.ip, 26⟩ 0
    (Packed.Data.init c.frameWidth c.frameHeight)).sps
  { maxDecPicBufferingMinus1 := sps.spsMaxDecPicBufferingMinus1 sps.spsMaxSubLayersMinus1
    maxNumReorderPics := sps.spsMaxNumReorderPics sps.spsMaxSubLayersMinus1 }

theorem bufferLimits_eq {c : Config} (h1 : c.intra ≠ 1) : bufferLimits c = ⟨6, c.ip - 1⟩ := by
  have hintra : (c.intra : Int) ≠ 1 := by omega
  have hip : c.ip ≠ 0 := Nat.pos_iff_ne_zero.mp c.ip_pos
  show BufferLimits.mk (if (c.intra : Int) = 1 then 1 else 6) (if c.ip ≠ 0 then c.ip - 1 else 0) = _
  rw [if_neg hintra, if_pos hip]

namespace Encoder

/-- What the NAL unit and the slice header of the last frame say. -/
def announced (s : Encoder) : CodedPicture Nat :=
  let poc : Int := s.ssh.picOrderCntLsb
  let strp := s.sps.strp s.ssh.shortTermRefPicSetIdx
  { idr := s.idrPicFlag
    poc := poc
    refPicSet := if s.idrPicFlag then [] else strp.before poc ++ strp.after poc
    frame := s.currentPktIdx }

/-- The first entries of the lists that the last frame was predicted from. -/
def predicted (s : Encoder) : List VAPictureHevc := s.refPicList0.toList ++ s.refPicList1.toList

/-- The first `n` rounds, with a decoder behind the encoder. -/
def encodeFramesTo (c : Config) : Nat → Encoder → Option (Encoder × PictureBuffer Nat)
  | 0, s => some ({ s with currentFrameEncoding := 0 }, .empty)
  | n + 1, s => (encodeFramesTo c n s).bind fun (s, buffer) => (encodeFrame c s).map fun s =>
      (s, buffer.decode (bufferLimits c) s.announced)

end Encoder

/-! ### Positions -/

/-- The display positions of a sequence that are decoded after position `g`. -/
def decodedAt (p g : Nat) : List Nat := List.range g ++ [anchor p g]

/-- The reference pictures after position `g`. -/
def heldAt (p g : Nat) : List Int :=
  if g = 0 then [0]
  else if p ∣ g - 1 then [(anchor p g : Int), anchor p g - p]
  else [(g : Int) - 1, (anchor p g : Int), anchor p g - p]

def refPicSetAt (p g : Nat) : List Int :=
  if g = 0 then []
  else if p ∣ g - 1 then [(anchor p g : Int) - p]
  else [(anchor p g : Int) - p, anchor p g]

section

variable {p g : Nat}

theorem anchor_of_dvd (hp : 0 < p) (hd : p ∣ g) : anchor p g = g := by
  obtain ⟨m, rfl⟩ := hd
  unfold anchor
  split
  next h0 => exact h0.symm
  next h0 =>
    have hm : 0 < m := Nat.pos_of_ne_zero fun h => h0 (by rw [h, Nat.mul_zero])
    have hprod := Nat.mul_pos hp hm
    have hsplit : p * m = (m - 1) * p + p := by
      rw [← Nat.succ_mul, Nat.succ_eq_add_one, Nat.sub_add_cancel hm, Nat.mul_comm]
    have hdiv : (p * m - 1) / p = m - 1 := by
      apply Nat.div_eq_of_lt_le
      · omega
      · rw [Nat.sub_add_cancel hm, Nat.mul_comm m p]
        omega
    rw [hdiv, Nat.sub_add_cancel hm]

theorem le_anchor_self (hp : 0 < p) (g : Nat) : g ≤ anchor p g := by
  by_cases hd : p ∣ g
  · exact (anchor_of_dvd hp hd).ge
  · have h0 : g ≠ 0 := fun h => hd (h ▸ dvd_zero p)
    by_cases hhead : p ∣ g - 1
    · have heq := (anchor_head hp h0 hhead).2
      rw [groupDisplay, if_neg h0, if_pos hhead] at heq
      omega
    · obtain ⟨-, -, -, hshow⟩ := anchor_inside hp h0 hhead
      have hlt := Nat.mod_lt (groupDisplay p g) hp
      have hdisp : groupDisplay p g = g - 1 := by rw [groupDisplay, if_neg h0, if_neg hhead]
      omega

theorem decodedAt_succ (hp : 0 < p) (g : Nat) :
    p ∣ g ∧ decodedAt p g = List.range (g + 1) ∧ anchor p (g + 1) = g + p ∧
        groupDisplay p (g + 1) = g + p ∨
      ¬p ∣ g ∧ anchor p (g + 1) = anchor p g ∧ groupDisplay p (g + 1) = g := by
  have hdisp : groupDisplay p (g + 1) = if p ∣ g then g + p else g := by
    rw [groupDisplay, if_neg (Nat.succ_ne_zero g), Nat.add_sub_cancel, Nat.add_right_comm,
      Nat.add_sub_cancel]
  by_cases hd : p ∣ g
  · rw [if_pos hd] at hdisp
    have hnext := (anchor_head hp (Nat.succ_ne_zero g) hd).2
    refine .inl ⟨hd, ?_, hnext.symm.trans hdisp, hdisp⟩
    rw [decodedAt, anchor_of_dvd hp hd, List.range_succ]
  · rw [if_neg hd] at hdisp
    have hsame := (anchor_inside hp (Nat.succ_ne_zero g) hd).1
    exact .inr ⟨hd, hsame, hdisp⟩

/-- The set names pictures that are held, and with the frame they are what is held next. -/
theorem heldAt_succ (hp : 0 < p) (g : Nat) :
    (∀ r ∈ refPicSetAt p (g + 1), r ∈ heldAt p g) ∧
      ((heldAt p g).filter (· ∈ refPicSetAt p (g + 1))).length ≤ 2 ∧
      (groupDisplay p (g + 1) : Int) :: (heldAt p g).filter (· ∈ refPicSetAt p (g + 1)) =
        heldAt p (g + 1) := by
  have hset : refPicSetAt p (g + 1) = if p ∣ g then [(anchor p (g + 1) : Int) - p]
      else [(anchor p (g + 1) : Int) - p, anchor p (g + 1)] := if_neg (Nat.succ_ne_zero g)
  have hnext : heldAt p (g + 1) = if p ∣ g then [(anchor p (g + 1) : Int), anchor p (g + 1) - p]
      else [(g : Int), (anchor p (g + 1) : Int), anchor p (g + 1) - p] := by
    rw [heldAt, if_neg (Nat.succ_ne_zero g), Nat.add_sub_cancel]
    split
    · rfl
    · rw [Int.natCast_add, Int.natCast_one, Int.add_sub_cancel]
  rcases decodedAt_succ hp g with ⟨hd, -, hanchor, hdisp⟩ | ⟨hd, hanchor, hdisp⟩
  · rw [if_pos hd, hanchor, Int.natCast_add, Int.add_sub_cancel] at hset hnext
    have hheld : (g : Int) ∈ heldAt p g ∧ (heldAt p g).filter (· ∈ [(g : Int)]) = [(g : Int)] := by
      unfold heldAt
      rw [anchor_of_dvd hp hd]
      split
      next h0 => simp [h0]
      next h0 =>
        split
        · simp [hp.ne']
        · simp [hp.ne']
    rw [hset, hnext, hheld.2, hdisp]
    refine ⟨fun r hr => ?_, Nat.le_succ _, rfl⟩
    rw [List.mem_singleton.mp hr]
    exact hheld.1
  · have h0 : g ≠ 0 := fun h => hd (h ▸ dvd_zero p)
    rw [if_neg hd, hanchor] at hset hnext
    have hheld : ∃ front, heldAt p g = front ++ [(anchor p g : Int), anchor p g - p] ∧
        front.filter (· ∈ [(anchor p g : Int) - p, anchor p g]) = [] := by
      rw [heldAt, if_neg h0]
      by_cases hhead : p ∣ g - 1
      · exact ⟨[], if_pos hhead, rfl⟩
      · refine ⟨[(g : Int) - 1], if_neg hhead, ?_⟩
        obtain ⟨-, -, hr, hshow⟩ := anchor_inside hp h0 hhead
        have hlt := Nat.mod_lt (groupDisplay p g) hp
        have hself : groupDisplay p g = g - 1 := by rw [groupDisplay, if_neg h0, if_neg hhead]
        rw [List.filter_cons_of_neg, List.filter_nil]
        simp only [List.mem_cons, List.not_mem_nil, or_false, decide_eq_true_eq, not_or]
        omega
    obtain ⟨front, hfront, hnone⟩ := hheld
    have hall : [(anchor p g : Int), anchor p g - p].filter
        (· ∈ [(anchor p g : Int) - p, anchor p g]) = [(anchor p g : Int), anchor p g - p] := by
      simp
    rw [hset, hnext, hfront, List.filter_append, hnone, hall, hdisp]
    refine ⟨fun r hr => List.mem_append_right _ ?_, Nat.le_refl _, rfl⟩
    simpa [or_comm] using hr

/-! ### One picture after the other -/

/-- The picture at a display position of a sequence that starts at `base`. -/
def tagged (base d : Nat) : Int × Nat := (d, base + d)

/-- A decoder that has shown the first pictures of a sequence and lets the others wait. -/
structure Playing (p base g : Nat) (earlier : List Nat) (b : PictureBuffer Nat) : Prop where
  refs : b.refs = heldAt p g
  split : ∃ k ≤ g + 1, b.shown = earlier ++ ((decodedAt p g).take k).map (base + ·) ∧
    b.waiting = ((decodedAt p g).drop k).map (tagged base)
  few : b.waiting.length ≤ p - 1
  last : b.waiting = [] → p = 1

variable {base : Nat} {earlier : List Nat} {b : PictureBuffer Nat}

theorem decodedAt_length (p g : Nat) : (decodedAt p g).length = g + 1 := by
  rw [decodedAt, List.length_append, List.length_range, List.length_singleton]

theorem take_append_take {α : Type} {k k' : Nat} (h : k ≤ k') (l : List α) :
    l.take k ++ (l.take k').drop k = l.take k' := by
  have happ := List.take_append_drop k (l.take k')
  rwa [List.take_take, Nat.min_eq_left h] at happ

theorem settle (pics : List Nat) (base : Nat) {k : Nat} (hp : 0 < p) (hk : k < pics.length) :
    ∃ k' ≤ pics.length, PictureBuffer.bump (fun waiting => p - 1 < waiting.length)
        ((pics.drop k).map (tagged base)) =
          (((pics.take k').drop k).map (base + ·), (pics.drop k').map (tagged base)) ∧
      k ≤ k' ∧ (pics.drop k').length ≤ p - 1 ∧ (pics.drop k' = [] → p = 1) := by
  obtain ⟨j, hj, heq, hstop, hgo⟩ := PictureBuffer.bump_spec
    (fun waiting : List (Int × Nat) => p - 1 < waiting.length) ((pics.drop k).map (tagged base))
  rw [List.length_map, List.length_drop] at hj
  rw [← List.map_take, ← List.map_drop, List.map_map, List.drop_drop] at heq
  rw [← List.map_drop, List.drop_drop, List.map_eq_nil_iff, decide_eq_false_iff_not,
    List.length_map] at hstop
  refine ⟨k + j, by omega, ?_, Nat.le_add_right k j, ?_, fun hnil => ?_⟩
  · rw [heq, List.take_drop]
    rfl
  · rcases hstop with hnil | hfew
    · rw [hnil]
      exact Nat.zero_le _
    · exact Nat.le_of_not_lt hfew
  · have hlen := List.drop_eq_nil_iff.mp hnil
    have hmore := of_decide_eq_true (hgo (by omega))
    rw [List.length_drop, List.length_map, List.length_drop] at hmore
    omega

/-- The picture for which there is room has its turn among those that wait. -/
theorem Playing.of_room {pic : CodedPicture Nat} {k : Nat} (hp : 0 < p) (hk : k ≤ g)
    (hrefs : pic.poc :: (b.makeRoom ⟨6, p - 1⟩ pic).refs = heldAt p g)
    (hshown : (b.makeRoom ⟨6, p - 1⟩ pic).shown =
      earlier ++ ((decodedAt p g).take k).map (base + ·))
    (hwaiting : (b.makeRoom ⟨6, p - 1⟩ pic).waiting.orderedInsert PictureBuffer.Ahead
      (pic.poc, pic.frame) = ((decodedAt p g).drop k).map (tagged base)) :
    Playing p base g earlier (b.decode ⟨6, p - 1⟩ pic) := by
  have hlen := decodedAt_length p g
  obtain ⟨k', hk', heq, hle, hfew, hlast⟩ := settle (decodedAt p g) base (k := k) hp (by omega)
  have hdecode : b.decode ⟨6, p - 1⟩ pic = ⟨heldAt p g, ((decodedAt p g).drop k').map (tagged base),
      earlier ++ ((decodedAt p g).take k').map (base + ·)⟩ := by
    unfold PictureBuffer.decode
    dsimp only
    rw [hwaiting, heq, hrefs, hshown, List.append_assoc, ← List.map_append, take_append_take hle]
  rw [hdecode]
  exact ⟨rfl, ⟨k', by omega, rfl, rfl⟩, by rwa [List.length_map],
    fun hnil => hlast (List.map_eq_nil_iff.mp hnil)⟩

/-- An IDR picture gives up everything and shows what waits. -/
theorem Playing.start (hp : 0 < p) (b : PictureBuffer Nat) (base : Nat) :
    Playing p base 0 (b.shown ++ b.waiting.map Prod.snd)
      (b.decode ⟨6, p - 1⟩ ⟨true, 0, [], base⟩) := by
  have hroom : b.makeRoom ⟨6, p - 1⟩ ⟨true, 0, [], base⟩ = _ :=
    PictureBuffer.makeRoom_idr ⟨6, p - 1⟩ b rfl
  refine .of_room (k := 0) hp (Nat.le_refl 0) ?_ ?_ ?_
  · rw [hroom]
    rfl
  · rw [hroom]
    exact (List.append_nil _).symm
  · rw [hroom]
    rfl

/-- A picture that waits in vain for room is only shown while others wait behind it. -/
theorem Playing.makeRoom (h : Playing p base g earlier b) (hp : 0 < p) (pic : CodedPicture Nat)
    (hidr : pic.idr = false) (hkept : (b.refs.filter (· ∈ pic.refPicSet)).length ≤ 2) :
    ∃ k ≤ g + 1, b.makeRoom ⟨6, p - 1⟩ pic = ⟨b.refs.filter (· ∈ pic.refPicSet),
        ((decodedAt p g).drop k).map (tagged base),
        earlier ++ ((decodedAt p g).take k).map (base + ·)⟩ ∧
      ((decodedAt p g).drop k = [] → p = 1) := by
  obtain ⟨k, hk, hshown, hwaiting⟩ := h.split
  obtain ⟨j, hj, heq, -, hgo⟩ := PictureBuffer.bump_spec (fun waiting : List (Int × Nat) =>
    p - 1 < waiting.length ∨
      6 < PictureBuffer.fullness (b.refs.filter (· ∈ pic.refPicSet)) waiting) b.waiting
  have hlen := decodedAt_length p g
  have hwaits : b.waiting.length = g + 1 - k := by
    rw [hwaiting, List.length_map, List.length_drop, hlen]
  have hdrop : b.waiting.drop j = ((decodedAt p g).drop (k + j)).map (tagged base) := by
    rw [hwaiting, ← List.map_drop, List.drop_drop]
  refine ⟨k + j, by omega, ?_, fun hnil => ?_⟩
  · rw [PictureBuffer.makeRoom, hidr, if_neg Bool.false_ne_true]
    dsimp only
    rw [heq, hdrop, hshown, List.append_assoc, hwaiting, ← List.map_take, List.map_map,
      show Prod.snd ∘ tagged base = (base + ·) from rfl, ← List.map_append, List.take_drop,
      take_append_take (Nat.le_add_right k j)]
  · by_cases hj0 : j = 0
    · refine h.last ?_
      rw [hj0, Nat.add_zero] at hnil
      rw [hwaiting, hnil]
      rfl
    · have hall := List.drop_eq_nil_iff.mp hnil
      have hfew := h.few
      have hmore := of_decide_eq_true (hgo hj0)
      have hfull := PictureBuffer.fullness_le (b.refs.filter (· ∈ pic.refPicSet))
        (b.waiting.drop (j - 1))
      rw [List.length_drop] at hmore hfull
      omega

/-- Where the next picture stands among those that are decoded. -/
theorem decodedAt_insert (hp : 0 < p) {k : Nat} (hk : k ≤ g + 1)
    (hlast : (decodedAt p g).drop k = [] → p = 1) :
    ∃ first rest, k ≤ first.length ∧ decodedAt p g = first ++ rest ∧
      decodedAt p (g + 1) = first ++ groupDisplay p (g + 1) :: rest ∧
      (∀ d ∈ first, d < groupDisplay p (g + 1)) ∧ ∀ d ∈ rest.head?, groupDisplay p (g + 1) ≤ d := by
  rcases decodedAt_succ hp g with ⟨-, hall, hanchor, hdisp⟩ | ⟨hd, hanchor, hdisp⟩
  · refine ⟨List.range (g + 1), [], ?_, ?_, ?_, fun d hd => ?_, fun d hd => ?_⟩
    · rwa [List.length_range]
    · rw [hall, List.append_nil]
    · rw [decodedAt, hanchor, hdisp]
    · rw [hdisp]
      have := List.mem_range.mp hd
      omega
    · cases hd
  · have hk' : k ≤ g := by
      by_contra hlt
      refine hd ?_
      rw [hlast (List.drop_eq_nil_iff.mpr (by rw [decodedAt_length]; omega))]
      exact one_dvd g
    refine ⟨List.range g, [anchor p g], ?_, rfl, ?_, fun d hd => ?_, fun d hd => ?_⟩
    · rwa [List.length_range]
    · rw [decodedAt, hanchor, hdisp, List.range_succ, List.append_assoc]
      rfl
    · rw [hdisp]
      exact List.mem_range.mp hd
    · cases hd
      rw [hdisp]
      exact le_anchor_self hp g

theorem Playing.next (h : Playing p base g earlier b) (hp : 0 < p) :
    Playing p base (g + 1) earlier (b.decode ⟨6, p - 1⟩ ⟨false, groupDisplay p (g + 1),
      refPicSetAt p (g + 1), base + groupDisplay p (g + 1)⟩) := by
  obtain ⟨-, hkept, hheld⟩ := heldAt_succ hp g
  obtain ⟨k, hk, hroom, hlast⟩ := h.makeRoom hp ⟨false, groupDisplay p (g + 1),
    refPicSetAt p (g + 1), base + groupDisplay p (g + 1)⟩ rfl (by rwa [h.refs])
  obtain ⟨first, rest, hle, hold, hnew, hbefore, hbehind⟩ := decodedAt_insert hp hk hlast
  refine .of_room (k := k) hp hk ?_ ?_ ?_
  · rw [hroom, h.refs]
    exact hheld
  · rw [hroom, hnew, hold, List.take_append_of_le_length hle, List.take_append_of_le_length hle]
  · rw [hroom, hnew, hold, List.drop_append_of_le_length hle, List.drop_append_of_le_length hle,
      List.map_append, List.map_append, PictureBuffer.orderedInsert_append]
    · congr 1
      cases rest with
      | nil => rfl
      | cons d rest =>
          have hahead : PictureBuffer.Ahead (tagged base (groupDisplay p (g + 1)))
            (tagged base d) := Int.ofNat_le.mpr (hbehind d rfl)
          exact List.orderedInsert_cons_of_le _ _ hahead
    · intro other hin
      obtain ⟨d, hd, rfl⟩ := List.mem_map.mp hin
      exact Int.ofNat_lt.mpr (hbefore d (List.mem_of_mem_drop hd))

theorem Playing.all (h : Playing p base g earlier b) :
    b.shown ++ b.waiting.map Prod.snd = earlier ++ (decodedAt p g).map (base + ·) := by
  obtain ⟨k, -, hshown, hwaiting⟩ := h.split
  rw [hshown, hwaiting, List.map_map, show Prod.snd ∘ tagged base = (base + ·) from rfl,
    List.append_assoc, ← List.map_append, List.take_append_drop]

/-- Behind a whole group, what was shown and what waits are the frames up to there. -/
theorem Playing.all_of_dvd (h : Playing p base g (List.range base) b) (hp : 0 < p) (hd : p ∣ g) :
    b.shown ++ b.waiting.map Prod.snd = List.range (base + (g + 1)) := by
  rw [h.all, decodedAt, anchor_of_dvd hp hd, ← List.range_succ, ← List.range_add]

/-- What has been shown are the first frames, without a gap. -/
theorem Playing.shown_range (h : Playing p base g (List.range base) b) (hp : 0 < p) :
    b.shown = List.range b.shown.length ∧ b.shown.length + b.waiting.length = base + (g + 1) := by
  obtain ⟨k, hk, hshown, hwaiting⟩ := h.split
  have htake : (decodedAt p g).take k = List.range k := by
    by_cases hwait : b.waiting = []
    · have hd : p ∣ g := h.last hwait ▸ one_dvd g
      rw [decodedAt, anchor_of_dvd hp hd, ← List.range_succ, List.take_range, Nat.min_eq_left hk]
    · have hk' : k ≤ g := by
        by_contra hlt
        refine hwait ?_
        rw [hwaiting, List.drop_eq_nil_iff.mpr (by rw [decodedAt_length]; omega)]
        rfl
      rw [decodedAt, List.take_append_of_le_length (by rwa [List.length_range]), List.take_range,
        Nat.min_eq_left hk']
  rw [htake, ← List.range_add] at hshown
  have hlen : b.shown.length = base + k := by rw [hshown, List.length_range]
  refine ⟨by rw [hlen, hshown], ?_⟩
  rw [hlen, hwaiting, List.length_map, List.length_drop, decodedAt_length]
  omega

end

/-! ### Runs -/

section

variable {c : Config} {n o g : Nat} {s s' s₀ : Encoder} {b : PictureBuffer Nat}

theorem Encoder.Encoded.announced (h : Encoder.Encoded c o g s) (h1 : c.intra ≠ 1) :
    s.announced = ⟨decide (g = 0), groupDisplay c.ip g, refPicSetAt c.ip g,
      o - g + groupDisplay c.ip g⟩ := by
  have hlen : c.groupLen = c.ip := if_neg h1
  have hstrp := h.strp
  have hidx := h.pktIdx
  obtain ⟨n, hssh⟩ := h.ssh
  rw [hlen] at hstrp hidx hssh
  have hpoc : s.ssh.picOrderCntLsb = groupDisplay c.ip g := by rw [hssh]; rfl
  have hset : (if decide (g = 0) = true then [] else
      (fillShortTermRefPicHeader c.ip (groupDisplay c.ip g % c.ip)).before (groupDisplay c.ip g) ++
        (fillShortTermRefPicHeader c.ip (groupDisplay c.ip g % c.ip)).after
          (groupDisplay c.ip g)) = refPicSetAt c.ip g := by
    unfold refPicSetAt
    by_cases h0 : g = 0
    · rw [if_pos h0, if_pos (decide_eq_true h0)]
    · rw [if_neg h0, if_neg (by simpa using h0)]
      by_cases hd : c.ip ∣ g - 1
      · have hshow := (anchor_head c.ip_pos h0 hd).2
        obtain ⟨hbefore, hafter⟩ :=
          fillShortTermRefPicHeader_zero c.ip_pos c.ip_le (groupDisplay c.ip g)
        rw [if_pos hd, hshow, Nat.mod_eq_zero_of_dvd (dvd_anchor c.ip g), ← hshow, hbefore, hafter]
        rfl
      · obtain ⟨-, -, hr, hshow⟩ := anchor_inside c.ip_pos h0 hd
        obtain ⟨hbefore, hafter⟩ := fillShortTermRefPicHeader_pos (Nat.pos_of_ne_zero hr)
          (Nat.mod_lt _ c.ip_pos) c.ip_le (groupDisplay c.ip g)
        have hpast : (groupDisplay c.ip g : Int) - (groupDisplay c.ip g % c.ip : Nat) =
            anchor c.ip g - c.ip := by omega
        rw [if_neg hd, hbefore, hafter, hpast, Int.sub_add_cancel]
        rfl
  rw [Encoder.announced, h.idrPicFlag, hpoc, hstrp, hidx, hset]

theorem Encoder.encodeFrames_of_to (h : s₀.encodeFramesTo c n = some (s, b)) :
    s₀.encodeFrames c n = some s := by
  induction n generalizing s b with
  | zero =>
      cases h
      rfl
  | succ n ih =>
      obtain ⟨⟨s₁, b₁⟩, hrun, hnext⟩ := Option.bind_eq_some_iff.mp h
      obtain ⟨s₂, hframe, heq⟩ := Option.map_eq_some_iff.mp hnext
      cases heq
      rw [Encoder.encodeFrames, ih hrun]
      exact hframe

/-- The sequence behind which an IDR frame comes consists of whole groups. -/
theorem Periods.Unbroken.whole {q : Periods} (h : q.Unbroken n) (h1 : q.intra ≠ 1) (ho : o ≤ n)
    (h0 : o ≠ 0) (hstart : o % q.seqLen = 0) : q.ip ∣ (o - 1) % q.seqLen := by
  have hrest := (h.resolve_left (by omega)).resolve_left h1
  by_cases hend : q.Endless
  · rw [Periods.seqLen_of_endless hend, Nat.mod_zero] at hstart
    exact absurd hstart h0
  · rw [if_neg hend] at hrest
    have hlen := Periods.seqLen_of_not_endless hend
    obtain ⟨m, hm⟩ := Nat.dvd_of_mod_eq_zero hstart
    have hm0 : 0 < m := Nat.pos_of_ne_zero fun hm0 => h0 (by rw [hm, hm0, Nat.mul_zero])
    have hle : q.seqLen ≤ o := hm ▸ Nat.le_mul_of_pos_right _ hm0
    have hpred : (o - 1) % q.seqLen = q.seqLen - 1 := by
      have hpos : 0 < q.seqLen := Nat.pos_of_ne_zero fun hz => h0 (by rw [hm, hz, Nat.zero_mul])
      have hsplit : o - 1 = q.seqLen * (m - 1) + (q.seqLen - 1) := by
        obtain ⟨m, rfl⟩ := Nat.exists_eq_succ_of_ne_zero hm0.ne'
        rw [hm, Nat.mul_succ, Nat.succ_eq_add_one, Nat.add_sub_cancel]
        omega
      rw [hsplit, Nat.mul_add_mod, Nat.mod_eq_of_lt (by omega)]
    rw [hpred]
    by_cases hone : q.ip = 1
    · rw [hone]
      exact one_dvd _
    · rw [if_neg hone] at hlen
      rcases hrest.resolve_left hone with ⟨-, hdvd | hfew⟩
      · rw [hlen, Nat.add_sub_cancel]
        exact hdvd
      · omega

theorem Periods.Unbroken.mono {q : Periods} (h : q.Unbroken n) (ho : o ≤ n) : q.Unbroken o := by
  refine h.elim (fun h0 => .inl (by omega)) fun h => .inr (h.imp_right fun h => ?_)
  by_cases hend : q.Endless
  · rw [if_pos hend] at h ⊢
    omega
  · rw [if_neg hend] at h ⊢
    exact h.imp_right fun h => ⟨h.1, h.2.imp_right fun h => by omega⟩

/-- After any number of frames the decoder is in the middle of the last sequence. -/
theorem Encoder.encodeFramesTo_playing (h1 : c.intra ≠ 1)
    (h : s₀.encodeFramesTo c (n + 1) = some (s, b)) :
    ∃ earlier, Playing c.ip (n - n % c.seqLen) (n % c.seqLen) earlier b ∧
      (c.Unbroken (n + 1) → earlier = List.range (n - n % c.seqLen)) := by
  have hdist : c.idrDistance = c.seqLen := if_neg h1
  have hlimits := bufferLimits_eq h1
  induction n generalizing s b with
  | zero =>
      obtain ⟨⟨s₁, b₁⟩, hrun, hnext⟩ := Option.bind_eq_some_iff.mp h
      obtain ⟨s₂, hframe, heq⟩ := Option.map_eq_some_iff.mp hnext
      cases heq
      have henc := Encoder.encodeFrame_encoded (Encoder.encodeFrames_ready
        (Encoder.encodeFrames_of_to hrun)) hframe
      cases hrun
      rw [hlimits, henc.announced h1, Nat.zero_mod, Nat.zero_mod]
      exact ⟨_, Playing.start c.ip_pos .empty 0, fun _ => rfl⟩
  | succ n ih =>
      obtain ⟨⟨s₁, b₁⟩, hrun, hnext⟩ := Option.bind_eq_some_iff.mp h
      obtain ⟨s₂, hframe, heq⟩ := Option.map_eq_some_iff.mp hnext
      cases heq
      have henc := Encoder.encodeFrame_encoded (Encoder.encodeFrames_ready
        (Encoder.encodeFrames_of_to hrun)) hframe
      obtain ⟨earlier, hplay, hearlier⟩ := ih hrun
      rw [hlimits, henc.announced h1, hdist]
      by_cases h0 : (n + 1) % c.seqLen = 0
      · rw [h0]
        refine ⟨_, Playing.start c.ip_pos b₁ _, fun hun => ?_⟩
        have hwhole := hun.whole h1 (Nat.le_succ _) (Nat.succ_ne_zero n) h0
        rw [hearlier (hun.mono (Nat.le_succ _))] at hplay
        have hle := Nat.mod_le n c.seqLen
        rw [hplay.all_of_dvd c.ip_pos hwhole]
        congr 1
        omega
      · have hpred := pred_mod h0
        rw [Nat.add_sub_cancel] at hpred
        have hsucc : (n + 1) % c.seqLen = n % c.seqLen + 1 := by omega
        have hbase : n + 1 - (n % c.seqLen + 1) = n - n % c.seqLen := by omega
        rw [hsucc, hbase, decide_eq_false (Nat.succ_ne_zero _)]
        exact ⟨earlier, hplay.next c.ip_pos, fun hun => hearlier (hun.mono (Nat.le_succ _))⟩

/-- The decoder holds the pictures of the set that a frame announces and those the frame was
predicted from, and has room for it. -/
structure Decodable (c : Config) (b : PictureBuffer Nat) (s : Encoder) : Prop where
  refPicSet : ∀ r ∈ s.announced.refPicSet, r ∈ (b.makeRoom (bufferLimits c) s.announced).refs
  predicted : ∀ pic ∈ s.predicted, ∃ r ∈ (b.makeRoom (bufferLimits c) s.announced).refs,
    pic.picOrderCnt = 2 * r
  room : PictureBuffer.fullness (b.decode (bufferLimits c) s.announced).refs
    (b.decode (bufferLimits c) s.announced).waiting ≤ (bufferLimits c).maxDecPicBufferingMinus1 + 1

theorem Encoder.encodeFrame_predicted (h : Encoder.encodeFrame c s = some s') :
    (s'.currentFrameType = .p → s'.predicted = s'.refPicList0.toList ++ s'.refPicList0.toList) ∧
      (s'.currentFrameType ≠ .p → s'.currentFrameType ≠ .b → s'.predicted = []) := by
  obtain ⟨-, h⟩ := Option.ite_none_right_eq_some.mp h
  obtain ⟨⟨d, t⟩, -, h⟩ := Option.bind_eq_some_iff.mp h
  obtain ⟨s₁, -, h⟩ := Option.bind_eq_some_iff.mp h
  obtain ⟨s₂, -, h⟩ := Option.bind_eq_some_iff.mp h
  obtain ⟨s₃, hslice, rfl⟩ := Option.map_eq_some_iff.mp h
  obtain ⟨s₄, -, hlists⟩ := Option.map_eq_some_iff.mp hslice
  rw [Encoder.updateReferenceFrames_frame]
  show (s₃.currentFrameType = .p → s₃.predicted = _) ∧
    (s₃.currentFrameType ≠ .p → s₃.currentFrameType ≠ .b → s₃.predicted = [])
  cases ht : s₄.currentFrameType with
  | p =>
      rw [ht] at hlists
      cases hlists
      exact ⟨fun _ => rfl, fun hp => absurd rfl hp⟩
  | b =>
      rw [ht] at hlists
      cases hlists
      exact ⟨fun hp => FrameType.noConfusion hp, fun _ hb => absurd rfl hb⟩
  | i =>
      rw [ht] at hlists
      cases hlists
      exact ⟨fun hp => FrameType.noConfusion hp, fun _ _ => rfl⟩
  | idr =>
      rw [ht] at hlists
      cases hlists
      exact ⟨fun hp => FrameType.noConfusion hp, fun _ _ => rfl⟩

theorem Encoder.Encoded.predicted (h : Encoder.Encoded c o g s') (h1 : c.intra ≠ 1)
    (hs : Encoder.encodeFrame c s = some s') :
    ∀ pic ∈ s'.predicted, ∃ r ∈ refPicSetAt c.ip g, pic.picOrderCnt = 2 * r := by
  have hlen : c.groupLen = c.ip := if_neg h1
  obtain ⟨hpframe, hintra⟩ := Encoder.encodeFrame_predicted hs
  have hlistP := h.listP
  have hlistB := h.listB
  rw [hlen] at hlistP hlistB
  unfold refPicSetAt
  by_cases hp : s'.currentFrameType = .p
  · obtain ⟨h0, hd, -⟩ := Periods.head_of_p (h.frameType.symm.trans hp)
    rw [hlen] at hd
    obtain ⟨pic, hpic, hcnt⟩ := hlistP hp
    have hshow := (anchor_head c.ip_pos h0 hd).2
    rw [hpframe hp, hpic, if_neg h0, if_pos hd]
    intro pic' hpic'
    have heq : pic' = pic := by simpa using hpic'
    exact ⟨_, List.mem_singleton_self _, by rw [heq]; omega⟩
  · by_cases hb : s'.currentFrameType = .b
    · obtain ⟨h0, hd⟩ := Periods.frameTypeAt_eq_b_iff.mp (h.frameType.symm.trans hb)
      rw [hlen] at hd
      obtain ⟨past, future, hpast, hfuture, hcnt, hnext⟩ := hlistB hb
      obtain ⟨-, -, -, hshow⟩ := anchor_inside c.ip_pos h0 hd
      rw [Encoder.predicted, hpast, hfuture, if_neg h0, if_neg hd]
      intro pic hpic
      rcases List.mem_pair.mp hpic with rfl | rfl
      · exact ⟨_, List.mem_cons_self .., by omega⟩
      · exact ⟨_, List.mem_cons_of_mem _ (List.mem_singleton_self _), by omega⟩
    · rw [hintra hp hb]
      exact fun pic hpic => absurd hpic List.not_mem_nil

/-- What the decoder keeps for the next frame has all that the frame announces. -/
theorem Encoder.encodeFramesTo_held (h1 : c.intra ≠ 1) (hrun : s₀.encodeFramesTo c n = some (s, b))
    (hnext : Encoder.encodeFrame c s = some s') :
    (∀ r ∈ s'.announced.refPicSet, r ∈ (b.makeRoom (bufferLimits c) s'.announced).refs) ∧
      (b.makeRoom (bufferLimits c) s'.announced).refs.length ≤ 2 := by
  have henc := Encoder.encodeFrame_encoded (Encoder.encodeFrames_ready
    (Encoder.encodeFrames_of_to hrun)) hnext
  have hdist : c.idrDistance = c.seqLen := if_neg h1
  rw [henc.announced h1, bufferLimits_eq h1, hdist]
  by_cases h0 : n % c.seqLen = 0
  · rw [h0, PictureBuffer.makeRoom_idr _ _ rfl]
    exact ⟨fun r hr => absurd hr List.not_mem_nil, Nat.zero_le _⟩
  · obtain ⟨m, rfl⟩ : ∃ m, n = m + 1 :=
      Nat.exists_eq_succ_of_ne_zero fun hn => h0 (by rw [hn, Nat.zero_mod])
    obtain ⟨earlier, hplay, -⟩ := Encoder.encodeFramesTo_playing h1 hrun
    have hpred := pred_mod h0
    rw [Nat.add_sub_cancel] at hpred
    have hsucc : (m + 1) % c.seqLen = m % c.seqLen + 1 := by
      have : 0 < (m + 1) % c.seqLen := Nat.pos_of_ne_zero h0
      omega
    obtain ⟨hset, hfew, -⟩ := heldAt_succ c.ip_pos (m % c.seqLen)
    rw [hsucc, decide_eq_false (Nat.succ_ne_zero _), PictureBuffer.refs_makeRoom _ _ rfl,
      hplay.refs]
    exact ⟨fun r hr => List.mem_filter.mpr ⟨hset r hr, decide_eq_true hr⟩, hfew⟩

theorem Encoder.encodeFramesTo_room (h1 : c.intra ≠ 1) (hrun : s₀.encodeFramesTo c n = some (s, b))
    (hnext : Encoder.encodeFrame c s = some s') :
    let room := b.makeRoom (bufferLimits c) s'.announced
    PictureBuffer.fullness room.refs room.waiting ≤ (bufferLimits c).maxDecPicBufferingMinus1 := by
  have hfew := (Encoder.encodeFramesTo_held h1 hrun hnext).2
  have hroom := PictureBuffer.fullness_makeRoom (bufferLimits c) b s'.announced
  rw [bufferLimits_eq h1] at hfew hroom ⊢
  dsimp only at hroom ⊢
  omega

/-- A decoder behind the encoder can decode every frame. -/
theorem decodable (c : Config) (h1 : c.intra ≠ 1) (n : Nat) (s₀ s s' : Encoder)
    (b : PictureBuffer Nat) (hrun : s₀.encodeFramesTo c n = some (s, b))
    (hnext : Encoder.encodeFrame c s = some s') : Decodable c b s' := by
  have henc := Encoder.encodeFrame_encoded (Encoder.encodeFrames_ready
    (Encoder.encodeFrames_of_to hrun)) hnext
  have hheld := (Encoder.encodeFramesTo_held h1 hrun hnext).1
  refine ⟨hheld, fun pic hpic => ?_, ?_⟩
  · obtain ⟨r, hr, heq⟩ := henc.predicted h1 hnext pic hpic
    rw [henc.announced h1] at hheld
    rw [henc.announced h1]
    exact ⟨r, hheld r hr, heq⟩
  · have hroom := Encoder.encodeFramesTo_room h1 hrun hnext
    have hplace := (PictureBuffer.fullness_decode (bufferLimits c) b s'.announced).2
    dsimp only at hroom hplace
    omega

/-- 7/21/3: the sixth frame is a B frame, decoded from the pictures 3 and 6. -/
theorem decodable_7_21_3 :
    let c : Config := ⟨⟨7, 21, 3, by decide, by decide, by decide, by decide, by decide⟩,
      by decide, 60, by decide, 640, 480⟩
    ∃ s s' b, Encoder.idle.encodeFramesTo c 5 = some (s, b) ∧ Encoder.encodeFrame c s = some s' ∧
      s'.currentPktIdx = 4 ∧ b.refs = [6, 3] ∧ Decodable c b s' := by
  intro c
  have hrun : ((Encoder.idle.encodeFramesTo c 5).bind fun (s, b) => (Encoder.encodeFrame c s).map
      fun s' => (s'.currentPktIdx, b.refs)) = some (4, [6, 3]) := by decide +kernel
  obtain ⟨⟨s, b⟩, hs, hnext⟩ := Option.bind_eq_some_iff.mp hrun
  obtain ⟨s', hs', heq⟩ := Option.map_eq_some_iff.mp hnext
  exact ⟨s, s', b, hs, hs', congrArg Prod.fst heq, congrArg Prod.snd heq,
    decodable c (by decide) 5 Encoder.idle s s' b hs hs'⟩

/-- What a decoder has shown of unbroken sequences, and what it still holds back. -/
theorem Playing.inOrder (hplay : Playing c.ip (n - n % c.seqLen) (n % c.seqLen)
    (List.range (n - n % c.seqLen)) b) (h1 : c.intra ≠ 1) (hn : c.Unbroken (n + 1)) :
    b.shown = List.range b.shown.length ∧ b.shown.length + b.waiting.length = n + 1 ∧
      b.waiting.length ≤ c.ip - 1 ∧
      (c.Complete (n + 1) → b.shown ++ b.waiting.map Prod.snd = List.range (n + 1)) := by
  have hle := Nat.mod_le n c.seqLen
  have hlen : n - n % c.seqLen + (n % c.seqLen + 1) = n + 1 := by omega
  obtain ⟨hshown, hcount⟩ := hplay.shown_range c.ip_pos
  refine ⟨hshown, hcount.trans hlen, hplay.few, fun hcomplete => ?_⟩
  rw [hplay.all_of_dvd c.ip_pos, hlen]
  by_cases h0 : (n + 1) % c.seqLen = 0
  · exact hn.whole h1 (Nat.le_refl _) (Nat.succ_ne_zero n) h0
  · have hpred := pred_mod h0
    rw [Nat.add_sub_cancel] at hpred
    rw [hpred]
    exact (hcomplete.resolve_left h1).resolve_left h0

/-- The frames are shown in the order in which they were captured, at most `ip_period - 1` later
than they are decoded. -/
theorem shown_in_order (c : Config) (h1 : c.intra ≠ 1) (n : Nat) (hn : c.Unbroken n)
    (s₀ s : Encoder) (b : PictureBuffer Nat) (h : s₀.encodeFramesTo c n = some (s, b)) :
    b.shown = List.range b.shown.length ∧ b.shown.length + b.waiting.length = n ∧
      b.waiting.length ≤ c.ip - 1 ∧
      (c.Complete n → b.shown ++ b.waiting.map Prod.snd = List.range n) := by
  cases n with
  | zero =>
      cases h
      exact ⟨rfl, rfl, Nat.zero_le _, fun _ => rfl⟩
  | succ n =>
      obtain ⟨earlier, hplay, hearlier⟩ := Encoder.encodeFramesTo_playing h1 h
      rw [hearlier hn] at hplay
      exact hplay.inOrder h1 hn

/-- 7/21/3: when the second sequence has begun, frame 24 is not yet decoded. -/
theorem shown_in_order_7_21_3 :
    let c : Config := ⟨⟨7, 21, 3, by decide, by decide, by decide, by decide, by decide⟩,
      by decide, 60, by decide, 640, 480⟩
    ∃ s b, Encoder.idle.encodeFramesTo c 25 = some (s, b) ∧ b.waiting.map Prod.snd = [23, 25] ∧
      b.shown = List.range b.shown.length := by
  intro c
  have hrun : (Encoder.idle.encodeFramesTo c 25).map (fun (_, b) => b.waiting.map Prod.snd) =
      some [23, 25] := by decide +kernel
  obtain ⟨⟨s, b⟩, hs, heq⟩ := Option.map_eq_some_iff.mp hrun
  exact ⟨s, b, hs, heq, (shown_in_order c (by decide) 25 (.inr (.inr (by decide))) Encoder.idle s b
    hs).1⟩

end

end Hprd.Codec.Hevc

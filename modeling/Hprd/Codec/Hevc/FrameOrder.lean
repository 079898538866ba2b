import Hprd.Core.CInt
import Hprd.Core.Reorder

/-!
# The order of the frames

`encoding2display_order` gives the frame that is encoded next its type and its place
in the display. B frames are shown before the P or I frame that is encoded ahead of
them; an IDR frame starts a new sequence.
-/

namespace Hprd.Codec.Hevc

open Hprd.Core

inductive FrameType
  | p
  | b
  | i
  | idr
deriving DecidableEq, Repr

/-- The position within the sequence that the last IDR frame started. -/
def encodingOrderGop (encodingOrder : Nat) (intraIdrPeriod ipPeriod : Int) : Option Int :=
  if intraIdrPeriod = 0 then some (toInt32 encodingOrder)
  else
    (int32 (intraIdrPeriod + if ipPeriod = 1 then 0 else 1)).bind fun len =>
      (unsignedMod encodingOrder (toUInt64 len)).map toInt32

def headsIntra (gop intraPeriod ipPeriod : Int) : Option Bool :=
  if intraPeriod ≠ 0 ∧ 2 ≤ gop then
    if ipPeriod = 1 then
      (int32 (intraPeriod - 1)).bind fun period => (intMod gop period).map (· == 0)
    else if 2 ≤ ipPeriod then
      (int32 (gop - 1)).bind fun k => (intDiv k ipPeriod).bind fun group =>
      (int32 (intraPeriod - 1)).bind fun k => (intDiv k ipPeriod).bind fun groups =>
        (intMod group groups).map (· == 0)
    else some false
  else some false

/-- The displaying order and the frame type of an encoding order. -/
def encoding2displayOrder (encodingOrder : Nat) (intraPeriod intraIdrPeriod ipPeriod : Int) :
    Option (Nat × FrameType) :=
  if intraPeriod = 1 then
    if intraIdrPeriod = 0 then some (encodingOrder, if encodingOrder = 0 then .idr else .i)
    else
      (unsignedMod encodingOrder (toUInt64 intraIdrPeriod)).map fun r =>
        (encodingOrder, if r = 0 then .idr else .i)
  else
    let intraIdrPeriod := if intraPeriod = 0 then 0 else intraIdrPeriod
    (encodingOrderGop encodingOrder intraIdrPeriod ipPeriod).bind fun gop =>
      if gop = 0 then some (encodingOrder, .idr)
      else
        (int32 (gop - 1)).bind fun k => (intMod k ipPeriod).bind fun r =>
          if r ≠ 0 then some (toUInt64 (encodingOrder - 1), .b)
          else (headsIntra gop intraPeriod ipPeriod).map fun intra =>
            (toUInt64 (encodingOrder + ipPeriod - 1), if intra then .i else .p)

/-- Periods that obey rule 3 of the comment above `encoding2display_order`; 0 stands for a
period without an end. -/
structure Periods where
  intra : Nat
  idr : Nat
  ip : Nat
  intra_lt : intra < 2 ^ 31
  idr_lt : idr < 2 ^ 31
  ip_lt : ip < 2 ^ 31
  ip_pos : 0 < ip
  rule : intra = 0 ∨ 0 < intra ∧ ip ∣ intra - 1 ∧ intra ∣ idr

namespace Periods

def frame (q : Periods) (o : Nat) : Option (Nat × FrameType) :=
  encoding2displayOrder o q.intra q.idr q.ip

/-- No IDR frame follows the first one. -/
def Endless (q : Periods) : Prop := q.intra = 0 ∨ q.idr = 0

instance (q : Periods) : Decidable q.Endless := inferInstanceAs (Decidable (_ ∨ _))

/-- The frames from one IDR frame to the next, 0 if there is no next one. -/
def seqLen (q : Periods) : Nat :=
  if q.Endless then 0 else q.idr + if q.ip = 1 then 0 else 1

/-- Whether the group head at position `g` of a sequence is an I frame. -/
def HeadsIntra (q : Periods) (g : Nat) : Prop :=
  q.intra ≠ 0 ∧ 2 ≤ g ∧
    if q.ip = 1 then q.intra - 1 ∣ g else (q.intra - 1) / q.ip ∣ (g - 1) / q.ip

instance (q : Periods) : DecidablePred q.HeadsIntra := fun g => by
  unfold HeadsIntra
  infer_instance

/-- What is encoded at position `g` of a sequence. -/
def typeAt (q : Periods) (g : Nat) : FrameType :=
  if g = 0 then .idr
  else if ¬ q.ip ∣ g - 1 then .b
  else if q.HeadsIntra g then .i
  else .p

variable {q : Periods}

theorem seqLen_of_endless (h : q.Endless) : q.seqLen = 0 := if_pos h

theorem seqLen_of_not_endless (h : ¬ q.Endless) :
    q.seqLen = q.idr + if q.ip = 1 then 0 else 1 := if_neg h

theorem natCast_ite_eq_one (n a b : Nat) :
    (if (n : Int) = 1 then (a : Int) else b) = ((if n = 1 then a else b : Nat) : Int) := by
  by_cases h : n = 1
  · rw [if_pos h, if_pos (by omega)]
  · rw [if_neg h, if_neg (by omega)]

theorem encodingOrderGop_eq {o : Nat} (hlen : q.seqLen < 2 ^ 31) (ho : o % q.seqLen < 2 ^ 31) :
    encodingOrderGop o (if (q.intra : Int) = 0 then 0 else q.idr) q.ip =
      some ((o % q.seqLen : Nat) : Int) := by
  by_cases h : q.Endless
  · have hzero : (if (q.intra : Int) = 0 then (0 : Int) else q.idr) = 0 := by
      unfold Endless at h
      split <;> omega
    rw [seqLen_of_endless h, Nat.mod_zero] at ho ⊢
    rw [encodingOrderGop, if_pos hzero, toInt32_of_lt ho]
  · have hidr : (if (q.intra : Int) = 0 then (0 : Int) else q.idr) = q.idr := by
      unfold Endless at h
      exact if_neg (by omega)
    have hpos : ¬ (q.idr : Int) = 0 := by
      unfold Endless at h
      omega
    have hsum : (q.idr : Int) + (if (q.ip : Int) = 1 then 0 else 1) = (q.seqLen : Int) := by
      rw [seqLen_of_not_endless h, Nat.cast_add]
      congr 1
      exact natCast_ite_eq_one q.ip 0 1
    have hL : 0 < q.seqLen := by
      rw [seqLen_of_not_endless h]
      omega
    rw [encodingOrderGop, hidr, if_neg hpos, hsum, int32_eq_some (by omega) (by omega),
      Option.bind_some, toUInt64_natCast (by omega), unsignedMod_of_pos hL, Option.map_some,
      toInt32_of_lt ho]

theorem mod_beq_zero (a b : Nat) : (((a % b : Nat) : Int) == 0) = decide (b ∣ a) := by
  rw [Bool.eq_iff_iff, beq_iff_eq, decide_eq_true_iff, Nat.dvd_iff_mod_eq_zero]
  exact Int.natCast_eq_zero

theorem headsIntra_eq {g : Nat} (hg : g < 2 ^ 31) (h1 : q.intra ≠ 1) :
    headsIntra g q.intra q.ip = some (decide (q.HeadsIntra g)) := by
  have hint := q.intra_lt
  have hip := q.ip_pos
  by_cases h : q.intra ≠ 0 ∧ 2 ≤ g
  · have hc : (q.intra : Int) ≠ 0 ∧ (2 : Int) ≤ g := by omega
    have hsub : (q.intra : Int) - 1 = ((q.intra - 1 : Nat) : Int) := by omega
    have hsubg : (g : Int) - 1 = ((g - 1 : Nat) : Int) := by omega
    rw [headsIntra, if_pos hc, hsub, hsubg]
    by_cases hip1 : q.ip = 1
    · rw [if_pos (by omega), int32_eq_some (by omega) (by omega), Option.bind_some,
        intMod_natCast hg (by omega), Option.map_some, mod_beq_zero]
      congr 1
      apply decide_eq_decide.mpr
      rw [HeadsIntra, if_pos hip1]
      exact ⟨fun hd => ⟨h.1, h.2, hd⟩, fun hd => hd.2.2⟩
    · rw [if_neg (by omega), if_pos (by omega), int32_eq_some (by omega) (by omega),
        Option.bind_some, intDiv_natCast (by omega) hip, Option.bind_some,
        int32_eq_some (by omega) (by omega), Option.bind_some, intDiv_natCast (by omega) hip,
        Option.bind_some]
      have hgroups : 0 < (q.intra - 1) / q.ip := by
        rcases q.rule with h0 | ⟨-, hd, -⟩
        · omega
        · exact Nat.div_pos (Nat.le_of_dvd (by omega) hd) hip
      have hle : (g - 1) / q.ip ≤ g - 1 := Nat.div_le_self _ _
      rw [intMod_natCast (by omega) hgroups, Option.map_some, mod_beq_zero]
      congr 1
      apply decide_eq_decide.mpr
      rw [HeadsIntra, if_neg hip1]
      exact ⟨fun hd => ⟨h.1, h.2, hd⟩, fun hd => hd.2.2⟩
  · have hc : ¬ ((q.intra : Int) ≠ 0 ∧ (2 : Int) ≤ g) := by omega
    rw [headsIntra, if_neg hc, decide_eq_false]
    rintro ⟨h0, h2, -⟩
    exact h ⟨h0, h2⟩

theorem frame_intra {o : Nat} (h : q.intra = 1) :
    q.frame o = some (o, if o % q.idr = 0 then .idr else .i) := by
  have h1 : (q.intra : Int) = 1 := by omega
  rw [frame, encoding2displayOrder, if_pos h1]
  rcases Nat.eq_zero_or_pos q.idr with h0 | h0
  · rw [if_pos (by omega), h0, Nat.mod_zero]
  · have hidr := q.idr_lt
    rw [if_neg (by omega), toUInt64_natCast (by omega), unsignedMod_of_pos h0, Option.map_some]

/-- As long as nothing overflows the code reorders whole groups. -/
theorem frame_eq {o : Nat} (h1 : q.intra ≠ 1) (hlen : q.seqLen < 2 ^ 31)
    (ho : o % q.seqLen < 2 ^ 31) (hfit : o + q.ip < 2 ^ 64) :
    q.frame o = some (displayOrder q.ip q.seqLen o, q.typeAt (o % q.seqLen)) := by
  have hint : ¬ (q.intra : Int) = 1 := by omega
  have hle : o % q.seqLen ≤ o := Nat.mod_le o _
  have hip := q.ip_pos
  rw [frame, encoding2displayOrder, if_neg hint]
  dsimp only
  rw [encodingOrderGop_eq hlen ho, Option.bind_some, displayOrder, groupDisplay, typeAt]
  generalize o % q.seqLen = g at *
  by_cases h0 : g = 0
  · rw [if_pos (by omega), if_pos h0, if_pos h0, h0]
    rfl
  · have hsub : (g : Int) - 1 = ((g - 1 : Nat) : Int) := by omega
    rw [if_neg (by omega), hsub, int32_eq_some (by omega) (by omega), Option.bind_some,
      intMod_natCast (by omega) hip, Option.bind_some, if_neg h0, if_neg h0]
    by_cases hd : q.ip ∣ g - 1
    · have hr : ¬ (((g - 1) % q.ip : Nat) : Int) ≠ 0 := by
        rw [Nat.mod_eq_zero_of_dvd hd]
        simp
      have hdisp : (o : Int) + q.ip - 1 = ((o - g + (g + q.ip - 1) : Nat) : Int) := by omega
      rw [if_neg hr, headsIntra_eq ho h1, Option.map_some, if_pos hd, if_neg (not_not.mpr hd), hdisp,
        toUInt64_natCast (by omega)]
      simp only [decide_eq_true_eq]
    · have hr : (((g - 1) % q.ip : Nat) : Int) ≠ 0 := by
        intro h
        exact hd (Nat.dvd_of_mod_eq_zero (by omega))
      have hdisp : (o : Int) - 1 = ((o - g + (g - 1) : Nat) : Int) := by omega
      rw [if_pos hr, if_neg hd, if_pos hd, hdisp, toUInt64_natCast (by omega)]

theorem typeAt_eq_idr_iff {g : Nat} : q.typeAt g = .idr ↔ g = 0 := by
  unfold typeAt
  constructor
  · intro h
    by_contra h0
    rw [if_neg h0] at h
    split at h
    · cases h
    · split at h <;> cases h
  · intro h
    rw [if_pos h]

theorem typeAt_eq_b_iff {g : Nat} : q.typeAt g = .b ↔ g ≠ 0 ∧ ¬ q.ip ∣ g - 1 := by
  unfold typeAt
  constructor
  · intro h
    split at h
    · cases h
    next h0 =>
      split at h
      next hd => exact ⟨h0, hd⟩
      · split at h <;> cases h
  · rintro ⟨h0, hd⟩
    rw [if_neg h0, if_pos hd]

/-! ### Encoding order and display order -/

def display (q : Periods) (o : Nat) : Option Nat := (q.frame o).map Prod.fst

def type (q : Periods) (o : Nat) : Option FrameType := (q.frame o).map Prod.snd

/-- The last started group of one P or I frame and its B frames is complete, or the sequence
before the next IDR frame is, when `m` frames are encoded. -/
def Complete (q : Periods) (m : Nat) : Prop := q.intra = 1 ∨ GroupStart q.ip q.seqLen m

/-- The IDR frame at order `s` starts the sequence that order `o` belongs to. -/
def LastIdr (q : Periods) (o s : Nat) : Prop :=
  s ≤ o ∧ q.type s = some .idr ∧ ∀ t, s < t → t ≤ o → q.type t ≠ some .idr

/-- The encoding order of `n` frames is a reordering of their display order. -/
structure Reorders (q : Periods) (n : Nat) : Prop where
  defined : ∀ o < n, (q.frame o).isSome
  distinct : ∀ o < n, ∀ o' < n, q.display o = q.display o' → o = o'
  noGap : ∀ m ≤ n, q.Complete m → ∀ o < m, ∀ d, q.display o = some d →
    ∀ e ≤ d, ∃ o' < m, q.display o' = some e
  between : ∀ o < n, q.type o = some .b → ∃ s, q.LastIdr o s ∧ ∃ a b,
    (s ≤ a ∧ a < o ∧ q.type a ≠ some .b) ∧ (s ≤ b ∧ b < o ∧ q.type b ≠ some .b) ∧
    ∃ da d db, q.display a = some da ∧ q.display o = some d ∧ q.display b = some db ∧
      da < d ∧ d < db

/-- Frames that the code gives the orders of whole groups are reordered. -/
theorem reorders_of_frame {n L : Nat} (hL : Whole q.ip L)
    (hframe : ∀ o < n, q.frame o = some (displayOrder q.ip L o, q.typeAt (o % L)))
    (hstart : ∀ m ≤ n, q.Complete m → GroupStart q.ip L m) : q.Reorders n := by
  have hdisp : ∀ o < n, q.display o = some (displayOrder q.ip L o) := fun o ho => by
    rw [display, hframe o ho, Option.map_some]
  have htype : ∀ o < n, q.type o = some (q.typeAt (o % L)) := fun o ho => by
    rw [type, hframe o ho, Option.map_some]
  have hip := q.ip_pos
  constructor
  case defined =>
    intro o ho
    rw [hframe o ho]
    rfl
  case distinct =>
    intro o ho o' ho' h
    rw [hdisp o ho, hdisp o' ho'] at h
    exact displayOrder_injective hip hL (Option.some.inj h)
  case noGap =>
    intro m hm hc o ho d hd e he
    have hgroup := hstart m hm hc
    rw [hdisp o (by omega)] at hd
    cases hd
    have hlt := (displayOrder_lt_iff hip hL hgroup o).mpr ho
    obtain ⟨o', ho', heq⟩ := exists_displayOrder_eq hip hL hgroup (lt_of_le_of_lt he hlt)
    exact ⟨o', ho', by rw [hdisp o' (by omega), heq]⟩
  case between =>
    intro o ho hb
    rw [htype o ho] at hb
    obtain ⟨h0, hd⟩ := typeAt_eq_b_iff.mp (Option.some.inj hb)
    obtain ⟨a, b, ha, hao, hsb, hbo, hga, hgb, hlt, hgt⟩ :=
      displayOrder_between (L := L) hip h0 hd
    have hhead : ∀ c < o, GroupStart q.ip L c → q.type c ≠ some .b := by
      intro c hc hg h
      rw [htype c (by omega)] at h
      obtain ⟨h0, hd⟩ := typeAt_eq_b_iff.mp (Option.some.inj h)
      rcases hg with hg | hg
      · exact h0 hg
      · exact hd hg
    refine ⟨o - o % L, ⟨Nat.sub_le _ _, ?_, ?_⟩, a, b, ⟨ha, hao, hhead a hao hga⟩,
      ⟨hsb, hbo, hhead b hbo hgb⟩, _, _, _, hdisp a (by omega), hdisp o ho, hdisp b (by omega),
      hlt, hgt⟩
    · have hs : (o - o % L) % L = 0 := Nat.mod_eq_zero_of_dvd (Nat.dvd_sub_mod o)
      rw [htype _ (by omega), typeAt_eq_idr_iff.mpr hs]
    · intro t hst hto h
      rw [htype t (by omega)] at h
      have ht : L ∣ t := Nat.dvd_of_mod_eq_zero (typeAt_eq_idr_iff.mp (Option.some.inj h))
      have hd : L ∣ t - (o - o % L) := Nat.dvd_sub ht (Nat.dvd_sub_mod o)
      rcases Nat.eq_zero_or_pos L with rfl | hpos
      · have := Nat.eq_zero_of_zero_dvd hd
        omega
      · have := Nat.le_of_dvd (by omega) hd
        have := Nat.mod_lt o hpos
        omega

theorem reorders_intra (h : q.intra = 1) (n : Nat) : q.Reorders n := by
  have hdisp : ∀ o, q.display o = some o := fun o => by
    rw [display, frame_intra h, Option.map_some]
  constructor
  case defined =>
    intro o _
    rw [frame_intra h]
    rfl
  case distinct =>
    intro o _ o' _ heq
    rw [hdisp, hdisp] at heq
    exact Option.some.inj heq
  case noGap =>
    intro m _ _ o ho d hd e he
    rw [hdisp] at hd
    cases hd
    exact ⟨e, by omega, hdisp e⟩
  case between =>
    intro o _ hb
    rw [type, frame_intra h, Option.map_some] at hb
    split at hb <;> cases hb

/-- `encoding_order_gop` is an `int`: without a further IDR frame it overflows. -/
theorem frame_overflow (h1 : q.intra ≠ 1) (h : q.Endless) : q.frame (2 ^ 31) = none := by
  have hint : ¬ (q.intra : Int) = 1 := by omega
  have hzero : (if (q.intra : Int) = 0 then (0 : Int) else q.idr) = 0 := by
    unfold Endless at h
    split <;> omega
  have hgop : toInt32 (2 ^ 31) = -2 ^ 31 := by decide
  have hsub : int32 (-2 ^ 31 - 1) = none := by decide
  rw [frame, encoding2displayOrder, if_neg hint]
  dsimp only
  rw [encodingOrderGop, if_pos hzero, Option.bind_some, hgop, if_neg (by decide), hsub,
    Option.bind_none]

theorem frame_len_overflow (h1 : q.intra ≠ 1) (h : ¬ q.Endless) (hip : q.ip ≠ 1)
    (hidr : q.idr + 1 = 2 ^ 31) (o : Nat) : q.frame o = none := by
  have hint : ¬ (q.intra : Int) = 1 := by omega
  have hlen : (if (q.intra : Int) = 0 then (0 : Int) else q.idr) = q.idr := by
    unfold Endless at h
    exact if_neg (by omega)
  have hsum : int32 ((q.idr : Int) + 1) = none := by
    have heq : (q.idr : Int) + 1 = 2 ^ 31 := by omega
    rw [heq]
    decide
  rw [frame, encoding2displayOrder, if_neg hint]
  dsimp only
  rw [encodingOrderGop, hlen, if_neg (by omega), if_neg (by omega), hsum, Option.bind_none,
    Option.bind_none]

/-- All frames are of one kind, or no `int` overflows and the frames do not go beyond a group
that an IDR frame cuts short. -/
def Unbroken (q : Periods) (n : Nat) : Prop :=
  n = 0 ∨ q.intra = 1 ∨
    if q.Endless then n ≤ 2 ^ 31
    else q.ip = 1 ∨ q.idr + 1 < 2 ^ 31 ∧ (q.ip ∣ q.idr ∨ n ≤ q.idr)

theorem reorders_of_whole {n : Nat} (h1 : q.intra ≠ 1) (hL : Whole q.ip q.seqLen)
    (hlen : q.seqLen < 2 ^ 31) (hn : q.Endless → n ≤ 2 ^ 31) (hfit : n + q.ip ≤ 2 ^ 64) :
    q.Reorders n := by
  refine reorders_of_frame hL (fun o ho => ?_) fun m _ hc => hc.resolve_left h1
  apply frame_eq h1 hlen _ (by omega)
  by_cases hend : q.Endless
  · rw [seqLen_of_endless hend, Nat.mod_zero]
    exact lt_of_lt_of_le ho (hn hend)
  · have hpos : 0 < q.seqLen := by
      unfold Endless at hend
      rw [seqLen_of_not_endless (by exact hend)]
      omega
    exact lt_trans (Nat.mod_lt o hpos) hlen

theorem reorders_of_unbroken {n : Nat} (h : q.Unbroken n) (hfit : n + q.ip ≤ 2 ^ 64) :
    q.Reorders n := by
  rcases h with rfl | h1 | h
  · refine reorders_of_frame (L := 0) (Or.inl rfl) (fun o ho => absurd ho (Nat.not_lt_zero o)) ?_
    intro m hm _
    exact Or.inl (by omega)
  · exact reorders_intra h1 n
  · by_cases h1 : q.intra = 1
    · exact reorders_intra h1 n
    by_cases hend : q.Endless
    · rw [if_pos hend] at h
      have hL := seqLen_of_endless hend
      exact reorders_of_whole h1 (Or.inl hL) (by omega) (fun _ => h) hfit
    rw [if_neg hend] at h
    have hidr := q.idr_lt
    have hL := seqLen_of_not_endless hend
    by_cases hip : q.ip = 1
    · rw [if_pos hip, Nat.add_zero] at hL
      refine reorders_of_whole h1 (Or.inr ?_) (by omega) (fun he => absurd he hend) hfit
      rw [hip]
      exact one_dvd _
    rw [if_neg hip] at hL
    rcases h with h | ⟨hlen, hd | hn⟩
    · exact absurd h hip
    · refine reorders_of_whole h1 (Or.inr ?_) (by omega) (fun he => absurd he hend) hfit
      rw [hL, Nat.add_sub_cancel]
      exact hd
    · -- the frames stay within the first sequence, which might as well have no end
      have hmod : ∀ o ≤ n, o % q.seqLen = o := fun o ho => Nat.mod_eq_of_lt (by omega)
      refine reorders_of_frame (L := 0) (Or.inl rfl) (fun o ho => ?_) fun m hm hc => ?_
      · have hself := hmod o ho.le
        rw [frame_eq h1 (by omega) (by omega) (by omega), displayOrder, displayOrder, hself,
          Nat.mod_zero]
      · have hg := hc.resolve_left h1
        unfold GroupStart at hg ⊢
        rw [hmod m hm] at hg
        rw [Nat.mod_zero]
        exact hg

/-- A group that is cut short is shown after the next IDR frame and leaves a gap before it. -/
theorem not_reorders_of_cut {n : Nat} (h1 : q.intra ≠ 1) (hend : ¬ q.Endless) (hip : q.ip ≠ 1)
    (hlen : q.idr + 1 < 2 ^ 31) (hcut : ¬ q.ip ∣ q.idr) (hn : q.idr < n)
    (hfit : n + q.ip ≤ 2 ^ 64) : ¬ q.Reorders n := by
  intro hr
  have hL := seqLen_of_not_endless hend
  rw [if_neg hip] at hL
  have hidr : 0 < q.idr := by
    unfold Endless at hend
    omega
  have hcut' : ¬ q.ip ∣ q.seqLen - 1 := by
    rw [hL, Nat.add_sub_cancel]
    exact hcut
  have hdisp : ∀ o < q.seqLen, q.display o = some (displayOrder q.ip q.seqLen o) := by
    intro o ho
    rw [display, frame_eq h1 (by omega) (by rw [Nat.mod_eq_of_lt ho]; omega) (by omega),
      Option.map_some]
  obtain ⟨hmiss, o, ho, hlate⟩ := displayOrder_cut q.ip_pos (by omega) hcut'
  obtain ⟨o', ho', heq⟩ := hr.noGap q.seqLen (by omega) (Or.inr (Or.inl (Nat.mod_self _))) o ho _
    (hdisp o ho) (q.seqLen - 1) (by omega)
  rw [hdisp o' ho'] at heq
  exact hmiss o' ho' (Option.some.inj heq)

/-- The code reorders `n` frames exactly where nothing overflows and no group of B frames is cut
short. -/
theorem reorders_iff (q : Periods) (n : Nat) (hfit : n + q.ip ≤ 2 ^ 64) :
    q.Reorders n ↔ q.Unbroken n := by
  refine ⟨fun hr => ?_, fun h => reorders_of_unbroken h hfit⟩
  by_contra hbad
  have hn : n ≠ 0 := fun h => hbad (Or.inl h)
  have h1 : q.intra ≠ 1 := fun h => hbad (Or.inr (Or.inl h))
  have hif : ¬ if q.Endless then n ≤ 2 ^ 31
      else q.ip = 1 ∨ q.idr + 1 < 2 ^ 31 ∧ (q.ip ∣ q.idr ∨ n ≤ q.idr) :=
    fun h => hbad (Or.inr (Or.inr h))
  by_cases hend : q.Endless
  · rw [if_pos hend] at hif
    have hdef := hr.defined (2 ^ 31) (by omega)
    rw [frame_overflow h1 hend] at hdef
    cases hdef
  · rw [if_neg hend] at hif
    have hip : q.ip ≠ 1 := fun h => hif (Or.inl h)
    have hidr := q.idr_lt
    by_cases hlen : q.idr + 1 < 2 ^ 31
    · have hcut : ¬ q.ip ∣ q.idr := fun h => hif (Or.inr ⟨hlen, Or.inl h⟩)
      have hlong : q.idr < n := by
        by_contra h
        exact hif (Or.inr ⟨hlen, Or.inr (by omega)⟩)
      exact not_reorders_of_cut h1 hend hip hlen hcut hlong hfit hr
    · have hdef := hr.defined 0 (by omega)
      rw [frame_len_overflow h1 hend hip (by omega)] at hdef
      cases hdef

/-- 7/21/3: every group of three is complete before the next IDR frame. -/
theorem reorders_7_21_3 :
    Reorders ⟨7, 21, 3, by decide, by decide, by decide, by decide, by decide⟩ 100 := by
  refine (reorders_iff _ 100 (by decide)).mpr (Or.inr (Or.inr ?_))
  rw [if_neg (by decide)]
  exact Or.inr ⟨by decide, Or.inl (by decide)⟩

/-- 7/7/3, the last example of the comment: an I frame is shown after the next IDR frame, in the
place of a B frame of the new sequence. -/
theorem cut_7_7_3 :
    let q : Periods := ⟨7, 7, 3, by decide, by decide, by decide, by decide, by decide⟩
    q.frame 7 = some (9, .i) ∧ q.frame 8 = some (8, .idr) ∧ q.frame 10 = some (9, .b) ∧
      ¬ q.Reorders 11 := by
  intro q
  have h7 : q.frame 7 = some (9, .i) := by decide
  have h8 : q.frame 8 = some (8, .idr) := by decide
  have h10 : q.frame 10 = some (9, .b) := by decide
  refine ⟨h7, h8, h10, fun hr => ?_⟩
  have heq : q.display 7 = q.display 10 := by
    rw [display, display, h7, h10]
    rfl
  have := hr.distinct 7 (by decide) 10 (by decide) heq
  omega

end Periods

end Hprd.Codec.Hevc

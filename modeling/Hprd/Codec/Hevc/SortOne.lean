import Hprd.Codec.Hevc.RefPicList
import Hprd.Core.HoareSort

/-!
# Sorting pictures

`sort_one` on an array of any size. Its accesses are confined to a span of positions,
and the middle of a range is found with the sum of an `int`, which wraps.
-/

namespace Hprd.Codec.Hevc

open Hprd.Core Hprd.Core.Hoare

def middle (left right : Int) : Int := (wrapInt32 (left + right)).tdiv 2

/-- `sort_one` with accesses to the positions of a span only. -/
def sortOneIn (s : Span) (ascending : Bool) (rounds depth : Nat) (ref : Pictures)
    (left right : Int) : Option Pictures :=
  Hoare.sort s (fun pivot => beforeKey pivot.picOrderCnt ascending)
    (fun pivot => beforeKey pivot.picOrderCnt !ascending) middle rounds depth ref left right

/-- The entries from `left` to `right`. -/
def slice (ref : Pictures) (left right : Int) : List VAPictureHevc :=
  (List.range' left.toNat (right + 1 - left).toNat).map ref

/-- The order that is asked for. -/
def InOrder (ascending : Bool) (a b : VAPictureHevc) : Prop :=
  if ascending then a.picOrderCnt ≤ b.picOrderCnt else b.picOrderCnt ≤ a.picOrderCnt

/-- The sort ends without an access outside of `left` to `right`, leaves the other positions
alone and puts these in order. -/
def Sorts (ascending : Bool) (ref : Pictures) (left right : Int) : Prop :=
  ∃ rounds depth ref', sortOneIn ⟨left, right⟩ ascending rounds depth ref left right = some ref' ∧
    (∀ p : Nat, (p : Int) < left ∨ right < p → ref' p = ref p) ∧
    (slice ref' left right).Perm (slice ref left right) ∧
    ∀ p q : Nat, left ≤ p → p ≤ q → q ≤ right → InOrder ascending (ref' p) (ref' q)

/-- The key that grows in the direction of the sort. -/
def directedKey (ascending : Bool) (pic : VAPictureHevc) : Int :=
  if ascending then pic.picOrderCnt else -pic.picOrderCnt

theorem beforeKey_compares (ascending : Bool) :
    Compares (fun pivot : VAPictureHevc => beforeKey pivot.picOrderCnt ascending)
      (fun pivot => beforeKey pivot.picOrderCnt !ascending) (directedKey ascending) := by
  constructor
  · intro pivot x
    cases ascending <;> simp [beforeKey, directedKey]
  · intro pivot x
    cases ascending <;> simp [beforeKey, directedKey]

theorem inOrder_iff {ascending : Bool} {a b : VAPictureHevc} :
    InOrder ascending a b ↔ directedKey ascending a ≤ directedKey ascending b := by
  cases ascending <;> simp [InOrder, directedKey]

/-- Below `2 ^ 30` the sum of two positions is an `int`. -/
theorem middle_mem {l r : Int} (h0 : 0 ≤ l) (hle : l ≤ r) (hr : r < 2 ^ 30) :
    l ≤ middle l r ∧ middle l r ≤ r := by
  have hsum : wrapInt32 (l + r) = l + r := wrapInt32_of_fits (by omega) (by omega)
  rw [middle, hsum, Int.tdiv_eq_ediv_of_nonneg (by omega)]
  omega

/-- `sort_one` sorts any range of an array of at most `2 ^ 30` entries. -/
theorem sortOne_sorts (ascending : Bool) (ref : Pictures) {left right : Int} (h0 : 0 ≤ left)
    (hle : left ≤ right) (hright : right < 2 ^ 30) : Sorts ascending ref left right := by
  obtain ⟨ref', hsort, hre, hsorted⟩ := @sort_spec _ _ _ _ _ _ ⟨left, right⟩ left right
    (right - left + 2).toNat middle ref (right - left + 2).toNat (beforeKey_compares ascending) h0
    (fun l r hl hlr hr => middle_mem (le_trans h0 hl) hlr (lt_of_le_of_lt hr hright)) le_rfl hle
    le_rfl (by simp only; omega) (by omega)
  refine ⟨_, _, ref', hsort, fun p hp => hre.frame hp, hre.perm h0, ?_⟩
  intro p q hp hpq hq
  exact inOrder_iff.mpr (hsorted p q hp hpq hq)

/-- Three pictures of which two have the same count. -/
theorem sortOne_sorts_three :
    (0 : Int) ≤ 0 ∧ (0 : Int) ≤ 2 ∧ (2 : Int) < 2 ^ 30 ∧
      Sorts false (fun p => if p = 1 then ⟨1, -4⟩ else ⟨p, 7⟩) 0 2 :=
  ⟨by decide, by decide, by decide, sortOne_sorts false _ (by decide) (by decide) (by decide)⟩

/-- In an array of more than `2 ^ 30` entries the middle of the last one is before the array. -/
theorem sortOne_middle_wraps : middle (2 ^ 30) (2 ^ 30) = -2 ^ 30 ∧
    ∀ ascending ref, ¬ Sorts ascending ref (2 ^ 30) (2 ^ 30) := by
  have hmiddle : middle (2 ^ 30) (2 ^ 30) = -2 ^ 30 := by
    have hwrap : wrapInt32 (2 ^ 30 + 2 ^ 30) = -2 ^ 31 := by
      unfold wrapInt32
      rw [Int.bmod_def]
      omega
    rw [middle, hwrap]
    rfl
  refine ⟨hmiddle, ?_⟩
  rintro ascending ref ⟨rounds, depth, ref', hsort, -⟩
  cases depth with
  | zero => cases hsort
  | succ depth =>
      have hload : Span.load ⟨2 ^ 30, 2 ^ 30⟩ ref (-2 ^ 30) = none := if_neg (by simp only; omega)
      rw [sortOneIn, Hoare.sort, hmiddle, hload] at hsort
      cases hsort

/-! ### The arrays of the encoder -/

/-- The positions of the arrays that are sorted. -/
def refPicListSpan : Span := ⟨0, refPicListSize - 1⟩

theorem load_eq_span (ref : Pictures) (i : Int) : ref.load i = refPicListSpan.load ref i := by
  unfold Pictures.load Span.load
  apply if_congr _ rfl rfl
  show 0 ≤ i ∧ i < 32 ↔ 0 ≤ i ∧ i ≤ 32 - 1
  omega

theorem scan_eq_span (before : VAPictureHevc → Bool) (ref : Pictures) (step : Int) (rounds : Nat)
    (i : Int) : scan before ref step rounds i =
      Hoare.scan refPicListSpan before ref step rounds i := by
  induction rounds generalizing i with
  | zero => rfl
  | succ rounds ih =>
      rw [scan, Hoare.scan, load_eq_span]
      congr 1
      funext pic
      rw [ih]

theorem partitionPics_eq_span (key : Int) (ascending : Bool) (passes : Nat) (ref : Pictures)
    (i j : Int) : partitionPics key ascending passes ref i j =
      Hoare.partition refPicListSpan (beforeKey key ascending) (beforeKey key !ascending)
        scanRounds passes ref i j := by
  induction passes generalizing ref i j with
  | zero => rfl
  | succ passes ih =>
      rw [partitionPics, Hoare.partition]
      by_cases hij : i ≤ j
      · rw [if_pos hij, if_pos hij, Hoare.round, scan_eq_span, Option.bind_assoc]
        congr 1
        funext i'
        rw [scan_eq_span, Option.bind_assoc]
        congr 1
        funext j'
        rw [Option.bind_some]
        split
        · exact ih _ _ _
        · exact ih _ _ _
      · rw [if_neg hij, if_neg hij]

/-- The sort of the reference lists is the exchange sort on their span. -/
theorem sortOne_eq_span (ascending : Bool) (depth : Nat) (ref : Pictures) (left right : Int) :
    sortOne ascending depth ref left right =
      Hoare.sort refPicListSpan (fun pivot => beforeKey pivot.picOrderCnt ascending)
        (fun pivot => beforeKey pivot.picOrderCnt !ascending) (fun l r => (l + r).tdiv 2)
        scanRounds depth ref left right := by
  induction depth generalizing ref left right with
  | zero => rfl
  | succ depth ih =>
      rw [sortOne, Hoare.sort, load_eq_span]
      congr 1
      funext pivot
      rw [partitionPics_eq_span]
      congr 1
      funext r
      obtain ⟨ref, i, j⟩ := r
      dsimp only
      rw [ih]
      congr 1
      funext ref
      rw [ih]

/-- Any stretch of a reference list comes out in the order that is asked for. -/
theorem sortOne_list {ascending : Bool} {ref : Pictures} {left right : Int} (h0 : 0 ≤ left)
    (hle : left ≤ right) (hright : right < refPicListSize) :
    ∃ ref', sortOne ascending scanRounds ref left right = some ref' ∧
      Rearranged left right ref ref' ∧ Sorted (directedKey ascending) left right ref' := by
  have hsize : right < 32 := hright
  have hmid : ∀ l r : Int, 0 ≤ l → l ≤ r → r ≤ 32 - 1 →
      l ≤ (l + r).tdiv 2 ∧ (l + r).tdiv 2 ≤ r := by
    intro l r hl hlr hr
    rw [Int.tdiv_eq_ediv_of_nonneg (by omega)]
    omega
  rw [sortOne_eq_span]
  have hspan : right ≤ refPicListSpan.last := by
    show right ≤ 32 - 1
    omega
  have hrounds : refPicListSpan.last - refPicListSpan.first + 2 ≤ (scanRounds : Int) := by decide
  have hdepth : right - left < (scanRounds : Int) := by
    show right - left < 33
    omega
  exact sort_spec (beforeKey_compares ascending) le_rfl hmid h0 hle hspan hrounds hdepth

end Hprd.Codec.Hevc

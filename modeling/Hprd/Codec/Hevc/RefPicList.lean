import Hprd.Core.CInt

/-!
# Reference pictures

The encoder keeps the last reference frames, newest first, and sorts copies of them
into the reference lists of a slice. The sequence parameter set tells a decoder the
same pictures as differences to the current picture order count.
-/

namespace Hprd.Codec.Hevc

open Hprd.Core

structure VAPictureHevc where
  pictureId : Nat
  picOrderCnt : Int
deriving DecidableEq, Repr

/-- A static array of pictures. -/
abbrev Pictures := Nat → VAPictureHevc

def refPicListSize : Nat := 32

namespace Pictures

def load (ref : Pictures) (i : Int) : Option VAPictureHevc :=
  if 0 ≤ i ∧ i < refPicListSize then some (ref i.toNat) else none

def swap (ref : Pictures) (i j : Int) : Pictures :=
  Function.update (Function.update ref i.toNat (ref j.toNat)) j.toNat (ref i.toNat)

end Pictures

def memcpy (dst src : Pictures) (n : Nat) : Pictures := fun i => if i < n then src i else dst i

/-- `while (ref[i].field < key) i += step`. An index that leaves the array has no value, so that
the count of rounds is never reached. -/
def scan (before : VAPictureHevc → Bool) (ref : Pictures) (step : Int) : Nat → Int → Option Int
  | 0, _ => none
  | rounds + 1, i =>
      (ref.load i).bind fun pic =>
        if before pic then scan before ref step rounds (i + step) else some i

/-- The rounds of a loop that moves through the array. -/
def scanRounds : Nat := 33

/-- The side of the key that a loop of `partition` leaves alone. -/
def beforeKey (key : Int) (ascending : Bool) (pic : VAPictureHevc) : Bool :=
  if ascending then pic.picOrderCnt < key else key < pic.picOrderCnt

/-- The macro `partition`: the array and both indices as it leaves them. -/
def partitionPics (key : Int) (ascending : Bool) :
    Nat → Pictures → Int → Int → Option (Pictures × Int × Int)
  | 0, _, _, _ => none
  | rounds + 1, ref, i, j =>
      if i ≤ j then
        (scan (beforeKey key ascending) ref 1 scanRounds i).bind fun i =>
        (scan (beforeKey key !ascending) ref (-1) scanRounds j).bind fun j =>
          if i ≤ j then partitionPics key ascending rounds (ref.swap i j) (i + 1) (j - 1)
          else partitionPics key ascending rounds ref i j
      else some (ref, i, j)

/-- Both halves are shorter than the array, so that the depth is never reached. -/
def sortOne (ascending : Bool) : Nat → Pictures → Int → Int → Option Pictures
  | 0, _, _, _ => none
  | depth + 1, ref, left, right =>
      (ref.load ((left + right).tdiv 2)).bind fun mid =>
      (partitionPics mid.picOrderCnt ascending scanRounds ref left right).bind fun (ref, i, j) =>
      (if left < j then sortOne ascending depth ref left j else some ref).bind fun ref =>
        if i < right then sortOne ascending depth ref i right else some ref

def sortTwo (ref : Pictures) (left right key : Int)
    (partitionAscending list0Ascending list1Ascending : Bool) : Option Pictures :=
  (partitionPics key partitionAscending scanRounds ref left right).bind fun (ref, i, j) =>
  (sortOne list0Ascending scanRounds ref left (i - 1)).bind fun ref =>
    sortOne list1Ascending scanRounds ref (j + 1) right

/-! ### Sorting one or two pictures -/

section

variable {ref : Pictures} {before : VAPictureHevc → Bool} {step i : Int}

theorem load_natCast {k : Nat} (h : k < 32) : ref.load k = some (ref k) := by
  unfold Pictures.load refPicListSize
  rw [if_pos (by omega), Int.toNat_natCast]

theorem scan_stop {pic : VAPictureHevc} {rounds : Nat} (h : ref.load i = some pic)
    (hb : before pic = false) : scan before ref step (rounds + 1) i = some i := by
  rw [scan, h, Option.bind_some, hb]
  rfl

theorem scan_next {pic pic' : VAPictureHevc} {rounds : Nat} (h : ref.load i = some pic)
    (hb : before pic = true) (h' : ref.load (i + step) = some pic') (hb' : before pic' = false) :
    scan before ref step (rounds + 2) i = some (i + step) := by
  rw [scan, h, Option.bind_some, hb, if_pos rfl]
  exact scan_stop h' hb'

theorem swap_self (ref : Pictures) (i : Int) : ref.swap i i = ref := by
  simp [Pictures.swap]

theorem beforeKey_self (pic : VAPictureHevc) (ascending : Bool) :
    beforeKey pic.picOrderCnt ascending pic = false := by
  simp [beforeKey]

theorem partitionPics_stop {key : Int} {ascending : Bool} {rounds : Nat} {j : Int} (h : j < i) :
    partitionPics key ascending (rounds + 1) ref i j = some (ref, i, j) := by
  rw [partitionPics, if_neg (by omega)]

/-- Both loops end before the indices cross, and cross with the exchange. -/
theorem partitionPics_swap {key : Int} {ascending : Bool} {rounds : Nat} {j i' j' : Int}
    (hij : i ≤ j) (hi : scan (beforeKey key ascending) ref 1 scanRounds i = some i')
    (hj : scan (beforeKey key !ascending) ref (-1) scanRounds j = some j') (hle : i' ≤ j')
    (hcross : j' - 1 < i' + 1) :
    partitionPics key ascending (rounds + 2) ref i j = some (ref.swap i' j', i' + 1, j' - 1) := by
  rw [partitionPics, if_pos hij, hi, Option.bind_some, hj, Option.bind_some, if_pos hle]
  exact partitionPics_stop hcross

/-- Both loops run until the indices have crossed. -/
theorem partitionPics_cross {key : Int} {ascending : Bool} {rounds : Nat} {j i' j' : Int}
    (hij : i ≤ j) (hi : scan (beforeKey key ascending) ref 1 scanRounds i = some i')
    (hj : scan (beforeKey key !ascending) ref (-1) scanRounds j = some j') (hlt : j' < i') :
    partitionPics key ascending (rounds + 2) ref i j = some (ref, i', j') := by
  rw [partitionPics, if_pos hij, hi, Option.bind_some, hj, Option.bind_some,
    if_neg (by omega)]
  exact partitionPics_stop hlt

theorem sortOne_single {ascending : Bool} {depth k : Nat} (hk : k < 32) :
    sortOne ascending (depth + 1) ref k k = some ref := by
  have hload := @load_natCast ref k hk
  have hmid : ((k : Int) + k).tdiv 2 = k := by
    rw [Int.tdiv_eq_ediv_of_nonneg (by omega)]
    omega
  have hstop : ∀ (asc : Bool) (step : Int),
      scan (beforeKey (ref k).picOrderCnt asc) ref step scanRounds k = some (k : Int) :=
    fun asc step => scan_stop hload (beforeKey_self _ asc)
  have hpart : partitionPics (ref k).picOrderCnt ascending scanRounds ref k k =
      some (ref, (k : Int) + 1, (k : Int) - 1) := by
    have h : partitionPics (ref k).picOrderCnt ascending scanRounds ref k k =
        some (ref.swap k k, (k : Int) + 1, (k : Int) - 1) :=
      partitionPics_swap le_rfl (hstop ascending 1) (hstop (!ascending) (-1)) le_rfl (by omega)
    rw [h, swap_self]
  rw [sortOne, hmid, hload, Option.bind_some, hpart, Option.bind_some]
  dsimp only
  rw [if_neg (by omega), Option.bind_some, if_neg (by omega)]

theorem sortOne_pair (h : (ref 1).picOrderCnt < (ref 0).picOrderCnt) :
    sortOne false scanRounds ref 0 1 = some ref := by
  have h0 : ref.load 0 = some (ref 0) := load_natCast (k := 0) (by decide)
  have h1 : ref.load 1 = some (ref 1) := load_natCast (k := 1) (by decide)
  have hi : scan (beforeKey (ref 0).picOrderCnt false) ref 1 scanRounds 0 = some 0 :=
    scan_stop h0 (beforeKey_self _ _)
  have hj : scan (beforeKey (ref 0).picOrderCnt true) ref (-1) scanRounds 1 = some 0 :=
    scan_next h1 (by simpa [beforeKey] using h) h0 (beforeKey_self _ _)
  have hpart : partitionPics (ref 0).picOrderCnt false scanRounds ref 0 1 =
      some (ref.swap 0 0, 1, -1) :=
    partitionPics_swap (by decide) hi hj le_rfl (by decide)
  rw [scanRounds, sortOne]
  show (ref.load 0).bind _ = _
  rw [h0, Option.bind_some, hpart, Option.bind_some, swap_self]
  rfl

/-- Ascending around the current picture: the past one comes first. -/
theorem sortTwo_past {key : Int} (h1 : (ref 1).picOrderCnt < key) (h0 : key < (ref 0).picOrderCnt) :
    sortTwo ref 0 1 key true false true = some (ref.swap 0 1) := by
  have hl0 : ref.load 0 = some (ref 0) := load_natCast (k := 0) (by decide)
  have hl1 : ref.load 1 = some (ref 1) := load_natCast (k := 1) (by decide)
  have hi : scan (beforeKey key true) ref 1 scanRounds 0 = some 0 :=
    scan_stop hl0 (by simp [beforeKey]; omega)
  have hj : scan (beforeKey key false) ref (-1) scanRounds 1 = some 1 :=
    scan_stop hl1 (by simp [beforeKey]; omega)
  have hpart : partitionPics key true scanRounds ref 0 1 = some (ref.swap 0 1, 1, 0) :=
    partitionPics_swap (by decide) hi hj (by decide) (by decide)
  have hleft : sortOne false scanRounds (ref.swap 0 1) 0 0 = some (ref.swap 0 1) :=
    sortOne_single (k := 0) (by decide)
  have hright : sortOne true scanRounds (ref.swap 0 1) 1 1 = some (ref.swap 0 1) :=
    sortOne_single (k := 1) (by decide)
  rw [sortTwo, hpart, Option.bind_some]
  show (sortOne false scanRounds (ref.swap 0 1) 0 0).bind _ = _
  rw [hleft, Option.bind_some]
  exact hright

/-- Descending around the current picture: the future one comes first. -/
theorem sortTwo_future {key : Int} (h1 : (ref 1).picOrderCnt < key)
    (h0 : key < (ref 0).picOrderCnt) : sortTwo ref 0 1 key false true false = some ref := by
  have hl0 : ref.load 0 = some (ref 0) := load_natCast (k := 0) (by decide)
  have hl1 : ref.load 1 = some (ref 1) := load_natCast (k := 1) (by decide)
  have hi : scan (beforeKey key false) ref 1 scanRounds 0 = some 1 :=
    scan_next hl0 (by simpa [beforeKey] using h0) hl1 (by simp [beforeKey]; omega)
  have hj : scan (beforeKey key true) ref (-1) scanRounds 1 = some 0 :=
    scan_next hl1 (by simpa [beforeKey] using h1) hl0 (by simp [beforeKey]; omega)
  have hpart : partitionPics key false scanRounds ref 0 1 = some (ref, 1, 0) :=
    partitionPics_cross (by decide) hi hj (by decide)
  have hleft : sortOne true scanRounds ref 0 0 = some ref := sortOne_single (k := 0) (by decide)
  have hright : sortOne false scanRounds ref 1 1 = some ref := sortOne_single (k := 1) (by decide)
  rw [sortTwo, hpart, Option.bind_some]
  show (sortOne true scanRounds ref 0 0).bind _ = _
  rw [hleft, Option.bind_some]
  exact hright

end

end Hprd.Codec.Hevc

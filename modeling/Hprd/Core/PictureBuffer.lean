import Mathlib.Data.List.Sort

/-!
# Decoded pictures

What a decoder keeps: the pictures that later ones refer to, and those that wait to be
shown. Ahead of each picture those that its reference picture set does not name are
given up, and the waiting ones are shown in the order of their counts when the limits
of the stream demand it.
-/

namespace Hprd.Core

/-- A coded picture, with the counts of the pictures that must be kept for it. -/
structure CodedPicture (α : Type) where
  idr : Bool
  poc : Int
  refPicSet : List Int
  frame : α

/-- The limits that a stream promises to respect. -/
structure BufferLimits where
  maxDecPicBufferingMinus1 : Nat
  maxNumReorderPics : Nat

/-- Pictures that wait are in the order of their counts. -/
structure PictureBuffer (α : Type) where
  refs : List Int
  waiting : List (Int × α)
  shown : List α

namespace PictureBuffer

variable {α : Type}

def empty : PictureBuffer α := ⟨[], [], []⟩

/-- The order in which pictures are shown. -/
def Ahead (a b : Int × α) : Prop := a.1 ≤ b.1

instance : DecidableRel (@Ahead α) := fun a b => inferInstanceAs (Decidable (a.1 ≤ b.1))

def fullness (refs : List Int) (waiting : List (Int × α)) : Nat :=
  refs.length + (waiting.filter fun pic => pic.1 ∉ refs).length

def bump (more : List (Int × α) → Bool) : List (Int × α) → List α × List (Int × α)
  | [] => ([], [])
  | pic :: waiting =>
      if more (pic :: waiting) then
        let (shown, rest) := bump more waiting
        (pic.2 :: shown, rest)
      else ([], pic :: waiting)

/-- Ahead of a picture: only its references stay, and there is room for it. -/
def makeRoom (limits : BufferLimits) (b : PictureBuffer α) (pic : CodedPicture α) :
    PictureBuffer α :=
  if pic.idr then { refs := [], waiting := [], shown := b.shown ++ b.waiting.map Prod.snd }
  else
    let refs := b.refs.filter (· ∈ pic.refPicSet)
    let (shown, waiting) := bump (fun waiting =>
      limits.maxNumReorderPics < waiting.length ∨
        limits.maxDecPicBufferingMinus1 < fullness refs waiting) b.waiting
    { refs, waiting, shown := b.shown ++ shown }

def decode (limits : BufferLimits) (b : PictureBuffer α) (pic : CodedPicture α) :
    PictureBuffer α :=
  let b := b.makeRoom limits pic
  let (shown, waiting) := bump (fun waiting => limits.maxNumReorderPics < waiting.length)
    (b.waiting.orderedInsert Ahead (pic.poc, pic.frame))
  { refs := pic.poc :: b.refs, waiting, shown := b.shown ++ shown }

section

variable {more : List (Int × α) → Bool} {waiting : List (Int × α)}

/-- A part is shown, and what stays is not too much. -/
theorem bump_spec (more : List (Int × α) → Bool) (waiting : List (Int × α)) :
    ∃ k ≤ waiting.length, bump more waiting = ((waiting.take k).map Prod.snd, waiting.drop k) ∧
      (waiting.drop k = [] ∨ more (waiting.drop k) = false) ∧
      (k ≠ 0 → more (waiting.drop (k - 1)) = true) := by
  induction waiting with
  | nil => exact ⟨0, Nat.le_refl _, rfl, .inl rfl, fun h => absurd rfl h⟩
  | cons pic waiting ih =>
      rw [bump]
      cases hmore : more (pic :: waiting) with
      | false =>
          rw [if_neg Bool.false_ne_true]
          exact ⟨0, Nat.zero_le _, rfl, .inr hmore, fun h => absurd rfl h⟩
      | true =>
          obtain ⟨k, hk, heq, hstop, hgo⟩ := ih
          rw [if_pos rfl, heq]
          refine ⟨k + 1, Nat.succ_le_succ hk, rfl, hstop, fun _ => ?_⟩
          cases k with
          | zero => exact hmore
          | succ k => exact hgo (Nat.succ_ne_zero k)

theorem fullness_le (refs : List Int) (waiting : List (Int × α)) :
    fullness refs waiting ≤ refs.length + waiting.length :=
  Nat.add_le_add_left (List.length_filter_le ..) _

theorem orderedInsert_append {pic : Int × α} {first rest : List (Int × α)}
    (h : ∀ other ∈ first, other.1 < pic.1) :
    (first ++ rest).orderedInsert Ahead pic = first ++ rest.orderedInsert Ahead pic := by
  induction first with
  | nil => rfl
  | cons other first ih =>
      have hlt : ¬Ahead pic other := Int.not_le.mpr (h other (List.mem_cons_self ..))
      rw [List.cons_append, List.orderedInsert, if_neg hlt,
        ih fun other hin => h other (List.mem_cons_of_mem _ hin), List.cons_append]

/-! ### Room -/

theorem makeRoom_idr (limits : BufferLimits) (b : PictureBuffer α) {pic : CodedPicture α}
    (h : pic.idr = true) : b.makeRoom limits pic =
      { refs := [], waiting := [], shown := b.shown ++ b.waiting.map Prod.snd } := if_pos h

theorem refs_makeRoom (limits : BufferLimits) (b : PictureBuffer α) {pic : CodedPicture α}
    (h : pic.idr = false) :
    (b.makeRoom limits pic).refs = b.refs.filter (· ∈ pic.refPicSet) := by
  rw [makeRoom, h, if_neg Bool.false_ne_true]

/-- Unless nothing waits any more there is room for one picture. -/
theorem fullness_makeRoom (limits : BufferLimits) (b : PictureBuffer α) (pic : CodedPicture α) :
    let room := b.makeRoom limits pic
    fullness room.refs room.waiting ≤ max room.refs.length limits.maxDecPicBufferingMinus1 := by
  intro room
  by_cases hidr : pic.idr = true
  · rw [show room = _ from makeRoom_idr limits b hidr]
    exact Nat.zero_le _
  · obtain ⟨k, -, heq, hstop, -⟩ := bump_spec (fun waiting : List (Int × α) =>
      limits.maxNumReorderPics < waiting.length ∨
        limits.maxDecPicBufferingMinus1 < fullness (b.refs.filter (· ∈ pic.refPicSet)) waiting)
      b.waiting
    have hroom : room = ⟨b.refs.filter (· ∈ pic.refPicSet), b.waiting.drop k,
        b.shown ++ (b.waiting.take k).map Prod.snd⟩ := by
      show makeRoom limits b pic = _
      rw [makeRoom, if_neg hidr]
      dsimp only
      rw [heq]
    rw [hroom]
    rcases hstop with hnil | hfew
    · dsimp only
      rw [hnil]
      exact Nat.le_max_left ..
    · have hle := of_decide_eq_false hfew
      rw [not_or] at hle
      exact (Nat.le_of_not_lt hle.2).trans (Nat.le_max_right ..)

theorem fullness_decode (limits : BufferLimits) (b : PictureBuffer α) (pic : CodedPicture α) :
    let room := b.makeRoom limits pic
    let next := b.decode limits pic
    next.refs = pic.poc :: room.refs ∧
      fullness next.refs next.waiting ≤ fullness room.refs room.waiting + 1 := by
  intro room next
  obtain ⟨k, -, heq, -, -⟩ := bump_spec (fun waiting : List (Int × α) =>
    limits.maxNumReorderPics < waiting.length)
    (room.waiting.orderedInsert Ahead (pic.poc, pic.frame))
  have hnext : next = ⟨pic.poc :: room.refs,
      (room.waiting.orderedInsert Ahead (pic.poc, pic.frame)).drop k, next.shown⟩ := by
    show decode limits b pic = ⟨_, _, (decode limits b pic).shown⟩
    rw [decode]
    dsimp only
    rw [heq]
  rw [hnext]
  refine ⟨rfl, ?_⟩
  have hdrop := ((List.drop_sublist k
    (room.waiting.orderedInsert Ahead (pic.poc, pic.frame))).filter
      fun other => other.1 ∉ pic.poc :: room.refs).length_le
  have hperm := ((List.perm_orderedInsert Ahead (pic.poc, pic.frame) room.waiting).filter
    fun other => other.1 ∉ pic.poc :: room.refs).length_eq
  have hself : ((pic.poc, pic.frame) :: room.waiting).filter
      (fun other => other.1 ∉ pic.poc :: room.refs) =
      room.waiting.filter fun other => other.1 ∉ pic.poc :: room.refs :=
    List.filter_cons_of_neg (by simp)
  have hless : (room.waiting.filter fun other => other.1 ∉ pic.poc :: room.refs).length ≤
      (room.waiting.filter fun other => other.1 ∉ room.refs).length := by
    refine (List.monotone_filter_right _ fun other hother => ?_).length_le
    have hnot := of_decide_eq_true hother
    exact decide_eq_true fun hin => hnot (List.mem_cons_of_mem _ hin)
  rw [hself] at hperm
  unfold fullness
  dsimp only
  rw [List.length_cons]
  omega

end

end PictureBuffer

end Hprd.Core

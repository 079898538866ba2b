import Hprd.Common.BufferPool
import Hprd.Core.Ring

/-!
# `dev_id_queue` of `common/buffer_util.c`

Two free-running counters over slots numbered below `max_idx`. Positions whose slot
is not mapped are skipped by both. A loop that skips for ever has no value.
-/

namespace Hprd.Common

open Hprd.Core

structure Buf where
  isUsed : Bool
  isFree : Bool

structure DevIdQueue where
  bufs : Nat → Buf
  headBufId : Nat
  tailBufId : Nat
  maxIdx : Nat

namespace DevIdQueue

/-- `++` on a `uint64_t` -/
def inc (n : Nat) : Nat := (n + 1) % 2 ^ 64

def mapped (q : DevIdQueue) (pos : Nat) : Bool := (q.bufs (pos % q.maxIdx)).isUsed

def free (q : DevIdQueue) (pos : Nat) : Bool := (q.bufs (pos % q.maxIdx)).isFree

/-- `while(!bufs[pos % max_idx].is_used) pos++;` -/
def skip (q : DevIdQueue) : Nat → Nat → Option Nat
  | 0, _ => none
  | fuel + 1, pos => if q.mapped pos then some pos else skip q fuel (inc pos)

/-- Enough steps to see every slot, the wrap of the counter included. -/
def skipFuel (q : DevIdQueue) : Nat := 2 * q.maxIdx

def setFree (q : DevIdQueue) (id : Nat) (isFree : Bool) : DevIdQueue :=
  { q with bufs := Function.update q.bufs id { q.bufs id with isFree := isFree } }

def getBuf (q : DevIdQueue) : Option (Int × DevIdQueue) :=
  if q.tailBufId ≤ q.headBufId then some (-1, q)
  else
    (q.skip q.skipFuel q.headBufId).map fun head =>
      if q.free head then
        ((head % q.maxIdx : Nat),
          { q.setFree (head % q.maxIdx) false with headBufId := inc head })
      else (-1, { q with headBufId := head })

def putBuf (q : DevIdQueue) (bufId : Int) : Int × DevIdQueue :=
  if 0 < bufId ∧ bufId < maxBufferCount then
    if (q.bufs bufId.toNat).isFree then (-1, q) else (0, q.setFree bufId.toNat true)
  else (-1, q)

def getId (q : DevIdQueue) : Option (Int × DevIdQueue) :=
  if (q.headBufId + q.maxIdx) % 2 ^ 64 ≤ q.tailBufId then some (-1, q)
  else
    (q.skip q.skipFuel q.tailBufId).map fun tail =>
      (if q.free tail then (tail % q.maxIdx : Nat) else -1, { q with tailBufId := tail })

def subId (q : DevIdQueue) : DevIdQueue := { q with tailBufId := inc q.tailBufId }

def setStatus (q : DevIdQueue) (bufId : Int) (isUsed : Bool) : Int × DevIdQueue :=
  if 0 < bufId ∧ bufId < maxBufferCount then
    (0, { q with
      bufs := Function.update q.bufs bufId.toNat ⟨isUsed, isUsed⟩,
      maxIdx := if (q.maxIdx : Int) < bufId then bufId.toNat % 2 ^ 16 else q.maxIdx })
  else (-1, q)

/-- A zeroed queue with the ids of a list mapped one after another. -/
def mapAll (ids : List Int) : DevIdQueue :=
  ids.foldl (fun q id => (q.setStatus id true).2) ⟨fun _ => ⟨false, false⟩, 0, 0, 0⟩

section

variable (q : DevIdQueue) (id pos : Nat) (isFree : Bool)

@[simp] theorem setFree_maxIdx : (q.setFree id isFree).maxIdx = q.maxIdx := rfl

@[simp] theorem setFree_headBufId : (q.setFree id isFree).headBufId = q.headBufId := rfl

@[simp] theorem setFree_tailBufId : (q.setFree id isFree).tailBufId = q.tailBufId := rfl

@[simp] theorem setFree_isUsed (i : Nat) :
    ((q.setFree id isFree).bufs i).isUsed = (q.bufs i).isUsed := by
  by_cases h : i = id
  · subst h
    simp [setFree]
  · simp [setFree, h]

theorem setFree_isFree (i : Nat) :
    ((q.setFree id isFree).bufs i).isFree = if i = id then isFree else (q.bufs i).isFree := by
  by_cases h : i = id
  · subst h
    simp [setFree]
  · simp [setFree, h]

theorem mapped_add : q.mapped (pos + q.maxIdx) = q.mapped pos := by
  rw [mapped, mapped, Nat.add_mod_right]

end

/-! ## The skipping loop -/

theorem skip_eq_none {q : DevIdQueue} {fuel pos : Nat} (hpos : pos < 2 ^ 64) :
    q.skip fuel pos = none ↔ ∀ i, i < fuel → q.mapped ((pos + i) % 2 ^ 64) = false := by
  induction fuel generalizing pos with
  | zero => simp [skip]
  | succ fuel ih =>
      have hinc : inc pos < 2 ^ 64 := Nat.mod_lt _ (by decide)
      rw [skip]
      cases hm : q.mapped pos with
      | true =>
          simp only [if_true, reduceCtorEq, false_iff]
          intro h
          have h0 := h 0 (Nat.succ_pos _)
          rw [Nat.add_zero, Nat.mod_eq_of_lt hpos, hm] at h0
          cases h0
      | false =>
          simp only [Bool.false_eq_true, if_false]
          rw [ih hinc]
          have hshift : ∀ i, (inc pos + i) % 2 ^ 64 = (pos + (i + 1)) % 2 ^ 64 := by
            intro i
            rw [inc, Nat.mod_add_mod, Nat.add_assoc, Nat.add_comm 1 i]
          constructor
          · intro h i hi
            cases i with
            | zero => rw [Nat.add_zero, Nat.mod_eq_of_lt hpos, hm]
            | succ i =>
                rw [← hshift]
                exact h i (by omega)
          · intro h i hi
            rw [hshift]
            exact h (i + 1) (by omega)

theorem unmapped_of_skip {q : DevIdQueue} {pos : Nat} (hpos : pos < 2 ^ 64) (hmax : 0 < q.maxIdx)
    (hsmall : q.maxIdx < 2 ^ 64) (h : q.skip q.skipFuel pos = none) {j : Nat} (hj : j < q.maxIdx) :
    (q.bufs j).isUsed = false := by
  rw [skip_eq_none hpos] at h
  by_cases hwrap : pos + q.maxIdx ≤ 2 ^ 64
  · -- One lap from `pos` ends before the wrap.
    have hd := Nat.mod_lt pos hmax
    have hi := h ((j + q.maxIdx - pos % q.maxIdx) % q.maxIdx)
      (by have := Nat.mod_lt (j + q.maxIdx - pos % q.maxIdx) hmax; unfold skipFuel; omega)
    have hlt := Nat.mod_lt (j + q.maxIdx - pos % q.maxIdx) hmax
    rw [Nat.mod_eq_of_lt (by omega), mapped] at hi
    have hj' : (pos + (j + q.maxIdx - pos % q.maxIdx) % q.maxIdx) % q.maxIdx = j := by
      rw [Nat.add_mod_mod]
      have hp := Nat.div_add_mod pos q.maxIdx
      have he : pos + (j + q.maxIdx - pos % q.maxIdx) =
          j + q.maxIdx * (pos / q.maxIdx + 1) := by
        rw [Nat.mul_add]
        omega
      rw [he, Nat.add_mul_mod_self_left, Nat.mod_eq_of_lt hj]
    rwa [hj'] at hi
  · have hi := h (2 ^ 64 - pos + j) (by unfold skipFuel; omega)
    have he : (pos + (2 ^ 64 - pos + j)) % 2 ^ 64 = j := by omega
    rwa [he, mapped, Nat.mod_eq_of_lt hj] at hi

/-- A loop that has not ended when every slot was seen never ends. -/
theorem skip_diverges {q : DevIdQueue} {pos : Nat} (hpos : pos < 2 ^ 64) (hmax : 0 < q.maxIdx)
    (hsmall : q.maxIdx < 2 ^ 64) (h : q.skip q.skipFuel pos = none) (fuel : Nat) :
    q.skip fuel pos = none := by
  rw [skip_eq_none hpos]
  intro i _
  exact unmapped_of_skip hpos hmax hsmall h (Nat.mod_lt _ hmax)

theorem mapped_of_skip {q : DevIdQueue} {fuel pos p : Nat} (hpos : pos < 2 ^ 64)
    (h : q.skip fuel pos = some p) : q.mapped p = true ∧ p < 2 ^ 64 := by
  induction fuel generalizing pos with
  | zero => cases h
  | succ fuel ih =>
      rw [skip] at h
      split at h
      next hm =>
        cases h
        exact ⟨hm, hpos⟩
      next => exact ih (Nat.mod_lt _ (by decide)) h

/-- The loop ends at the first mapped position when the counter does not wrap. -/
theorem skip_isFirst {q : DevIdQueue} {fuel pos p : Nat} (hwrap : pos + fuel < 2 ^ 64)
    (h : q.skip fuel pos = some p) : Ring.IsFirst q.mapped pos p := by
  induction fuel generalizing pos with
  | zero => cases h
  | succ fuel ih =>
      rw [skip] at h
      split at h
      · next hm =>
          cases h
          exact ⟨Nat.le_refl _, hm, fun q hq hlt => by omega⟩
      · next hm =>
          have hinc : inc pos = pos + 1 := by
            rw [inc]
            omega
          rw [hinc] at h
          obtain ⟨hle, hhere, hbefore⟩ := ih (by omega) h
          refine ⟨by omega, hhere, fun r hr hlt => ?_⟩
          rcases Nat.eq_or_lt_of_le hr with rfl | hr
          · simpa using hm
          · exact hbefore r hr hlt

end DevIdQueue

end Hprd.Common

import Hprd.Common.BufferPool

/-!
# Who has which slot of the buffer pool

The slots that were allocated and not released, and those of them that were got and not put
back, are recorded beside the pool from what the calls return. The table agrees with the
record in every run without a negative id and without an `alloc_buffer2` that finds a slot.
-/

namespace Hprd.Common

open Hprd.Core

/-- `out` are the ids that were allocated, `held` those that `get_fb` returned, both for
bookkeeping. -/
structure PoolState where
  pool : MemPool
  out : Finset Nat
  held : Finset Nat

inductive PoolCall where
  | alloc
  | alloc2 (width height format : UInt32) (drm : DrmCalls) (ref : Nat)
  | get
  | put (bufId : Int)
  | release (bufId : Int)
  | releaseAll
  | raw (bufId : Int)

/-- The device opens, memory is found, both `ioctl`s succeed and `mmap` returns an address. -/
structure DrmCalls.Works (drm : DrmCalls) (width height : UInt32) (bpp : UInt16) : Prop where
  openDrm : drm.openDrm = true
  calloc : drm.calloc = true
  createDumb : drm.createDumb width height bpp ≠ none
  mapDumb : drm.mapDumb = true
  mmap : ∃ vaddr, drm.mmap = some vaddr ∧ vaddr ≠ 0

/-- A format with a depth that the device takes. -/
def DumbFormat (format : UInt32) : Prop :=
  formatToBpp format = 16 ∨ formatToBpp format = 24 ∨ formatToBpp format = 32

namespace PoolState

def start : PoolState := ⟨fun _ => none, ∅, ∅⟩

def allocated (s : PoolState) (ret : Int) (pool : MemPool) : PoolState :=
  if ret = -1 then { s with pool } else { s with pool, out := insert ret.toNat s.out }

/-- A call and what it returned; `get_raw_buffer` returns 0 here for a buffer and -1 for `NULL`. -/
def call (s : PoolState) : PoolCall → Option (Int × PoolState)
  | .alloc => let r := allocBuffer s.pool
      some (r.1, s.allocated r.1 r.2)
  | .alloc2 width height format drm ref =>
      (allocBuffer2 s.pool width height format drm ref).map fun r => (r.1, s.allocated r.1 r.2)
  | .get => let r := getFb s.pool
      some (r.1, if r.1 = -1 then { s with pool := r.2 }
        else { s with pool := r.2, held := insert r.1.toNat s.held })
  | .put bufId => (putFb s.pool bufId).map fun r =>
      (r.1, if r.1 = 0 then { s with pool := r.2, held := s.held.erase bufId.toNat }
        else { s with pool := r.2 })
  | .release bufId => (releaseBuffer s.pool bufId).map fun r =>
      (r.1, if r.1 = 0 then
          ⟨r.2, s.out.erase bufId.toNat, s.held.erase bufId.toNat⟩
        else { s with pool := r.2 })
  | .releaseAll => some (0, ⟨(releaseAllBuffer s.pool).2, ∅, ∅⟩)
  | .raw bufId => (getRawBuffer s.pool bufId).map fun b => (if b.isSome then 0 else -1, s)

/-- The occupied slots are those allocated, and the taken ones of them those held. -/
structure Exact (s : PoolState) : Prop where
  occupied : ∀ i, i ∈ s.out ↔ (s.pool i).isSome = true
  taken : ∀ i, i ∈ s.held ↔ (s.pool i).any (!·.isFree) = true
  slots : ∀ i ∈ s.out, i < maxBufferCount

/-- What a call is relied on for, when it returned `ret`. -/
def Answers (s : PoolState) (ret : Int) (s' : PoolState) : PoolCall → Prop
  | .alloc => ret = -1 ∧ s'.pool = s.pool ∨ ∃ i : Nat, ret = i ∧ i ∉ s.out
  | .alloc2 width height _ _ _ => ret = -1 ∧ s'.pool = s.pool ∨
      ∃ (i : Nat) (b : RawBuffer), ret = i ∧ i ∉ s.out ∧ s'.pool i = some b ∧
        b.width = width ∧ b.height = height
  | .get => ret = -1 ∧ s.out \ s.held = ∅ ∨ ∃ i : Nat, ret = i ∧ i ∈ s.out \ s.held
  | .put bufId => if bufId ∈ s.out.image Int.ofNat then ret = 0 else ret = -1 ∧ s'.pool = s.pool
  | .release bufId =>
      if bufId ∈ s.out.image Int.ofNat then ret = 0 else ret = -1 ∧ s'.pool = s.pool
  | .releaseAll => ret = 0
  | .raw bufId => ret = if bufId ∈ s.out.image Int.ofNat then 0 else -1

/-- A call returns, keeps the table exact and answers as it should. -/
def Right (s : PoolState) (c : PoolCall) : Prop :=
  ∃ ret s', s.call c = some (ret, s') ∧ s'.Exact ∧ s.Answers ret s' c

/-- No negative id; and where `alloc_buffer2` finds a slot, it is for width and height 0 and a
format of 16, 24 or 32 bits per pixel, and the device works. -/
def Heeds (s : PoolState) : PoolCall → Prop
  | .alloc2 width height format drm _ => (∀ i, i < maxBufferCount → i ∈ s.out) ∨
      width = 0 ∧ height = 0 ∧ DumbFormat format ∧
        drm.Works width height (UInt16.ofNat ((formatToBpp format) % 2 ^ 16).toNat)
  | .put bufId => 0 ≤ bufId
  | .release bufId => 0 ≤ bufId
  | .raw bufId => 0 ≤ bufId
  | _ => True

end PoolState

def poolMachine : Machine PoolState PoolCall where
  init s := s = .start
  step s c := (s.call c).map Prod.snd

/-! ## The searches -/

theorem firstSlot_eq_some {p : Nat → Bool} {i : Nat} (h : firstSlot p = some i) :
    i < maxBufferCount ∧ p i = true :=
  ⟨List.mem_range.mp (List.mem_of_find?_eq_some h), List.find?_some h⟩

theorem firstSlot_eq_none {p : Nat → Bool} (h : firstSlot p = none) {i : Nat}
    (hi : i < maxBufferCount) : p i = false := by
  have hno := List.find?_eq_none.mp h i (List.mem_range.mpr hi)
  simpa using hno

namespace PoolState

section

variable {s : PoolState}

theorem exact_start : start.Exact := by
  constructor
  · exact fun i => iff_of_false (Finset.notMem_empty i) Bool.false_ne_true
  · exact fun i => iff_of_false (Finset.notMem_empty i) Bool.false_ne_true
  · exact fun i hi => absurd hi (Finset.notMem_empty i)

/-- One slot is written, and only what is recorded of it changes. -/
theorem Exact.update (h : s.Exact) {i : Nat} {b : Option RawBuffer} {out held : Finset Nat}
    (hi : i < maxBufferCount) (hout : ∀ j, j ≠ i → (j ∈ out ↔ j ∈ s.out))
    (hheld : ∀ j, j ≠ i → (j ∈ held ↔ j ∈ s.held)) (hiout : i ∈ out ↔ b.isSome = true)
    (hiheld : i ∈ held ↔ b.any (!·.isFree) = true) :
    Exact ⟨Function.update s.pool i b, out, held⟩ := by
  constructor
  · intro j
    show j ∈ out ↔ (Function.update s.pool i b j).isSome = true
    rcases eq_or_ne j i with rfl | hj
    · rw [Function.update_self]
      exact hiout
    · rw [Function.update_of_ne hj, hout j hj]
      exact h.occupied j
  · intro j
    show j ∈ held ↔ (Function.update s.pool i b j).any _ = true
    rcases eq_or_ne j i with rfl | hj
    · rw [Function.update_self]
      exact hiheld
    · rw [Function.update_of_ne hj, hheld j hj]
      exact h.taken j
  · intro j hj
    rcases eq_or_ne j i with rfl | hne
    · exact hi
    · exact h.slots j ((hout j hne).mp hj)

theorem Exact.notMem_of_none (h : s.Exact) {i : Nat} (hi : s.pool i = none) :
    i ∉ s.out ∧ i ∉ s.held := by
  rw [h.occupied, h.taken, hi]
  exact ⟨Bool.false_ne_true, Bool.false_ne_true⟩

/-- A free buffer in an empty slot. -/
theorem Exact.insert (h : s.Exact) {i : Nat} {b : RawBuffer} (hi : i < maxBufferCount)
    (hnone : s.pool i = none) (hfree : b.isFree = true) :
    Exact ⟨Function.update s.pool i (some b), Insert.insert i s.out, s.held⟩ := by
  apply h.update hi
  · intro j hj
    rw [Finset.mem_insert]
    exact or_iff_right hj
  · exact fun j hj => Iff.rfl
  · exact iff_of_true (Finset.mem_insert_self i s.out) rfl
  · refine iff_of_false (h.notMem_of_none hnone).2 ?_
    rw [Option.any_some, hfree]
    exact Bool.false_ne_true

/-- The id that an allocation returns is not mistaken for a failure. -/
theorem allocated_natCast (s : PoolState) (i : Nat) (pool : MemPool) :
    s.allocated i pool = ⟨pool, Insert.insert i s.out, s.held⟩ := by
  rw [allocated, if_neg (by omega), Int.toNat_natCast]

/-! ## The calls -/

theorem Exact.alloc (h : s.Exact) : s.Right .alloc := by
  cases hslot : firstSlot fun i => (s.pool i).isNone with
  | none =>
      have hr : allocBuffer s.pool = (-1, s.pool) := by rw [allocBuffer, hslot]
      refine ⟨-1, s, ?_, h, .inl ⟨rfl, rfl⟩⟩
      simp only [call, hr, allocated, if_true]
  | some i =>
      obtain ⟨hi, hnone⟩ := firstSlot_eq_some hslot
      rw [Option.isNone_iff_eq_none] at hnone
      have hr : allocBuffer s.pool =
          ((i : Int), Function.update s.pool i (some { RawBuffer.zero with isFree := true })) := by
        rw [allocBuffer, hslot]
      have hexact := h.insert (b := { RawBuffer.zero with isFree := true }) hi hnone rfl
      refine ⟨i, _, ?_, hexact, .inr ⟨i, rfl, (h.notMem_of_none hnone).1⟩⟩
      simp only [call, hr, allocated_natCast]

theorem Exact.get (h : s.Exact) : s.Right .get := by
  cases hslot : firstSlot fun i => (s.pool i).any (·.isFree) with
  | none =>
      have hr : getFb s.pool = (-1, s.pool) := by rw [getFb, hslot]
      refine ⟨-1, s, ?_, h, .inl ⟨rfl, ?_⟩⟩
      · simp only [call, hr, if_true]
      · rw [Finset.sdiff_eq_empty_iff_subset]
        intro i hi
        have hno := firstSlot_eq_none hslot (h.slots i hi)
        rw [h.occupied] at hi
        rw [h.taken]
        obtain ⟨b, hb⟩ := Option.isSome_iff_exists.mp hi
        rw [hb, Option.any_some] at hno ⊢
        rw [hno]
        rfl
  | some i =>
      obtain ⟨hi, hany⟩ := firstSlot_eq_some hslot
      obtain ⟨b, hb, hfree⟩ := (Option.any_eq_true _ _).mp hany
      have hr : getFb s.pool =
          ((i : Int), Function.update s.pool i (some { b with isFree := false })) := by
        rw [getFb, hslot]
        simp only [hb, Option.map_some]
      have hmem : i ∈ s.out := (h.occupied i).mpr (by rw [hb]; rfl)
      have hfresh : i ∉ s.held := by
        rw [h.taken, hb, Option.any_some, hfree]
        exact Bool.false_ne_true
      refine ⟨i, ⟨Function.update s.pool i (some { b with isFree := false }), s.out,
        Insert.insert i s.held⟩, ?_, ?_, .inr ⟨i, rfl, Finset.mem_sdiff.mpr ⟨hmem, hfresh⟩⟩⟩
      · have hne : (i : Int) ≠ -1 := by omega
        simp only [call, hr, if_neg hne, Int.toNat_natCast]
      · apply h.update hi
        · exact fun j hj => Iff.rfl
        · intro j hj
          rw [Finset.mem_insert]
          exact or_iff_right hj
        · exact iff_of_true hmem rfl
        · exact iff_of_true (Finset.mem_insert_self i s.held) rfl

theorem mem_image_natCast (out : Finset Nat) (i : Nat) :
    (i : Int) ∈ out.image Int.ofNat ↔ i ∈ out := by
  rw [Finset.mem_image]
  constructor
  · rintro ⟨j, hj, heq⟩
    rwa [← Int.ofNat.inj heq]
  · exact fun hi => ⟨i, hi, rfl⟩

theorem Exact.checkoutBufId (h : s.Exact) (i : Nat) :
    checkoutBufId s.pool i = some (if i ∈ s.out then 0 else -1) := by
  rw [Common.checkoutBufId]
  by_cases hi : i ∈ s.out
  · have hlt := h.slots i hi
    have hsome := (h.occupied i).mp hi
    rw [if_neg (by omega), if_neg (by omega), if_pos hi, Int.toNat_natCast,
      if_neg (by rw [Option.isNone_iff_eq_none]; intro hnone; rw [hnone] at hsome; cases hsome)]
  · have hnone : (s.pool i).isNone = true := by
      rw [Option.isNone_iff_eq_none, ← Option.not_isSome_iff_eq_none, ← h.occupied]
      exact hi
    have hnonneg : ¬(i : Int) < 0 := by omega
    rw [if_neg hi, Int.toNat_natCast, if_neg hnonneg, if_pos hnone, ite_self]

theorem Exact.refused (h : s.Exact) {i : Nat} (hi : i ∉ s.out) {c : PoolCall}
    (hc : c = .put i ∨ c = .release i ∨ c = .raw i) (hcall : s.call c = some (-1, s)) :
    s.Right c := by
  have hno : (i : Int) ∉ s.out.image Int.ofNat := by
    rw [mem_image_natCast]
    exact hi
  refine ⟨-1, s, hcall, h, ?_⟩
  rcases hc with rfl | rfl | rfl
  · rw [Answers, if_neg hno]
    exact ⟨rfl, rfl⟩
  · rw [Answers, if_neg hno]
    exact ⟨rfl, rfl⟩
  · rw [Answers, if_neg hno]

theorem Exact.put (h : s.Exact) (i : Nat) : s.Right (.put i) := by
  have hcheck := h.checkoutBufId i
  by_cases hi : i ∈ s.out
  · rw [if_pos hi] at hcheck
    obtain ⟨b, hb⟩ := Option.isSome_iff_exists.mp ((h.occupied i).mp hi)
    have hr : putFb s.pool i =
        some (0, Function.update s.pool i (some { b with isFree := true })) := by
      rw [putFb, hcheck]
      simp only [Option.map_some, ne_eq, not_true, if_false, Int.toNat_natCast, hb]
    refine ⟨0, ⟨Function.update s.pool i (some { b with isFree := true }), s.out,
      s.held.erase i⟩, ?_, ?_, ?_⟩
    · simp only [call, hr, Option.map_some, if_true, Int.toNat_natCast]
    · apply h.update (h.slots i hi)
      · exact fun j hj => Iff.rfl
      · intro j hj
        rw [Finset.mem_erase]
        exact and_iff_right hj
      · exact iff_of_true hi rfl
      · exact iff_of_false (Finset.notMem_erase i s.held) Bool.false_ne_true
    · rw [Answers, if_pos ((mem_image_natCast s.out i).mpr hi)]
  · rw [if_neg hi] at hcheck
    have hr : putFb s.pool i = some (-1, s.pool) := by
      rw [putFb, hcheck]
      rfl
    refine h.refused hi (.inl rfl) ?_
    simp only [call, hr, Option.map_some]
    rfl

theorem Exact.release (h : s.Exact) (i : Nat) : s.Right (.release i) := by
  have hcheck := h.checkoutBufId i
  by_cases hi : i ∈ s.out
  · rw [if_pos hi] at hcheck
    have hr : releaseBuffer s.pool i = some (0, Function.update s.pool i none) := by
      rw [releaseBuffer, hcheck]
      rfl
    refine ⟨0, ⟨Function.update s.pool i none, s.out.erase i, s.held.erase i⟩, ?_, ?_, ?_⟩
    · simp only [call, hr, Option.map_some, if_true, Int.toNat_natCast]
    · apply h.update (h.slots i hi)
      · intro j hj
        rw [Finset.mem_erase]
        exact and_iff_right hj
      · intro j hj
        rw [Finset.mem_erase]
        exact and_iff_right hj
      · exact iff_of_false (Finset.notMem_erase i s.out) Bool.false_ne_true
      · exact iff_of_false (Finset.notMem_erase i s.held) Bool.false_ne_true
    · rw [Answers, if_pos ((mem_image_natCast s.out i).mpr hi)]
  · rw [if_neg hi] at hcheck
    have hr : releaseBuffer s.pool i = some (-1, s.pool) := by
      rw [releaseBuffer, hcheck]
      rfl
    refine h.refused hi (.inr (.inl rfl)) ?_
    simp only [call, hr, Option.map_some]
    rfl

theorem Exact.raw (h : s.Exact) (i : Nat) : s.Right (.raw i) := by
  have hcheck := h.checkoutBufId i
  by_cases hi : i ∈ s.out
  · rw [if_pos hi] at hcheck
    obtain ⟨b, hb⟩ := Option.isSome_iff_exists.mp ((h.occupied i).mp hi)
    have hr : getRawBuffer s.pool i = some (some b) := by
      rw [getRawBuffer, hcheck]
      simp only [Option.map_some, ne_eq, not_true, if_false, Int.toNat_natCast, hb]
    refine ⟨0, s, ?_, h, ?_⟩
    · simp only [call, hr, Option.map_some]
      rfl
    · rw [Answers, if_pos ((mem_image_natCast s.out i).mpr hi)]
  · rw [if_neg hi] at hcheck
    have hr : getRawBuffer s.pool i = some none := by
      rw [getRawBuffer, hcheck]
      rfl
    refine h.refused hi (.inr (.inr rfl)) ?_
    simp only [call, hr, Option.map_some]
    rfl

theorem Exact.releaseAll (h : s.Exact) : s.Right .releaseAll := by
  refine ⟨0, ⟨(releaseAllBuffer s.pool).2, ∅, ∅⟩, rfl, ?_, rfl⟩
  have hempty : ∀ i, (if i < maxBufferCount then none else s.pool i) = none := by
    intro i
    split
    next => rfl
    next hi =>
      rw [← Option.not_isSome_iff_eq_none, ← h.occupied]
      exact fun hmem => hi (h.slots i hmem)
  constructor
  · intro i
    refine iff_of_false (Finset.notMem_empty i) ?_
    show ¬(if i < maxBufferCount then none else s.pool i).isSome = true
    rw [hempty]
    exact Bool.false_ne_true
  · intro i
    refine iff_of_false (Finset.notMem_empty i) ?_
    show ¬(if i < maxBufferCount then none else s.pool i).any _ = true
    rw [hempty]
    exact Bool.false_ne_true
  · exact fun i hi => absurd hi (Finset.notMem_empty i)

/-- A framebuffer has no size of its own. -/
theorem createFramebuffer_of_works {width height : UInt32} {bpp : UInt16} {drm : DrmCalls}
    (hbpp : bpp = 16 ∨ bpp = 24 ∨ bpp = 32) (h : drm.Works width height bpp) :
    ∃ b : DrmBuffer, createFramebuffer width height bpp drm = some (some b) ∧
      b.width = 0 ∧ b.height = 0 := by
  obtain ⟨vaddr, hmmap, haddr⟩ := h.mmap
  obtain ⟨⟨pitch, size, handle⟩, hdumb⟩ := Option.ne_none_iff_exists'.mp h.createDumb
  have hdepth : ¬(bpp ≠ 16 ∧ bpp ≠ 24 ∧ bpp ≠ 32) := by
    rcases hbpp with rfl | rfl | rfl <;> decide
  refine ⟨⟨0, 0, pitch, handle, size, vaddr⟩, ?_, rfl, rfl⟩
  unfold createFramebuffer
  rw [if_neg hdepth, h.openDrm, h.calloc, hdumb]
  dsimp only
  rw [h.mapDumb, hmmap]
  simp [haddr]

theorem works_of_createFramebuffer {width height : UInt32} {bpp : UInt16} {drm : DrmCalls}
    {b : DrmBuffer} (h : createFramebuffer width height bpp drm = some (some b)) :
    (bpp = 16 ∨ bpp = 24 ∨ bpp = 32) ∧ drm.Works width height bpp := by
  unfold createFramebuffer at h
  split at h
  next => cases h
  next hdepth =>
    split at h
    next => cases h
    next hopen =>
      split at h
      next => cases h
      next hcalloc =>
        split at h
        next => cases h
        next hdumb =>
          split at h
          next => cases h
          next hmap =>
            split at h
            next => cases h
            next vaddr hmmap =>
              split at h
              next => cases h
              next haddr =>
                refine ⟨by tauto, by simpa using hopen, by simpa using hcalloc, ?_,
                  by simpa using hmap, vaddr, hmmap, haddr⟩
                rw [hdumb]
                exact Option.some_ne_none _

/-- The depth that `alloc_buffer2` passes on. -/
theorem dumbFormat_iff (format : UInt32) : DumbFormat format ↔
    UInt16.ofNat ((formatToBpp format) % 2 ^ 16).toNat = 16 ∨
      UInt16.ofNat ((formatToBpp format) % 2 ^ 16).toNat = 24 ∨
        UInt16.ofNat ((formatToBpp format) % 2 ^ 16).toNat = 32 := by
  unfold DumbFormat formatToBpp
  split <;> decide

theorem Exact.alloc2 (h : s.Exact) (width height format : UInt32) (drm : DrmCalls) (ref : Nat) :
    s.Right (.alloc2 width height format drm ref) ↔
      s.Heeds (.alloc2 width height format drm ref) := by
  cases hslot : firstSlot fun i => (s.pool i).isNone with
  | none =>
      have hr : allocBuffer2 s.pool width height format drm ref = some (-1, s.pool) := by
        rw [allocBuffer2, hslot]
      refine iff_of_true ⟨-1, s, ?_, h, .inl ⟨rfl, rfl⟩⟩ (.inl fun i hi => ?_)
      · simp only [call, hr, Option.map_some, allocated, if_true]
      · have hsome := firstSlot_eq_none hslot hi
        rw [h.occupied, Option.isSome_iff_ne_none]
        intro hnone
        rw [hnone] at hsome
        cases hsome
  | some i =>
      obtain ⟨hi, hnone⟩ := firstSlot_eq_some hslot
      rw [Option.isNone_iff_eq_none] at hnone
      have hnew := (h.notMem_of_none hnone).1
      have hheeds : s.Heeds (.alloc2 width height format drm ref) ↔
          width = 0 ∧ height = 0 ∧ ∃ b, createFramebuffer width height
            (UInt16.ofNat ((formatToBpp format) % 2 ^ 16).toNat) drm = some (some b) := by
        refine (or_iff_right fun hall => hnew (hall i hi)).trans
          (and_congr_right fun _ => and_congr_right fun _ => ?_)
        rw [dumbFormat_iff]
        exact ⟨fun ⟨hdepth, hworks⟩ =>
            (createFramebuffer_of_works hdepth hworks).imp fun _ hb => hb.1,
          fun ⟨_, hb⟩ => works_of_createFramebuffer hb⟩
      rw [hheeds]
      cases hcreate : createFramebuffer width height
          (UInt16.ofNat ((formatToBpp format) % 2 ^ 16).toNat) drm with
      | none =>
          have hr : allocBuffer2 s.pool width height format drm ref = none := by
            simp only [allocBuffer2, hslot, hcreate, Option.map_none]
          constructor
          · rintro ⟨ret, s', hcall, -⟩
            simp only [call, hr, Option.map_none] at hcall
            cases hcall
          · rintro ⟨-, -, b, hb⟩
            cases hb
      | some made =>
          cases made with
          | none =>
              have hr : allocBuffer2 s.pool width height format drm ref =
                  some (-1, Function.update s.pool i (some .zero)) := by
                simp only [allocBuffer2, hslot, hcreate, Option.map_some]
              constructor
              · rintro ⟨ret, s', hcall, hexact, -⟩
                simp only [call, hr, Option.map_some, allocated, if_true] at hcall
                cases hcall
                have hocc : i ∈ s.out ↔
                    (Function.update s.pool i (some RawBuffer.zero) i).isSome = true :=
                  hexact.occupied i
                rw [Function.update_self] at hocc
                exact absurd (hocc.mpr rfl) hnew
              · rintro ⟨-, -, b, hb⟩
                cases hb
          | some b =>
              obtain ⟨hdepth, hworks⟩ := works_of_createFramebuffer hcreate
              obtain ⟨b', hb', hwidth, hheight⟩ := createFramebuffer_of_works hdepth hworks
              cases hcreate.symm.trans hb'
              let raw := RawBuffer.ofDrm b format
                (UInt16.ofNat ((formatToBpp format) % 2 ^ 16).toNat) ref
              have hcall : s.call (.alloc2 width height format drm ref) = some ((i : Int),
                  ⟨Function.update s.pool i (some raw), Insert.insert i s.out, s.held⟩) := by
                simp only [call, allocBuffer2, hslot, hcreate, Option.map_some, allocated_natCast,
                  raw]
              constructor
              · rintro ⟨ret, s', hcall', -, hanswers⟩
                cases hcall.symm.trans hcall'
                rcases hanswers with ⟨hneg, -⟩ | ⟨j, buf, hj, -, hbuf, hw, hh⟩
                · omega
                · have hji : i = j := by omega
                  subst hji
                  have hraw : Function.update s.pool i (some raw) i = some buf := hbuf
                  rw [Function.update_self] at hraw
                  cases hraw
                  exact ⟨hw.symm.trans hwidth, hh.symm.trans hheight, b, rfl⟩
              · rintro ⟨hw, hh, -⟩
                exact ⟨i, _, hcall, h.insert hi hnone rfl, .inr ⟨i, raw, rfl, hnew,
                  Function.update_self .., hwidth.trans hw.symm, hheight.trans hh.symm⟩⟩

theorem checkoutBufId_neg {pool : MemPool} {bufId : Int} (h : bufId < 0) :
    Common.checkoutBufId pool bufId = none := by
  have hsmall : ¬(maxBufferCount : Int) ≤ bufId := by omega
  rw [Common.checkoutBufId, if_neg hsmall, if_pos h]

/-- The calls with an id are right just for those that are not negative. -/
theorem Exact.right_iff_heeds (h : s.Exact) (c : PoolCall) : s.Right c ↔ s.Heeds c := by
  have hid : ∀ (bufId : Int) (f : Int → PoolCall),
      (bufId < 0 → s.call (f bufId) = none) → (∀ i : Nat, s.Right (f i)) →
      (s.Right (f bufId) ↔ 0 ≤ bufId) := by
    intro bufId f hneg hpos
    rcases Int.lt_or_le bufId 0 with hlt | hle
    · refine iff_of_false ?_ (by omega)
      rintro ⟨ret, s', hcall, -⟩
      rw [hneg hlt] at hcall
      cases hcall
    · obtain ⟨i, rfl⟩ := Int.eq_ofNat_of_zero_le hle
      exact iff_of_true (hpos i) hle
  cases c with
  | alloc => exact iff_of_true h.alloc trivial
  | alloc2 width height format drm ref => exact h.alloc2 width height format drm ref
  | get => exact iff_of_true h.get trivial
  | put bufId =>
      apply hid bufId .put _ h.put
      intro hlt
      simp only [call, putFb, checkoutBufId_neg hlt, Option.map_none]
  | release bufId =>
      apply hid bufId .release _ h.release
      intro hlt
      simp only [call, releaseBuffer, checkoutBufId_neg hlt, Option.map_none]
  | releaseAll => exact iff_of_true h.releaseAll trivial
  | raw bufId =>
      apply hid bufId .raw _ h.raw
      intro hlt
      simp only [call, getRawBuffer, checkoutBufId_neg hlt, Option.map_none]

end

end PoolState

/-- In every run whose calls meet the condition the table is exact, and there a call is right just
if it meets the condition. -/
theorem pool_right_iff {s : PoolState} (h : poolMachine.Run PoolState.Heeds s) :
    s.Exact ∧ ∀ c, s.Right c ↔ s.Heeds c := by
  have hexact : s.Exact := by
    apply Machine.Run.invariant (P := PoolState.Exact) _ _ h
    · rintro _ rfl
      exact PoolState.exact_start
    · intro s c s' hs hc hstep
      obtain ⟨ret, s'', hcall, hexact, -⟩ := (hs.right_iff_heeds c).mpr hc
      have heq : some s'' = some s' := by
        rw [← hstep]
        show _ = (s.call c).map Prod.snd
        rw [hcall]
        rfl
      cases heq
      exact hexact
  exact ⟨hexact, hexact.right_iff_heeds⟩

/-- The framebuffer that one gets from a working device. -/
def workingDrm : DrmCalls := ⟨true, true, fun width height _ =>
  some (width * 4, width * height * 4, 1), true, some 4096⟩

theorem workingDrm_works (width height : UInt32) (bpp : UInt16) :
    workingDrm.Works width height bpp :=
  ⟨rfl, rfl, nofun, rfl, 4096, rfl, by decide⟩

/-- A buffer of each kind, the first one got, put back and released while the other is taken. -/
def poolCalls : List PoolCall :=
  [.alloc, .get, .alloc2 0 0 4 workingDrm 1, .put 0, .release 0, .get]

theorem pool_right_used : ∃ s : PoolState, s.out = {1} ∧ s.held = {1} ∧ s.Exact ∧
    s.Right (.alloc2 0 0 4 workingDrm 2) ∧ ¬s.Right (.alloc2 0 0 8 workingDrm 2) ∧
    s.Right (.put 1) ∧ ¬s.Right (.put (-1)) := by
  have hrun : (poolMachine.exec .start poolCalls).map (fun s => (s.out, s.held)) =
      some ({1}, {1}) := by decide +kernel
  obtain ⟨s, hs, hview⟩ := Option.map_eq_some_iff.mp hrun
  simp only [Prod.mk.injEq] at hview
  obtain ⟨hout, hheld⟩ := hview
  have hmade : ∀ (s : PoolState) ref, s.Heeds (.alloc2 0 0 4 workingDrm ref) := fun s ref =>
    .inr ⟨rfl, rfl, .inr (.inr rfl), workingDrm_works ..⟩
  have hok : ∀ c ∈ poolCalls, ∀ s : PoolState, s.Heeds c := by
    intro c hc s
    simp only [poolCalls, List.mem_cons, List.not_mem_nil, or_false] at hc
    rcases hc with rfl | rfl | rfl | rfl | rfl | rfl
    · trivial
    · trivial
    · exact hmade s 1
    · exact Int.le_refl 0
    · exact Int.le_refl 0
    · trivial
  obtain ⟨hexact, hright⟩ := pool_right_iff (.exec (.start rfl) hok hs)
  refine ⟨s, hout, hheld, hexact, (hright _).mpr (hmade s 2), fun h => ?_,
    (hright _).mpr (show (0 : Int) ≤ 1 by decide),
    fun h => absurd ((hright _).mp h) (show ¬(0 : Int) ≤ -1 by decide)⟩
  rcases (hright _).mp h with hall | ⟨-, -, hformat, -⟩
  · have hzero := hall 0 (by decide)
    rw [hout] at hzero
    exact absurd hzero (by decide)
  · exact absurd hformat (by unfold DumbFormat; decide)

/-- A buffer that is made has no size, one of a format without a bit depth for the device takes
a slot and fails, and a negative id is looked up outside the table. -/
theorem pool_not_right : ¬PoolState.start.Right (.alloc2 1920 1080 4 workingDrm 1) ∧
    ¬PoolState.start.Right (.alloc2 0 0 8 workingDrm 1) ∧ ¬PoolState.start.Right (.put (-1)) := by
  have hempty : ¬∀ i, i < maxBufferCount → i ∈ PoolState.start.out := by
    intro hall
    exact absurd (hall 0 (by decide)) (Finset.notMem_empty 0)
  simp only [PoolState.exact_start.right_iff_heeds, PoolState.Heeds, hempty, false_or]
  refine ⟨fun h => absurd h.1 (by decide), ?_, by decide⟩
  rintro ⟨-, -, hformat, -⟩
  exact absurd hformat (by unfold DumbFormat; decide)

end Hprd.Common

import Hprd.Core.Bytes
import Hprd.Core.Ring

/-!
# The byte ring of `common/queue.c`

`DataQueue` is `struct data_queue`: ten mebibytes of cells and two 64-bit
counters that only ever grow. Every access to the cells goes through `copyIn` and
`copyOut`, which give an access outside the array no result, so an operation that
returns is one that stayed inside. The `queue == NULL` branches are left out: no
caller passes a null pointer.
-/

namespace Hprd.Common

open Hprd.Core

/-- `QUEUE_DATA_SIZE` as the number of cells. -/
def capacity : Nat := 10 * 1024 * 1024

/-- `QUEUE_DATA_SIZE` as it enters the 64-bit arithmetic of the counters. -/
def queueDataSize : UInt64 := 10 * 1024 * 1024

theorem capacity_eq : capacity = 10485760 := rfl

theorem queueDataSize_toNat : queueDataSize.toNat = 10485760 := rfl

/-- The conversion of a 64-bit count to `int`. -/
def toCInt (n : UInt64) : Int32 := n.toUInt32.toInt32

theorem toCInt_toInt {n : UInt64} (h : n.toNat < 2 ^ 31) : (toCInt n).toInt = n.toNat := by
  have hn : n.toUInt32.toNat = n.toNat := by
    rw [UInt64.toNat_toUInt32]
    omega
  have hb : (toCInt n).toInt = n.toUInt32.toBitVec.toInt := rfl
  rw [hb, BitVec.toInt_eq_toNat_of_lt]
  · exact congrArg Int.ofNat hn
  · change 2 * n.toUInt32.toNat < 2 ^ 32
    omega

/-- The C idiom for the smaller of two `int`s. -/
theorem toInt_ite_lt (a b : Int32) : (if a < b then a else b).toInt = min a.toInt b.toInt := by
  split
  · next h =>
      rw [Int32.lt_iff_toInt_lt] at h
      omega
  · next h =>
      rw [Int32.lt_iff_toInt_lt] at h
      omega

/-- `n` bytes from a counter on lie in consecutive cells of the array. -/
def Straight (c : UInt64) (n : Nat) : Prop :=
  c.toNat % capacity + n ≤ capacity ∧ c.toNat + n ≤ 2 ^ 64

theorem Straight.mono {c : UInt64} {m n : Nat} (h : Straight c n) (hle : m ≤ n) :
    Straight c m := by
  obtain ⟨hend, hcount⟩ := h
  exact ⟨by omega, by omega⟩

structure DataQueue where
  bufferQueue : Nat → UInt8
  bufferHead : UInt64
  bufferTail : UInt64

namespace DataQueue

/-! ## The operations -/

/-- A block copied into `buffer_queue`, when it fits into the array. -/
def copyIn (q : DataQueue) (off : Nat) (bs : Bytes) : Option DataQueue :=
  if off + bs.length ≤ capacity then
    some { q with bufferQueue := Ring.store q.bufferQueue off bs }
  else none

/-- A block read from `buffer_queue`, when it lies inside the array. -/
def copyOut (q : DataQueue) (off n : Nat) : Option Bytes :=
  if off + n ≤ capacity then some (Ring.block q.bufferQueue off n) else none

/-- The `memcpy` to the head's cell and the `atomic_fetch_add` after it, as every branch of
`enqueue_data` makes them. -/
def copyAdvance (q : DataQueue) (bs : Bytes) (n : UInt64) : Option DataQueue :=
  (q.copyIn (q.bufferHead % queueDataSize).toNat bs).map fun q =>
    { q with bufferHead := q.bufferHead + n }

/-- `enqueue_data(queue, buf, len)` with `len` the length of `buf`. -/
def enqueueData (q : DataQueue) (buf : Bytes) : Option (Int32 × DataQueue) :=
  let len := UInt64.ofNat buf.length
  if capacity < buf.length then some (-1, q)
  else if len ≤ q.bufferTail + queueDataSize - q.bufferHead then
    if len ≤ queueDataSize - q.bufferHead % queueDataSize then do
      let q ← q.copyAdvance buf len
      return (Int32.ofNat buf.length, q)
    else do
      let lenTmp := queueDataSize - q.bufferHead % queueDataSize
      let q ← q.copyAdvance (buf.take lenTmp.toNat) lenTmp
      let q ← q.copyAdvance (buf.drop lenTmp.toNat) (len - lenTmp)
      return (Int32.ofNat buf.length, q)
  else some (0, q)

/-- The `memcpy` from the tail's cell, as every branch of `dequeue_data` and `read_data` makes
it. -/
def copyTail (q : DataQueue) (n : UInt64) : Option Bytes :=
  q.copyOut (q.bufferTail % queueDataSize).toNat n.toNat

def dequeueData (q : DataQueue) (len : UInt64) : Option (Int32 × Bytes × DataQueue) :=
  if queueDataSize < len then some (-1, [], q)
  else if len ≤ q.bufferHead - q.bufferTail then
    if len ≤ queueDataSize - q.bufferTail % queueDataSize then do
      let bs ← q.copyTail len
      return (toCInt len, bs, { q with bufferTail := q.bufferTail + len })
    else do
      let lenTmp := queueDataSize - q.bufferTail % queueDataSize
      let bs ← q.copyTail lenTmp
      let q := { q with bufferTail := q.bufferTail + lenTmp }
      let bs' ← q.copyTail (len - lenTmp)
      return (toCInt len, bs ++ bs', { q with bufferTail := q.bufferTail + (len - lenTmp) })
  else some (0, [], q)

def readData (q : DataQueue) (len : UInt64) : Option (Int32 × Bytes) :=
  if queueDataSize < len then some (-1, [])
  else if len ≤ q.bufferHead - q.bufferTail then
    if len ≤ queueDataSize - q.bufferTail % queueDataSize then do
      let bs ← q.copyTail len
      return (toCInt len, bs)
    else do
      let lenTmp := queueDataSize - q.bufferTail % queueDataSize
      let bs ← q.copyTail lenTmp
      -- the second copy computes its cell from the tail that has not moved
      let bs' ← q.copyOut ((q.bufferTail + lenTmp) % queueDataSize).toNat (len - lenTmp).toNat
      return (toCInt len, bs ++ bs')
  else some (0, [])

def queueTailPointForward (q : DataQueue) (len : UInt64) : Int32 × DataQueue :=
  if queueDataSize < len then (-1, q)
  else if len ≤ q.bufferHead - q.bufferTail then
    (toCInt len, { q with bufferTail := q.bufferTail + len })
  else (0, q)

def queueHeadPointForward (q : DataQueue) (len : UInt64) : Int32 × DataQueue :=
  if queueDataSize < len then (-1, q)
  else if len ≤ q.bufferTail + queueDataSize - q.bufferHead then
    (toCInt len, { q with bufferHead := q.bufferHead + len })
  else (0, q)

/-- `queue_get_write_ptr`, as an index into `buffer_queue`. -/
def queueGetWritePtr (q : DataQueue) : Nat := (q.bufferHead % queueDataSize).toNat

/-- `queue_get_read_ptr`, as an index into `buffer_queue`. -/
def queueGetReadPtr (q : DataQueue) : Nat := (q.bufferTail % queueDataSize).toNat

def queueGetFreeCount (q : DataQueue) : Int32 :=
  toCInt (queueDataSize + q.bufferTail - q.bufferHead)

def getQueueDataCount (q : DataQueue) : Int32 := toCInt (q.bufferHead - q.bufferTail)

def queueGetEndDataCount (q : DataQueue) : Int32 :=
  let dataCount := q.getQueueDataCount
  let endDataCount := toCInt (queueDataSize - q.bufferTail % queueDataSize)
  if endDataCount < dataCount then endDataCount else dataCount

def queueGetEndFreeCount (q : DataQueue) : Int32 :=
  let availableSpace := q.queueGetFreeCount
  let directSpace := toCInt (queueDataSize - q.bufferHead % queueDataSize)
  if availableSpace < directSpace then availableSpace else directSpace

/-! ## The abstract queue -/

def used (q : DataQueue) : Nat := (q.bufferHead - q.bufferTail).toNat

/-- The free space `enqueue_data` compares a length with. -/
def free (q : DataQueue) : Nat := (q.bufferTail + queueDataSize - q.bufferHead).toNat

def cell (q : DataQueue) (i : Nat) : Nat :=
  ((q.bufferTail + UInt64.ofNat i) % queueDataSize).toNat

/-- The unread bytes, oldest first. -/
def contents (q : DataQueue) : Bytes := (List.range q.used).map fun i => q.bufferQueue (q.cell i)

def skip (q : DataQueue) (n : UInt64) : DataQueue := { q with bufferTail := q.bufferTail + n }

/-- The counters have not wrapped and at most a full ring is unread. -/
structure WellFormed (q : DataQueue) : Prop where
  ordered : q.bufferTail.toNat ≤ q.bufferHead.toNat
  bounded : q.bufferHead.toNat ≤ q.bufferTail.toNat + capacity

/-- The queue `calloc` leaves: no byte has passed. -/
def empty : DataQueue := ⟨fun _ => 0, 0, 0⟩

theorem empty_wellFormed : empty.WellFormed := ⟨Nat.le_refl _, Nat.zero_le _⟩

@[simp] theorem contents_length (q : DataQueue) : q.contents.length = q.used := by
  simp [contents]

theorem used_eq {q : DataQueue} (h : q.WellFormed) :
    q.used = q.bufferHead.toNat - q.bufferTail.toNat :=
  UInt64.toNat_sub_of_le _ _ (UInt64.le_iff_toNat_le.mpr h.ordered)

theorem used_le_capacity {q : DataQueue} (h : q.WellFormed) : q.used ≤ capacity := by
  rw [used_eq h]
  have := h.bounded
  omega

theorem used_toNat (q : DataQueue) :
    q.used = (2 ^ 64 - q.bufferTail.toNat + q.bufferHead.toNat) % 2 ^ 64 := by
  rw [used, UInt64.toNat_sub]

theorem free_toNat (q : DataQueue) :
    q.free = (2 ^ 64 - q.bufferHead.toNat + (q.bufferTail.toNat + 10485760) % 2 ^ 64) % 2 ^ 64 := by
  rw [free, UInt64.toNat_sub, UInt64.toNat_add, queueDataSize_toNat]

/-- The free space is what the unread bytes leave, also after a counter has wrapped. -/
theorem free_eq {q : DataQueue} (h : q.used ≤ capacity) : q.free = capacity - q.used := by
  have hh := q.bufferHead.toNat_lt
  have ht := q.bufferTail.toNat_lt
  rw [used_toNat] at *
  rw [free_toNat]
  rw [capacity_eq] at *
  omega

theorem cell_eq (q : DataQueue) (i : Nat) :
    q.cell i = (q.bufferTail.toNat + i) % 2 ^ 64 % capacity := by
  rw [cell, UInt64.toNat_mod, UInt64.toNat_add, UInt64.toNat_ofNat', queueDataSize_toNat,
    capacity_eq, Nat.add_mod_mod]

theorem cell_of_lt {q : DataQueue} {i : Nat} (h : q.bufferTail.toNat + i < 2 ^ 64) :
    q.cell i = (q.bufferTail.toNat + i) % capacity := by
  rw [cell_eq, Nat.mod_eq_of_lt h]

theorem contents_eq_window {q : DataQueue} (h : q.WellFormed) :
    q.contents = Ring.window capacity q.bufferQueue q.bufferTail.toNat q.used := by
  have hused := used_eq h
  have hh := q.bufferHead.toNat_lt
  have ho := h.ordered
  unfold contents Ring.window
  apply List.map_congr_left
  intro i hi
  have hi : i < q.used := by simpa using hi
  rw [cell_of_lt (by omega)]

/-! ## Counts -/

theorem getQueueDataCount_toInt {q : DataQueue} (h : q.used < 2 ^ 31) :
    q.getQueueDataCount.toInt = q.used :=
  toCInt_toInt h

theorem queueGetFreeCount_toInt {q : DataQueue} (h : q.free < 2 ^ 31) :
    q.queueGetFreeCount.toInt = q.free := by
  have he : queueDataSize + q.bufferTail - q.bufferHead
      = q.bufferTail + queueDataSize - q.bufferHead := by rw [UInt64.add_comm]
  rw [queueGetFreeCount, he]
  exact toCInt_toInt h

theorem queueGetReadPtr_eq (q : DataQueue) : q.queueGetReadPtr = q.bufferTail.toNat % capacity := by
  rw [queueGetReadPtr, UInt64.toNat_mod, queueDataSize_toNat, capacity_eq]

theorem queueGetWritePtr_eq (q : DataQueue) :
    q.queueGetWritePtr = q.bufferHead.toNat % capacity := by
  rw [queueGetWritePtr, UInt64.toNat_mod, queueDataSize_toNat, capacity_eq]

theorem directSpace_toNat (c : UInt64) :
    (queueDataSize - c % queueDataSize).toNat = capacity - c.toNat % capacity := by
  have hm : (c % queueDataSize).toNat = c.toNat % 10485760 := by
    rw [UInt64.toNat_mod, queueDataSize_toNat]
  rw [UInt64.toNat_sub_of_le, hm, queueDataSize_toNat, capacity_eq]
  rw [UInt64.le_iff_toNat_le, hm, queueDataSize_toNat]
  omega

theorem directSpace_toInt (c : UInt64) :
    (toCInt (queueDataSize - c % queueDataSize)).toInt = (capacity - c.toNat % capacity : Nat) := by
  rw [toCInt_toInt, directSpace_toNat]
  rw [directSpace_toNat, capacity_eq]
  omega

theorem queueGetEndDataCount_toInt {q : DataQueue} (h : q.used < 2 ^ 31) :
    q.queueGetEndDataCount.toInt = min (capacity - q.bufferTail.toNat % capacity) q.used := by
  rw [queueGetEndDataCount, toInt_ite_lt, directSpace_toInt, getQueueDataCount_toInt h]
  exact (Nat.cast_min _ _).symm

theorem queueGetEndFreeCount_toInt {q : DataQueue} (h : q.free < 2 ^ 31) :
    q.queueGetEndFreeCount.toInt = min q.free (capacity - q.bufferHead.toNat % capacity) := by
  rw [queueGetEndFreeCount, toInt_ite_lt, directSpace_toInt, queueGetFreeCount_toInt h]
  exact (Nat.cast_min _ _).symm

end DataQueue

end Hprd.Common

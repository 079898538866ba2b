import Hprd.Common.IntQueue
import Hprd.Core.Ring

/-!
# What `int_queue` is for

A queue of at most `QUEUE_SIZE` ids, first in first out. The calls of the code are compared
with those of such a queue, result for result. The room test lets one id too many in, and
its sum wraps before the counters do.
-/

namespace Hprd.Common

open Hprd.Core

inductive IntCall where
  | put (id : Int)
  | get
  | len

/-- The ids that wait, oldest first, and the number of those that were taken. -/
structure IntFifo where
  waiting : List Int
  taken : Nat

namespace IntFifo

def empty : IntFifo := ⟨[], 0⟩

/-- A put fails just where `QUEUE_SIZE` ids wait, a get where none does. -/
def call (f : IntFifo) : IntCall → Int × IntFifo
  | .put id =>
      if f.waiting.length = queueSize then (-1, f)
      else (0, { f with waiting := f.waiting ++ [id] })
  | .get => match f.waiting with
      | [] => (-1, f)
      | id :: ids => (id, ⟨ids, f.taken + 1⟩)
  | .len => (f.waiting.length, f)

/-- A put leaves the last cell free, and the 32 bits of the room test have not wrapped. -/
def Admits (f : IntFifo) : IntCall → Prop
  | .put _ => f.waiting.length < queueSize ∧ f.taken + queueSize < 2 ^ 32
  | _ => True

/-- Every call of a run is admitted where it is made. -/
def AdmitsAll (f : IntFifo) : List IntCall → Prop
  | [] => True
  | c :: cs => f.Admits c ∧ (f.call c).2.AdmitsAll cs

end IntFifo

namespace IntQueue

/-- A zero-initialised `int_queue`. -/
def zero : IntQueue := ⟨fun _ => 0, 0, 0⟩

def call (queue : IntQueue) : IntCall → Int × IntQueue
  | .put id => queuePutInt queue id
  | .get => queueGetInt queue
  | .len => (queueIntLen queue, queue)

end IntQueue

def runCalls {σ : Type} (call : σ → IntCall → Int × σ) : σ → List IntCall → List Int × σ
  | s, [] => ([], s)
  | s, c :: cs =>
      let r := runCalls call (call s c).2 cs
      ((call s c).1 :: r.1, r.2)

/-- The cells between the counters hold the ids that wait. -/
def IntQueue.Keeps (queue : IntQueue) (f : IntFifo) : Prop :=
  Ring.window queueSize queue.bufferQueue f.taken f.waiting.length = f.waiting

/-- A run of calls has the results of the bounded queue, and no waiting id is overwritten. -/
def IsIntFifo (cs : List IntCall) : Prop :=
  let q := runCalls IntQueue.call .zero cs
  let f := runCalls IntFifo.call .empty cs
  q.1 = f.1 ∧ q.2.Keeps f.2

/-! ## The counters -/

/-- The queue of the code stands for the bounded queue. -/
structure IntQueue.Refines (queue : IntQueue) (f : IntFifo) : Prop where
  head : queue.bufferHead.toNat = f.taken + f.waiting.length
  tail : queue.bufferTail.toNat = f.taken
  small : f.waiting.length ≤ queueSize
  keeps : queue.Keeps f

theorem IntQueue.refines_zero : IntQueue.zero.Refines .empty := by
  constructor
  · rfl
  · rfl
  · exact Nat.zero_le _
  · rfl

section

variable {queue : IntQueue} {f : IntFifo}

/-- The room test, with 32 bits for its sum. -/
theorem IntQueue.Refines.room_iff (h : queue.Refines f) :
    queue.bufferHead ≤ queue.bufferTail + UInt32.ofNat queueSize ↔
      f.taken + f.waiting.length ≤ (f.taken + queueSize) % 2 ^ 32 := by
  rw [UInt32.le_iff_toNat_le, UInt32.toNat_add, h.head, h.tail]
  rfl

theorem IntQueue.Refines.put (h : queue.Refines f) (id : Int) (ha : f.Admits (.put id)) :
    (queue.call (.put id)).1 = (f.call (.put id)).1 ∧
      (queue.call (.put id)).2.Refines (f.call (.put id)).2 := by
  obtain ⟨hlen, hwrap⟩ := ha
  have hroom : queue.bufferHead ≤ queue.bufferTail + UInt32.ofNat queueSize := by
    rw [h.room_iff, Nat.mod_eq_of_lt hwrap]
    omega
  have hhead := h.head
  rw [call, queuePutInt, if_pos hroom, IntFifo.call, if_neg (Nat.ne_of_lt hlen)]
  refine ⟨rfl, ?_, h.tail, ?_, ?_⟩
  · show (queue.bufferHead + 1).toNat = f.taken + (f.waiting ++ [id]).length
    rw [UInt32.toNat_add, hhead, List.length_append, List.length_singleton,
      show (1 : UInt32).toNat = 1 from rfl]
    omega
  · show (f.waiting ++ [id]).length ≤ queueSize
    rw [List.length_append, List.length_singleton]
    exact hlen
  · have hstore := @Ring.window_store_append Int queueSize queue.bufferQueue f.taken
      f.waiting.length [id] (Nat.mod_lt _ (by decide)) hlen
    rw [Ring.store_singleton, h.keeps, List.length_singleton, ← hhead] at hstore
    show Ring.window queueSize (Function.update _ _ _) f.taken (f.waiting ++ [id]).length = _
    rw [List.length_append]
    exact hstore

theorem IntQueue.Refines.put_ne (h : queue.Refines f) (id : Int) (ha : ¬f.Admits (.put id)) :
    (queue.call (.put id)).1 ≠ (f.call (.put id)).1 := by
  have hsmall := h.small
  have hhead := h.head
  have hlt := queue.bufferHead.toNat_lt
  rw [call, queuePutInt, IntFifo.call]
  by_cases hfull : f.waiting.length = queueSize
  · have hwrap : f.taken + queueSize < 2 ^ 32 := by omega
    have hroom : queue.bufferHead ≤ queue.bufferTail + UInt32.ofNat queueSize := by
      rw [h.room_iff, Nat.mod_eq_of_lt hwrap]
      omega
    rw [if_pos hroom, if_pos hfull]
    show (0 : Int) ≠ -1
    decide
  · have hwrap : 2 ^ 32 ≤ f.taken + queueSize := by
      by_contra hno
      exact ha ⟨by omega, by omega⟩
    have hroom : ¬queue.bufferHead ≤ queue.bufferTail + UInt32.ofNat queueSize := by
      rw [h.room_iff]
      unfold queueSize at *
      omega
    rw [if_neg hroom, if_neg hfull]
    show (-1 : Int) ≠ 0
    decide

theorem IntQueue.Refines.get (h : queue.Refines f) :
    (queue.call .get).1 = (f.call .get).1 ∧ (queue.call .get).2.Refines (f.call .get).2 := by
  have hhead := h.head
  have htail := h.tail
  have hkeeps := h.keeps
  rw [call, queueGetInt, IntFifo.call]
  cases hw : f.waiting with
  | nil =>
      have hno : ¬queue.bufferTail < queue.bufferHead := by
        rw [UInt32.lt_iff_toNat_lt, hhead, htail, hw]
        exact Nat.lt_irrefl _
      rw [if_neg hno]
      exact ⟨rfl, h⟩
  | cons id ids =>
      have hlt : queue.bufferTail < queue.bufferHead := by
        rw [UInt32.lt_iff_toNat_lt, hhead, htail, hw, List.length_cons]
        omega
      have hbound := queue.bufferHead.toNat_lt
      have hsmall := h.small
      unfold Keeps at hkeeps
      rw [hw, List.length_cons] at hhead hkeeps hsmall
      rw [Nat.add_comm ids.length 1, Ring.window_add] at hkeeps
      have hcells : queue.bufferQueue (f.taken % queueSize) ::
          Ring.window queueSize queue.bufferQueue (f.taken + 1) ids.length = id :: ids := hkeeps
      obtain ⟨hfirst, hrest⟩ := List.cons.inj hcells
      rw [if_pos hlt, htail, hfirst]
      refine ⟨rfl, ?_, ?_, ?_, hrest⟩
      · show queue.bufferHead.toNat = f.taken + 1 + ids.length
        omega
      · show (queue.bufferTail + 1).toNat = f.taken + 1
        rw [UInt32.toNat_add, htail, show (1 : UInt32).toNat = 1 from rfl]
        omega
      · show ids.length ≤ queueSize
        omega

theorem IntQueue.Refines.len (h : queue.Refines f) : queueIntLen queue = f.waiting.length := by
  have hhead := h.head
  have htail := h.tail
  have hsmall : f.waiting.length ≤ 24 := h.small
  have hle : queue.bufferTail ≤ queue.bufferHead := by
    rw [UInt32.le_iff_toNat_le]
    omega
  have hsub : (queue.bufferHead - queue.bufferTail).toNat = f.waiting.length := by
    rw [UInt32.toNat_sub_of_le _ _ hle]
    omega
  have hb : (queue.bufferHead - queue.bufferTail).toInt32.toInt =
      (queue.bufferHead - queue.bufferTail).toBitVec.toInt := rfl
  rw [queueIntLen, hb, BitVec.toInt_eq_toNat_of_lt]
  · exact congrArg Int.ofNat hsub
  · show 2 * (queue.bufferHead - queue.bufferTail).toNat < 2 ^ 32
    omega

theorem IntQueue.Refines.call (h : queue.Refines f) {c : IntCall} (ha : f.Admits c) :
    (queue.call c).1 = (f.call c).1 ∧ (queue.call c).2.Refines (f.call c).2 := by
  cases c with
  | put id => exact h.put id ha
  | get => exact h.get
  | len => exact ⟨h.len, h⟩

theorem IntQueue.Refines.call_ne (h : queue.Refines f) {c : IntCall} (ha : ¬f.Admits c) :
    (queue.call c).1 ≠ (f.call c).1 := by
  cases c with
  | put id => exact h.put_ne id ha
  | get => exact absurd trivial ha
  | len => exact absurd trivial ha

/-- A run of calls has the results of the bounded queue just if each of them is admitted. -/
theorem IntQueue.Refines.runCalls_iff (h : queue.Refines f) (cs : List IntCall) :
    ((runCalls IntQueue.call queue cs).1 = (runCalls IntFifo.call f cs).1 ∧
        (runCalls IntQueue.call queue cs).2.Keeps (runCalls IntFifo.call f cs).2) ↔
      f.AdmitsAll cs := by
  induction cs generalizing queue f with
  | nil => exact iff_of_true ⟨rfl, h.keeps⟩ trivial
  | cons c cs ih =>
      by_cases ha : f.Admits c
      · obtain ⟨hret, hnext⟩ := h.call ha
        have hrest := ih hnext
        simp only [runCalls, IntFifo.AdmitsAll, hret, List.cons.injEq, true_and]
        rw [hrest]
        exact (and_iff_right ha).symm
      · have hne := h.call_ne ha
        simp only [runCalls, IntFifo.AdmitsAll, List.cons.injEq]
        exact iff_of_false (fun heq => hne heq.1.1) (fun hall => ha hall.1)

end

/-- The code behaves as a bounded queue just as long as a put finds a free cell behind the one it
fills and fewer than 2 ^ 32 - 24 ids have been taken. -/
theorem isIntFifo_iff (cs : List IntCall) : IsIntFifo cs ↔ IntFifo.empty.AdmitsAll cs :=
  IntQueue.refines_zero.runCalls_iff cs

/-- The ids 1 to 25 and a get. -/
def overfull : List IntCall := ((List.range 25).map fun i => IntCall.put (i + 1)) ++ [.get]

/-- The last put finds room and overwrites the first id. -/
theorem overfull_not_intFifo : ¬IsIntFifo overfull := by
  have hcode : (runCalls IntQueue.call .zero overfull).1 = List.replicate 25 0 ++ [25] := by
    decide +kernel
  have hfifo : (runCalls IntFifo.call .empty overfull).1 =
      List.replicate 24 0 ++ [-1, 1] := by
    decide +kernel
  intro h
  have heq := h.1
  rw [hcode, hfifo] at heq
  exact absurd heq (by decide)

end Hprd.Common

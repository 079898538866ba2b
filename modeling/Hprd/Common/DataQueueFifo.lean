import Hprd.Core.Fifo
import Hprd.Core.Machine
import Hprd.Common.DataQueueSpec

/-!
# The ring refines the bounded queue

`call` is one use of the ring, `QueueOp.abs` the use of a bounded queue it stands
for. As long as the counters stay below `2 ^ 64` a call does to the unread bytes
what the bounded queue does to its list and answers the same. The ring size does
not divide `2 ^ 64`, so the cells of a counter that wraps are not the next ones.
-/

namespace Hprd.Common

open Hprd.Core

/-- A call on the ring, or an access through `queue_get_write_ptr` or `queue_get_read_ptr`. -/
inductive QueueOp
  | enqueue (buf : Bytes)
  | dequeue (len : UInt64)
  | read (len : UInt64)
  | forward (len : UInt64)
  | directWrite (bs : Bytes)
  | directRead (n : Nat)
deriving DecidableEq

def QueueOp.abs : QueueOp → Fifo.Op UInt8
  | .enqueue buf => .offer buf
  | .dequeue len => .take len.toNat
  | .read len => .look len.toNat
  | .forward len => .drop len.toNat
  | .directWrite bs => .offer bs
  | .directRead n => .look n

namespace DataQueue

/-- One use of the ring; a copy outside the array has no result. A direct read answers with the
count its caller chose. -/
def call (q : DataQueue) : QueueOp → Option (Fifo.Answer UInt8 × DataQueue)
  | .enqueue buf => (q.enqueueData buf).map fun r => (⟨r.1.toInt, []⟩, r.2)
  | .dequeue len => (q.dequeueData len).map fun r => (⟨r.1.toInt, r.2.1⟩, r.2.2)
  | .read len => (q.readData len).map fun r => (⟨r.1.toInt, r.2⟩, q)
  | .forward len =>
      let r := q.queueTailPointForward len
      some (⟨r.1.toInt, []⟩, r.2)
  | .directWrite bs => (q.copyIn q.queueGetWritePtr bs).map fun q =>
      let r := q.queueHeadPointForward (UInt64.ofNat bs.length)
      (⟨r.1.toInt, []⟩, r.2)
  | .directRead n => (q.copyOut q.queueGetReadPtr n).map fun bs => (⟨n, bs⟩, q)

/-- Direct accesses keep to the counts the ring gives for them. -/
def Allowed (q : DataQueue) : QueueOp → Prop
  | .directWrite bs => (bs.length : Int) ≤ q.queueGetEndFreeCount.toInt
  | .directRead n => (n : Int) ≤ q.queueGetEndDataCount.toInt
  | _ => True

/-- The number of bytes that pass into the ring. -/
def admits (q : DataQueue) : QueueOp → Nat
  | .enqueue buf => if buf.length ≤ capacity ∧ buf.length ≤ q.free then buf.length else 0
  | .directWrite bs => bs.length
  | _ => 0

/-! ## One call -/

/-- A call acted on the ring as the bounded queue acts on the unread bytes. -/
structure Acts (q : DataQueue) (op : QueueOp) (q' : DataQueue) : Prop where
  answers : q.call op = some ((Fifo.step capacity q.contents op.abs).1, q')
  contents : q'.contents = (Fifo.step capacity q.contents op.abs).2
  wellFormed : q'.WellFormed
  head : q'.bufferHead.toNat = q.bufferHead.toNat + q.admits op

theorem acts_enqueue {q : DataQueue} (h : q.WellFormed) (buf : Bytes)
    (hcount : q.bufferHead.toNat + q.admits (.enqueue buf) < 2 ^ 64) :
    ∃ q', q.Acts (.enqueue buf) q' := by
  have hfree := free_eq (used_le_capacity h)
  have hused := used_le_capacity h
  have hlen := contents_length q
  by_cases hlong : capacity < buf.length
  · have hret := enqueueData_too_long (q := q) hlong
    have hspec : Fifo.step capacity q.contents (.offer buf) = (⟨-1, []⟩, q.contents) := by
      simp [Fifo.step, Fifo.offer, hlong]
    refine ⟨q, ?_, ?_, h, ?_⟩
    · simp only [call, hret, QueueOp.abs, hspec]
      rfl
    · simp only [QueueOp.abs, hspec]
    · simp [admits, Nat.not_le.2 hlong]
  by_cases hroom : buf.length ≤ q.free
  · have hshort := Nat.le_of_not_lt hlong
    have hadmits : q.admits (.enqueue buf) = buf.length := if_pos ⟨hshort, hroom⟩
    rw [hadmits] at hcount
    rcases enqueueData_room h hroom hcount with ⟨q', hret, hwf, hcontents, hhead, -⟩
    have hspec : Fifo.step capacity q.contents (.offer buf) =
        (⟨buf.length, []⟩, q.contents ++ buf) := Fifo.offer_room (by omega)
    refine ⟨q', ?_, ?_, hwf, ?_⟩
    · simp only [call, hret, QueueOp.abs, hspec, Option.map_some, toInt_ofNat_length hshort]
    · simp only [QueueOp.abs, hspec, hcontents]
    · rw [hadmits, hhead]
  · have hret := enqueueData_full (Nat.le_of_not_lt hlong) (Nat.lt_of_not_le hroom)
    have hfull : ¬q.contents.length + buf.length ≤ capacity := by omega
    have hspec : Fifo.step capacity q.contents (.offer buf) = (⟨0, []⟩, q.contents) := by
      simp only [Fifo.step, Fifo.offer, if_neg hlong, if_neg hfull]
    refine ⟨q, ?_, ?_, h, ?_⟩
    · simp only [call, hret, QueueOp.abs, hspec]
      rfl
    · simp only [QueueOp.abs, hspec]
    · simp [admits, hroom]

theorem dequeueData_take {q : DataQueue} (h : q.WellFormed) (len : UInt64) :
    ∃ r bs q', q.dequeueData len = some (r, bs, q') ∧
      Fifo.take capacity q.contents len.toNat = (⟨r.toInt, bs⟩, q'.contents) ∧
      q'.WellFormed ∧ q'.bufferHead = q.bufferHead := by
  have hlen := contents_length q
  have hused := used_le_capacity h
  by_cases hlong : capacity < len.toNat
  · refine ⟨_, _, _, dequeueData_too_long hlong, ?_, h, rfl⟩
    rw [Fifo.take, if_pos hlong]
    rfl
  have hshort := Nat.le_of_not_lt hlong
  by_cases hthere : len.toNat ≤ q.used
  · refine ⟨_, _, _, dequeueData_used h hthere, ?_, (wellFormed_skip h hthere).1, rfl⟩
    rw [Fifo.take_there (by omega) hshort, toCInt_short hshort, (contents_skip q hthere).1]
  · refine ⟨_, _, _, dequeueData_short hshort (Nat.lt_of_not_le hthere), ?_, h, rfl⟩
    rw [Fifo.take, if_neg hlong, if_neg (by omega)]
    rfl

theorem acts_directWrite {q : DataQueue} (h : q.WellFormed) {bs : Bytes}
    (hbs : q.Allowed (.directWrite bs)) (hcount : q.bufferHead.toNat + bs.length < 2 ^ 64) :
    ∃ q', q.Acts (.directWrite bs) q' := by
  have hused := used_le_capacity h
  have hfree := free_eq hused
  have hcap := capacity_eq
  have hlen := contents_length q
  have hend := queueGetEndFreeCount_toInt (q := q) (by omega)
  have hmod := Nat.mod_lt q.bufferHead.toNat (show 0 < capacity by decide)
  have hbs : (bs.length : Int) ≤ q.queueGetEndFreeCount.toInt := hbs
  rw [hend] at hbs
  have hshort : bs.length ≤ capacity := by omega
  have hroom : bs.length ≤ q.free := by omega
  have hinside : q.bufferHead.toNat % capacity + bs.length ≤ capacity := by omega
  have hn := ofNat_length_toNat hshort
  have hcopy := copyIn_eq (q := q) hinside
  rcases contents_append h bs hn hinside hroom hcount with ⟨hwf, hcontents, hhead⟩
  have hforward : ∀ mem, queueHeadPointForward ⟨mem, q.bufferHead, q.bufferTail⟩
      (UInt64.ofNat bs.length) = (toCInt (UInt64.ofNat bs.length),
        ⟨mem, q.bufferHead + UInt64.ofNat bs.length, q.bufferTail⟩) :=
    fun mem => queueHeadPointForward_free (hn.trans_le hshort) (hn.trans_le hroom)
  have hspec : Fifo.step capacity q.contents (.offer bs) = (⟨bs.length, []⟩, q.contents ++ bs) :=
    Fifo.offer_room (by omega)
  refine ⟨_, ?_, ?_, hwf, hhead⟩
  · simp only [call, queueGetWritePtr_eq, hcopy, Option.map_some, QueueOp.abs, hspec]
    rw [hforward, toCInt_short (hn.trans_le hshort), hn]
  · simp only [QueueOp.abs, hspec]
    exact hcontents

theorem acts_directRead {q : DataQueue} (h : q.WellFormed) {n : Nat}
    (hn : q.Allowed (.directRead n)) : q.Acts (.directRead n) q := by
  have hused := used_le_capacity h
  have hcap := capacity_eq
  have hend := queueGetEndDataCount_toInt (q := q) (by omega)
  have hmod := Nat.mod_lt q.bufferTail.toNat (show 0 < capacity by decide)
  have hn : (n : Int) ≤ q.queueGetEndDataCount.toInt := hn
  rw [hend] at hn
  have hthere : n ≤ q.used := by omega
  have hhead := q.bufferHead.toNat_lt
  have horder := h.ordered
  have hsum := used_eq h
  have hcopy : q.copyOut q.queueGetReadPtr n = some (q.contents.take n) :=
    direct_read hthere ⟨by omega, by omega⟩
  have hspec : Fifo.step capacity q.contents (.look n) = (⟨n, q.contents.take n⟩, q.contents) := by
    rw [Fifo.step, Fifo.take_there (by simpa using hthere) (by omega)]
  refine ⟨?_, ?_, h, rfl⟩
  · simp only [call, hcopy, QueueOp.abs, hspec, Option.map_some]
  · simp only [QueueOp.abs, hspec]

/-- The step lemma: an allowed call that does not take the head to `2 ^ 64`. -/
theorem exists_acts {q : DataQueue} (h : q.WellFormed) {op : QueueOp} (hop : q.Allowed op)
    (hcount : q.bufferHead.toNat + q.admits op < 2 ^ 64) : ∃ q', q.Acts op q' := by
  cases op with
  | enqueue buf => exact acts_enqueue h buf hcount
  | directWrite bs => exact acts_directWrite h hop hcount
  | directRead n => exact ⟨q, acts_directRead h hop⟩
  | dequeue len =>
      rcases dequeueData_take h len with ⟨r, bs, q', hret, htake, hwf, hhead⟩
      refine ⟨q', ?_, ?_, hwf, congrArg UInt64.toNat hhead⟩
      · simp only [call, hret, QueueOp.abs, Fifo.step, htake, Option.map_some]
      · simp only [QueueOp.abs, Fifo.step, htake]
  | read len =>
      rcases dequeueData_take h len with ⟨r, bs, q', hret, htake, -, -⟩
      refine ⟨q, ?_, rfl, h, rfl⟩
      simp only [call, readData_eq, hret, QueueOp.abs, Fifo.step, htake, Option.map_some]
  | forward len =>
      rcases dequeueData_take h len with ⟨r, bs, q', hret, htake, hwf, hhead⟩
      have hforward := queueTailPointForward_of_dequeue hret
      refine ⟨q', ?_, ?_, hwf, congrArg UInt64.toNat hhead⟩
      · simp only [call, hforward, QueueOp.abs, Fifo.step, htake]
      · simp only [QueueOp.abs, Fifo.step, htake]

/-- No cell a direct write may touch holds an unread byte. -/
theorem directWrite_apart {q : DataQueue} (h : q.WellFormed) {i j : Nat}
    (hi : (i : Int) < q.queueGetEndFreeCount.toInt) (hj : j < q.used) :
    q.queueGetWritePtr + i ≠ q.cell j := by
  have hfree := free_eq (used_le_capacity h)
  have hused := used_eq h
  have hcap := capacity_eq
  have hhead := q.bufferHead.toNat_lt
  rw [queueGetEndFreeCount_toInt (by omega)] at hi
  have hlap : (q.bufferHead.toNat + i) % capacity = q.bufferHead.toNat % capacity + i := by
    rw [Nat.add_mod, Nat.mod_eq_of_lt (a := i) (by omega), Nat.mod_eq_of_lt (by omega)]
  rw [queueGetWritePtr_eq, ← hlap, cell_of_lt (by omega)]
  exact (Ring.mod_ne_of_lt (by omega) (by omega)).symm

end DataQueue

/-! ## Runs -/

structure OpState where
  queue : DataQueue
  done : List (QueueOp × Fifo.Answer UInt8)
  passed : Nat

def opMachine (mem : Nat → UInt8) (start : UInt64) : Machine OpState QueueOp where
  init s := s = ⟨⟨mem, start, start⟩, [], 0⟩
  step s op := (s.queue.call op).map fun r =>
    ⟨r.2, s.done ++ [(op, r.1)], s.passed + s.queue.admits op⟩

namespace OpState

/-- The calls so far acted on the unread bytes as on a bounded queue that was empty. -/
structure Tracks (start : UInt64) (s : OpState) : Prop where
  answers : Fifo.run capacity [] (s.done.map fun d => d.1.abs) =
    (s.done.map Prod.snd, s.queue.contents)
  wellFormed : s.queue.WellFormed
  head : s.queue.bufferHead.toNat = start.toNat + s.passed

/-- The ring is a bounded queue of bytes: in what it answered, in what it holds, and in what the
next call may do. -/
structure IsFifo (start : UInt64) (s : OpState) : Prop where
  answers : Fifo.run capacity [] (s.done.map fun d => d.1.abs) =
    (s.done.map Prod.snd, s.queue.contents)
  short : s.queue.contents.length ≤ capacity
  ordered : s.queue.bufferTail.toNat ≤ s.queue.bufferHead.toNat
  bounded : s.queue.bufferHead.toNat ≤ s.queue.bufferTail.toNat + capacity
  next : ∀ op, s.queue.Allowed op → start.toNat + s.passed + s.queue.admits op < 2 ^ 64 →
    ∃ q', s.queue.call op = some ((Fifo.step capacity s.queue.contents op.abs).1, q') ∧
      q'.contents = (Fifo.step capacity s.queue.contents op.abs).2
  apart : ∀ i j : Nat, (i : Int) < s.queue.queueGetEndFreeCount.toInt → j < s.queue.used →
    s.queue.queueGetWritePtr + i ≠ s.queue.cell j

variable {mem : Nat → UInt8} {start : UInt64}

theorem tracks_start : Tracks start ⟨⟨mem, start, start⟩, [], 0⟩ := by
  have hused : DataQueue.used ⟨mem, start, start⟩ = 0 := by
    rw [DataQueue.used, UInt64.sub_self]
    rfl
  refine ⟨?_, ⟨Nat.le_refl _, Nat.le_add_right ..⟩, rfl⟩
  rw [DataQueue.contents, hused]
  rfl

theorem Tracks.step {s t : OpState} {op : QueueOp} (h : s.Tracks start)
    (hop : s.queue.Allowed op) (hs : (opMachine mem start).step s op = some t)
    (hcount : start.toNat + t.passed < 2 ^ 64) : t.Tracks start := by
  rcases Option.map_eq_some_iff.1 hs with ⟨r, hr, ht⟩
  have hpassed : t.passed = s.passed + s.queue.admits op := congrArg OpState.passed ht.symm
  have hhead := h.head
  rcases DataQueue.exists_acts h.wellFormed hop (by omega) with ⟨q', hacts⟩
  have hrun := h.answers
  rw [hacts.answers] at hr
  cases hr
  cases ht
  refine ⟨?_, hacts.wellFormed, ?_⟩
  · simp only [List.map_append, List.map_cons, List.map_nil, Fifo.run_snoc, hrun]
    rw [← hacts.contents]
  · show q'.bufferHead.toNat = start.toNat + (s.passed + s.queue.admits op)
    rw [hacts.head]
    omega

theorem Tracks.of_run {s : OpState}
    (h : (opMachine mem start).Run (fun s op => s.queue.Allowed op) s) :
    start.toNat + s.passed < 2 ^ 64 → s.Tracks start := by
  refine h.invariant (P := fun s => start.toNat + s.passed < 2 ^ 64 → s.Tracks start) ?_ ?_
  · rintro _ rfl -
    exact tracks_start
  · intro s op t ih hop hs hcount
    have hpassed : t.passed = s.passed + s.queue.admits op := by
      rcases Option.map_eq_some_iff.1 hs with ⟨r, -, ht⟩
      exact congrArg OpState.passed ht.symm
    exact (ih (by omega)).step hop hs hcount

end OpState

/-- Every sequence of calls that does not take a counter to `2 ^ 64`, from every starting point. -/
theorem isFifo_of_passed (mem : Nat → UInt8) (start : UInt64) {s : OpState}
    (h : (opMachine mem start).Run (fun s op => s.queue.Allowed op) s)
    (hcount : start.toNat + s.passed < 2 ^ 64) : s.IsFifo start := by
  have ht := OpState.Tracks.of_run h hcount
  refine ⟨ht.answers, ?_, ht.wellFormed.ordered, ht.wellFormed.bounded, fun op hop hnext => ?_,
    fun i j => DataQueue.directWrite_apart ht.wellFormed⟩
  · have hnil : ([] : Bytes).length ≤ capacity := Nat.zero_le _
    have hle := Fifo.run_length_le hnil (s.done.map fun d => d.1.abs)
    rw [ht.answers] at hle
    exact hle
  · have hhead := ht.head
    rcases DataQueue.exists_acts ht.wellFormed hop (by omega) with ⟨q', hacts⟩
    exact ⟨q', hacts.answers, hacts.contents⟩

theorem isFifo_fresh : ∃ s : OpState, s.passed = 2 ∧ s.IsFifo 0 := by
  have hrun : ∃ s, (opMachine (fun _ => 0) 0).exec ⟨⟨fun _ => 0, 0, 0⟩, [], 0⟩
      [.enqueue [1, 2], .read 2, .dequeue 1] = some s ∧ s.passed = 2 := ⟨_, rfl, rfl⟩
  rcases hrun with ⟨s, hs, hpassed⟩
  refine ⟨s, hpassed, isFifo_of_passed (fun _ => 0) 0 (Machine.Run.exec (.start rfl) ?_ hs) ?_⟩
  · intro op hop s
    simp only [List.mem_cons, List.not_mem_nil, or_false] at hop
    rcases hop with rfl | rfl | rfl <;> trivial
  · rw [hpassed]
    decide

/-- With both counters one below `2 ^ 64` two bytes go to two neighbouring cells, but the second
one is read from the cell of position 0. -/
theorem wrapped_start_not_fifo : ∃ s : OpState,
    (opMachine (fun _ => 0) 18446744073709551615).Run (fun s op => s.queue.Allowed op) s ∧
      s.passed < 2 ^ 64 ∧
      s.done = [(.enqueue [1, 2], ⟨2, []⟩), (.dequeue 1, ⟨1, [1]⟩), (.dequeue 1, ⟨1, [0]⟩)] ∧
      ¬s.IsFifo 18446744073709551615 := by
  have hrun : ((opMachine (fun _ => 0) 18446744073709551615).exec
      ⟨⟨fun _ => 0, 18446744073709551615, 18446744073709551615⟩, [], 0⟩
      [.enqueue [1, 2], .dequeue 1, .dequeue 1]).map (fun s => (s.done, s.passed)) =
      some ([(.enqueue [1, 2], ⟨2, []⟩), (.dequeue 1, ⟨1, [1]⟩), (.dequeue 1, ⟨1, [0]⟩)], 2) := by
    decide +kernel
  rcases Option.map_eq_some_iff.1 hrun with ⟨s, hs, hdone⟩
  have hops : s.done = _ := congrArg Prod.fst hdone
  have hpassed : s.passed = 2 := congrArg Prod.snd hdone
  refine ⟨s, Machine.Run.exec (.start rfl) ?_ hs, ?_, hops, fun h => ?_⟩
  · intro op hop s
    simp only [List.mem_cons, List.not_mem_nil, or_false] at hop
    rcases hop with rfl | rfl | rfl <;> trivial
  · rw [hpassed]
    decide
  · have hanswers : (Fifo.run capacity [] _).1 = s.done.map Prod.snd :=
      congrArg Prod.fst h.answers
    rw [hops] at hanswers
    revert hanswers
    decide +kernel

end Hprd.Common

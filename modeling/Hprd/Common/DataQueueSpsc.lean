import Hprd.Common.DataQueueSteps

/-!
# The ring between one producer and one consumer

One thread calls `enqueue_data`, another one `dequeue_data`, as often as they like
and with their accesses in any order. `stamp` is a ghost that remembers for which
stream position a cell was written last. What the consumer gets is what the
producer's calls put in, in order, whatever each of them read of the other's counter.
-/

namespace Hprd.Common

open Hprd.Core

structure Spsc where
  queue : DataQueue
  stamp : Nat → Option Nat
  producer : Option (Bytes × Pc Bytes)
  /-- the length asked for, the bytes copied so far, and where the call stands -/
  consumer : Option (UInt64 × Bytes × Pc UInt64)
  /-- the calls that returned, with their results -/
  enqueued : List (Bytes × Int32)
  dequeued : List (Bytes × Int32)

inductive SpscAction where
  | enqueue (buf : Bytes)
  | dequeue (len : UInt64)
  | producer (c : Counter)
  | consumer (c : Counter)

/-- A `memcpy` into the ring stamps its cells with the positions they are written for. -/
def stampAfter (q : DataQueue) (stamp : Nat → Option Nat) : Pc Bytes → Nat → Option Nat
  | .copy off (b :: _) =>
      Ring.store stamp off ((List.range' q.bufferHead.toNat b.length).map some)
  | _ => stamp

namespace Spsc

def afterEnqueue (s : Spsc) (buf : Bytes) : Ends Bytes → Spsc
  | .inl pc => { s with producer := some (buf, pc) }
  | .inr r => { s with producer := none, enqueued := s.enqueued ++ [(buf, r)] }

def afterDequeue (s : Spsc) (len : UInt64) (got : Bytes) : Ends UInt64 → Spsc
  | .inl pc => { s with consumer := some (len, got, pc) }
  | .inr r => { s with consumer := none, dequeued := s.dequeued ++ [(got, r)] }

def step (s : Spsc) : SpscAction → Option Spsc
  | .enqueue buf =>
      match s.producer with
      | some _ => none
      | none => some (s.afterEnqueue buf (DataQueue.enqueueEntry buf))
  | .dequeue len =>
      match s.consumer with
      | some _ => none
      | none => some (s.afterDequeue len [] (DataQueue.dequeueEntry len))
  | .producer c =>
      match s.producer with
      | none => none
      | some (buf, pc) => (s.queue.enqueueStep buf c pc).map fun r =>
          afterEnqueue { s with queue := r.1, stamp := stampAfter s.queue s.stamp pc } buf r.2
  | .consumer c =>
      match s.consumer with
      | none => none
      | some (len, got, pc) => (s.queue.dequeueStep len c pc).map fun r =>
          afterDequeue { s with queue := r.1 } len (got ++ r.2.1) r.2.2

end Spsc

/-- The two threads on a ring with any cells and both counters at `start`. -/
def spscMachine (mem : Nat → UInt8) (start : UInt64) : Machine Spsc SpscAction where
  init s := s = ⟨⟨mem, start, start⟩, fun _ => none, none, none, [], []⟩
  step := Spsc.step

/-! ## The bytes that went in and came out -/

/-- The bytes of calls that returned a positive number. -/
def succeeded (calls : List (Bytes × Int32)) : Bytes :=
  calls.flatMap fun e => if 0 < e.2 then e.1 else []

/-- The bytes a call of `enqueue_data` has been given room for. -/
def Ends.total (buf : Bytes) : Ends Bytes → Bytes
  | .inl pc => if pc.found then buf else []
  | .inr r => if 0 < r then buf else []

namespace Spsc

/-- The bytes of the calls of `enqueue_data` that found room, also of the one under way. -/
def accepted (s : Spsc) : Bytes :=
  succeeded s.enqueued ++ s.producer.elim [] fun e => Ends.total e.1 (.inl e.2)

/-- The bytes of the calls of `enqueue_data` that began and were not refused. -/
def begun (s : Spsc) : Bytes := succeeded s.enqueued ++ s.producer.elim [] Prod.fst

/-- The bytes of all calls of `enqueue_data` that began, also of refused ones. -/
def offered (s : Spsc) : Bytes := s.enqueued.flatMap Prod.fst ++ s.producer.elim [] Prod.fst

/-- The bytes of the calls of `dequeue_data` that succeeded. -/
def returned (s : Spsc) : Bytes := succeeded s.dequeued

/-- What one producer and one consumer rely on. -/
structure Sound (s : Spsc) : Prop where
  inOrder : s.returned <+: s.begun
  ordered : s.queue.bufferTail.toNat ≤ s.queue.bufferHead.toNat
  bounded : s.queue.bufferHead.toNat - s.queue.bufferTail.toNat ≤ capacity
  /-- every byte the consumer is about to copy was written for the position it is read at -/
  written : ∀ len got off n ns, s.consumer = some (len, got, .copy off (n :: ns)) →
    off + n.toNat ≤ capacity ∧
      ∀ i, i < n.toNat → s.stamp (off + i) = some (s.queue.bufferTail.toNat + i)
  /-- no cell the producer is about to overwrite holds an unread byte -/
  kept : ∀ buf off b bs, s.producer = some (buf, .copy off (b :: bs)) →
    off + b.length ≤ capacity ∧
      ∀ i p, i < b.length → s.queue.bufferTail.toNat ≤ p → p < s.queue.bufferHead.toNat →
        off + i ≠ p % capacity

def rest (s : Spsc) : Bytes := s.producer.elim [] fun e => e.2.rest e.1

def ahead (s : Spsc) : Nat := s.producer.elim 0 fun e => e.2.ahead List.length

def got (s : Spsc) : Bytes := s.consumer.elim [] fun e => e.2.1

def readAhead (s : Spsc) : Nat := s.consumer.elim 0 fun e => e.2.2.ahead UInt64.toNat

/-- The invariant: each side against the ring, and the ring against the bytes accepted. -/
structure Inv (start : Nat) (s : Spsc) : Prop where
  carries : Carries start s.queue s.accepted s.rest s.ahead
  producing : ∀ buf pc, s.producer = some (buf, pc) →
    buf.length ≤ capacity ∧ s.queue.Producing buf pc
  consuming : ∀ len got pc, s.consumer = some (len, got, pc) →
    len.toNat ≤ capacity ∧ s.queue.Consuming len pc ∧ got.length + pc.left len = len.toNat
  read : s.returned ++ s.got =
    s.accepted.take (s.queue.bufferTail.toNat + s.readAhead - start)
  stamps : Ring.Holds capacity s.stamp some s.queue.bufferTail.toNat
    (s.queue.bufferHead.toNat + s.ahead)

end Spsc

@[simp] theorem succeeded_snoc (calls : List (Bytes × Int32)) (bs : Bytes) (r : Int32) :
    succeeded (calls ++ [(bs, r)]) = succeeded calls ++ if 0 < r then bs else [] := by
  simp [succeeded]

/-- Bytes whose number is returned are there unless there are none. -/
theorem ite_pos_of_toInt {bs : Bytes} {ret : Int32} (h : ret.toInt = bs.length) :
    (if 0 < ret then bs else []) = bs := by
  split
  · rfl
  · next hpos =>
      have hzero : (0 : Int32).toInt = 0 := by decide
      rw [Int32.lt_iff_toInt_lt, h, hzero] at hpos
      exact (List.eq_nil_of_length_eq_zero (by omega)).symm

theorem ite_pos_ofNat {bs : Bytes} (h : bs.length ≤ capacity) :
    (if 0 < Int32.ofNat bs.length then bs else []) = bs :=
  ite_pos_of_toInt (DataQueue.toInt_ofNat_length h)

theorem ite_pos_toCInt {bs : Bytes} {len : UInt64} (hlen : len.toNat ≤ capacity)
    (h : bs.length = len.toNat) : (if 0 < toCInt len then bs else []) = bs := by
  have hret := DataQueue.toCInt_short hlen
  rw [← h] at hret
  exact ite_pos_of_toInt hret

section

variable {start : Nat} {q q' : DataQueue} {buf : Bytes} {pc : Pc Bytes} {o : Ends Bytes}

theorem DataQueue.EnqueueMove.total (hm : q.EnqueueMove buf pc q' o) (hlen : buf.length ≤ capacity) :
    o.total buf = Ends.total buf (.inl pc) ++ Ends.accepts buf pc o := by
  cases hm with
  | look hrest hfound hbefore hafter hplain =>
      simp only [Ends.total, Ends.accepts, hfound, if_true, List.append_nil]
  | accept => rfl
  | refuse => rfl
  | copied hend => simp [Ends.total, Ends.accepts, Pc.found]
  | published hmore => simp [Ends.total, Ends.accepts, Pc.found]
  | returned =>
      simp only [Ends.total, Ends.accepts, Pc.found, ite_pos_ofNat hlen, if_true, List.append_nil]

/-- The stamps move on as the bytes do. -/
theorem DataQueue.EnqueueMove.stamps {stamp : Nat → Option Nat} (hm : q.EnqueueMove buf pc q' o)
    (h : Ring.Holds capacity stamp some q.bufferTail.toNat
      (q.bufferHead.toNat + pc.ahead List.length))
    (hroom : q.bufferHead.toNat + (pc.rest buf).length ≤ q.bufferTail.toNat + capacity)
    (hcount : q.bufferHead.toNat + (pc.rest buf).length < 2 ^ 64) :
    Ring.Holds capacity (stampAfter q stamp pc) some q.bufferTail.toNat
      (q'.bufferHead.toNat + o.ahead List.length) := by
  cases hm with
  | look hrest hfound hbefore hafter hplain =>
      have hsame : stampAfter q stamp pc = stamp := by
        cases pc with
        | copy off blocks => exact absurd rfl (hplain off blocks)
        | _ => rfl
      rw [hbefore] at h
      rw [hsame, Ends.ahead, hafter]
      exact h
  | accept => exact h
  | refuse => exact h
  | @copied b bs hend =>
      simp only [Pc.rest, List.flatten_cons, List.length_append] at hroom
      have h : Ring.Holds capacity stamp some q.bufferTail.toNat q.bufferHead.toNat := h
      have hlen : ((List.range' q.bufferHead.toNat b.length).map some).length = b.length := by simp
      rw [← hlen] at hend hroom
      have hstore := h.store hend (by omega) (fun i hi => by simp)
      rw [hlen] at hstore
      exact hstore
  | @published b bs hmore =>
      simp only [Pc.rest, List.flatten_cons, List.length_append] at hcount
      have hhead := DataQueue.head_add (q := q) (n := b.length) (by omega)
      show Ring.Holds _ _ _ _ ((q.bufferHead + UInt64.ofNat b.length).toNat + 0)
      rw [hhead]
      exact h
  | @returned b =>
      simp only [Pc.rest, List.flatten_cons, List.length_append] at hcount
      have hhead := DataQueue.head_add (q := q) (n := b.length) (by omega)
      show Ring.Holds _ _ _ _ ((q.bufferHead + UInt64.ofNat b.length).toNat + 0)
      rw [hhead]
      exact h

end

theorem total_enqueueEntry (buf : Bytes) :
    (DataQueue.enqueueEntry buf).total buf = [] ∧ (DataQueue.enqueueEntry buf).rest buf = [] ∧
      (DataQueue.enqueueEntry buf).ahead List.length = 0 := by
  unfold DataQueue.enqueueEntry
  split <;> exact ⟨rfl, rfl, rfl⟩

theorem ahead_dequeueEntry (len : UInt64) : (DataQueue.dequeueEntry len).ahead UInt64.toNat = 0 := by
  unfold DataQueue.dequeueEntry
  split <;> rfl

/-! ## Records after a step -/

namespace Spsc

section

variable (s : Spsc) (buf got : Bytes) (len : UInt64) (o : Ends Bytes) (e : Ends UInt64)

@[simp] theorem afterEnqueue_queue : (s.afterEnqueue buf o).queue = s.queue := by cases o <;> rfl

@[simp] theorem afterEnqueue_stamp : (s.afterEnqueue buf o).stamp = s.stamp := by cases o <;> rfl

@[simp] theorem afterEnqueue_consumer : (s.afterEnqueue buf o).consumer = s.consumer := by
  cases o <;> rfl

@[simp] theorem afterEnqueue_returned : (s.afterEnqueue buf o).returned = s.returned := by
  cases o <;> rfl

@[simp] theorem afterEnqueue_got : (s.afterEnqueue buf o).got = s.got := by cases o <;> rfl

@[simp] theorem afterEnqueue_readAhead : (s.afterEnqueue buf o).readAhead = s.readAhead := by
  cases o <;> rfl

@[simp] theorem afterEnqueue_accepted :
    (s.afterEnqueue buf o).accepted = succeeded s.enqueued ++ o.total buf := by
  cases o with
  | inl pc => rfl
  | inr r => simp [afterEnqueue, accepted, Ends.total]

@[simp] theorem afterEnqueue_rest : (s.afterEnqueue buf o).rest = o.rest buf := by cases o <;> rfl

@[simp] theorem afterEnqueue_ahead : (s.afterEnqueue buf o).ahead = o.ahead List.length := by
  cases o <;> rfl

@[simp] theorem afterDequeue_queue : (s.afterDequeue len got e).queue = s.queue := by
  cases e <;> rfl

@[simp] theorem afterDequeue_stamp : (s.afterDequeue len got e).stamp = s.stamp := by
  cases e <;> rfl

@[simp] theorem afterDequeue_producer : (s.afterDequeue len got e).producer = s.producer := by
  cases e <;> rfl

@[simp] theorem afterDequeue_accepted : (s.afterDequeue len got e).accepted = s.accepted := by
  cases e <;> rfl

@[simp] theorem afterDequeue_rest : (s.afterDequeue len got e).rest = s.rest := by cases e <;> rfl

@[simp] theorem afterDequeue_ahead : (s.afterDequeue len got e).ahead = s.ahead := by
  cases e <;> rfl

@[simp] theorem afterDequeue_readAhead :
    (s.afterDequeue len got e).readAhead = e.ahead UInt64.toNat := by cases e <;> rfl

theorem producer_afterEnqueue {buf' : Bytes} {pc : Pc Bytes}
    (h : (s.afterEnqueue buf o).producer = some (buf', pc)) : buf' = buf ∧ o = .inl pc := by
  cases o with
  | inl pc' =>
      cases h
      exact ⟨rfl, rfl⟩
  | inr r => cases h

theorem consumer_afterDequeue {len' : UInt64} {got' : Bytes} {pc : Pc UInt64}
    (h : (s.afterDequeue len got e).consumer = some (len', got', pc)) :
    len' = len ∧ got' = got ∧ e = .inl pc := by
  cases e with
  | inl pc' =>
      cases h
      exact ⟨rfl, rfl, rfl⟩
  | inr r => cases h

/-- What has been returned and copied, once the bytes of a finished call count as returned. -/
theorem returned_afterDequeue (h : ∀ r, e = .inr r → (if 0 < r then got else []) = got) :
    (s.afterDequeue len got e).returned ++ (s.afterDequeue len got e).got = s.returned ++ got := by
  cases e with
  | inl pc => rfl
  | inr r => simp [afterDequeue, returned, Spsc.got, h r rfl]

end

/-! ## The invariant -/

variable {start : UInt64} {s : Spsc}

theorem inv_start (mem : Nat → UInt8) :
    Inv start.toNat ⟨⟨mem, start, start⟩, fun _ => none, none, none, [], []⟩ := by
  refine ⟨⟨⟨Nat.le_refl _, Nat.le_add_right ..⟩, Nat.le_refl _, rfl, List.suffix_refl _, ?_⟩,
    nofun, nofun, ?_, ?_⟩
  · intro p hlo hhi
    exact absurd hhi (Nat.not_lt.2 hlo)
  · exact (List.take_nil ..).symm
  · intro p hlo hhi
    exact absurd hhi (Nat.not_lt.2 hlo)

theorem Inv.enqueue (h : s.Inv start.toNat) (hs : s.producer = none) (buf : Bytes) :
    (s.afterEnqueue buf (DataQueue.enqueueEntry buf)).Inv start.toNat := by
  have hrest : s.rest = [] := by rw [rest, hs]; rfl
  have hahead : s.ahead = 0 := by rw [ahead, hs]; rfl
  have hacc : s.accepted = succeeded s.enqueued := by
    rw [accepted, hs]
    exact List.append_nil _
  have hin := @DataQueue.enqueueEntry_inl buf
  have hquiet := total_enqueueEntry buf
  generalize DataQueue.enqueueEntry buf = o at *
  have hsame : (s.afterEnqueue buf o).accepted = s.accepted := by
    rw [afterEnqueue_accepted, hquiet.1, List.append_nil, hacc]
  refine ⟨?_, ?_, ?_, ?_, ?_⟩
  · rw [hsame, afterEnqueue_rest, afterEnqueue_ahead, hquiet.2.1, hquiet.2.2, ← hrest, ← hahead,
      afterEnqueue_queue]
    exact h.carries
  · intro buf' pc hp
    rcases producer_afterEnqueue s buf o hp with ⟨rfl, ho⟩
    rcases hin ho with ⟨rfl, hlen⟩
    exact ⟨hlen, trivial⟩
  · intro len got pc hc
    rw [afterEnqueue_consumer] at hc
    rw [afterEnqueue_queue]
    exact h.consuming len got pc hc
  · rw [hsame, afterEnqueue_returned, afterEnqueue_got, afterEnqueue_readAhead, afterEnqueue_queue]
    exact h.read
  · rw [afterEnqueue_stamp, afterEnqueue_queue, afterEnqueue_ahead, hquiet.2.2, ← hahead]
    exact h.stamps

theorem Inv.dequeue (h : s.Inv start.toNat) (hs : s.consumer = none) (len : UInt64) :
    (s.afterDequeue len [] (DataQueue.dequeueEntry len)).Inv start.toNat := by
  have hgot : s.got = [] := by rw [got, hs]; rfl
  have hahead : s.readAhead = 0 := by rw [readAhead, hs]; rfl
  have hin := @DataQueue.dequeueEntry_inl len
  have hquiet := ahead_dequeueEntry len
  generalize DataQueue.dequeueEntry len = o at *
  have hreturned := returned_afterDequeue s [] len o fun r hr => by split <;> rfl
  refine ⟨?_, ?_, ?_, ?_, ?_⟩
  · rw [afterDequeue_accepted, afterDequeue_rest, afterDequeue_ahead, afterDequeue_queue]
    exact h.carries
  · intro buf pc hp
    rw [afterDequeue_producer] at hp
    rw [afterDequeue_queue]
    exact h.producing buf pc hp
  · intro len' got' pc hc
    rcases consumer_afterDequeue s [] len o hc with ⟨rfl, rfl, ho⟩
    rcases hin ho with ⟨rfl, hlen⟩
    exact ⟨hlen, trivial, Nat.zero_add _⟩
  · rw [hreturned, afterDequeue_readAhead, hquiet, ← hgot, ← hahead, afterDequeue_queue,
      afterDequeue_accepted]
    exact h.read
  · rw [afterDequeue_ahead, afterDequeue_queue, afterDequeue_stamp]
    exact h.stamps

theorem accepted_of_producer {buf : Bytes} {pc : Pc Bytes} (hp : s.producer = some (buf, pc)) :
    s.accepted = succeeded s.enqueued ++ Ends.total buf (.inl pc) := by
  rw [accepted, hp]
  rfl

theorem Inv.readAhead_le (h : s.Inv start.toNat) :
    s.queue.bufferTail.toNat + s.readAhead ≤ s.queue.bufferHead.toNat := by
  cases hc : s.consumer with
  | none =>
      rw [readAhead, hc]
      exact h.carries.wellFormed.ordered
  | some e =>
      rcases e with ⟨len, got, pc⟩
      rw [readAhead, hc]
      exact (h.consuming len got pc hc).2.1.ahead_le h.carries.wellFormed

theorem Inv.producer (h : s.Inv start.toNat) {buf : Bytes} {pc : Pc Bytes}
    (hp : s.producer = some (buf, pc)) {c : Counter} {q : DataQueue} {o : Ends Bytes}
    (hs : s.queue.enqueueStep buf c pc = some (q, o))
    (hcount : start.toNat + s.accepted.length < 2 ^ 64) :
    (afterEnqueue { s with queue := q, stamp := stampAfter s.queue s.stamp pc } buf o).Inv
      start.toNat := by
  rcases h.producing buf pc hp with ⟨hlen, hpc⟩
  have hrest : s.rest = pc.rest buf := by rw [rest, hp]; rfl
  have hahead : s.ahead = pc.ahead List.length := by rw [ahead, hp]; rfl
  have hcarries := h.carries
  have hstamps := h.stamps
  have hpub := hcarries.published
  rw [hrest, hahead] at hcarries
  rw [hrest] at hpub
  rw [hahead] at hstamps
  rcases DataQueue.enqueueStep_moves hcarries.wellFormed hlen hpc (by omega) hs with ⟨hm, hnext⟩
  rcases hcarries.enqueue hpc hm hcount with ⟨hcarries', htail, hhead⟩
  have htotal : (afterEnqueue { s with queue := q, stamp := stampAfter s.queue s.stamp pc }
      buf o).accepted = s.accepted ++ Ends.accepts buf pc o := by
    rw [afterEnqueue_accepted, hm.total hlen, accepted_of_producer hp, List.append_assoc]
  have hroom := hpc.rest_le hcarries.wellFormed
  refine ⟨?_, ?_, ?_, ?_, ?_⟩
  · rw [htotal, afterEnqueue_queue, afterEnqueue_rest, afterEnqueue_ahead]
    exact hcarries'
  · intro buf' pc' hp'
    rcases producer_afterEnqueue _ buf o hp' with ⟨rfl, ho⟩
    rw [afterEnqueue_queue]
    exact ⟨hlen, hnext pc' ho⟩
  · intro len got pc' hc
    rw [afterEnqueue_consumer] at hc
    rcases h.consuming len got pc' hc with ⟨hlen', hpc', hleft⟩
    rw [afterEnqueue_queue]
    refine ⟨hlen', ?_, hleft⟩
    show Placed .tail 0 q.bufferTail.toNat q.bufferHead.toNat _ _ _
    rw [htail]
    exact Placed.mono hpc' hhead
  · rw [htotal, afterEnqueue_returned, afterEnqueue_got, afterEnqueue_readAhead, afterEnqueue_queue,
      htail]
    -- what has been read lies within the bytes that were accepted before
    show s.returned ++ s.got =
      (s.accepted ++ _).take (s.queue.bufferTail.toNat + s.readAhead - start.toNat)
    have hbelow := h.readAhead_le
    rw [List.take_append_of_le_length (by omega)]
    exact h.read
  · rw [afterEnqueue_stamp, afterEnqueue_queue, afterEnqueue_ahead, htail]
    exact hm.stamps hstamps hroom (by omega)

theorem Inv.consumer (h : s.Inv start.toNat) {len : UInt64} {got : Bytes} {pc : Pc UInt64}
    (hc : s.consumer = some (len, got, pc)) {c : Counter} {q : DataQueue} {bs : Bytes}
    {o : Ends UInt64} (hs : s.queue.dequeueStep len c pc = some (q, bs, o)) :
    (afterDequeue { s with queue := q } len (got ++ bs) o).Inv start.toNat := by
  rcases h.consuming len got pc hc with ⟨hlen, hpc, hleft⟩
  have hgot : s.got = got := by rw [Spsc.got, hc]; rfl
  have hahead : s.readAhead = pc.ahead UInt64.toNat := by rw [readAhead, hc]; rfl
  have hread := h.read
  rw [hgot, hahead] at hread
  rcases DataQueue.dequeueStep_moves h.carries.wellFormed hlen hpc hs with ⟨hm, hnext⟩
  rcases h.carries.dequeue hread hm with ⟨hcarries, hread', hhead, htail⟩
  have hfinish : ∀ r, o = .inr r → (if 0 < r then got ++ bs else []) = got ++ bs := by
    rintro r rfl
    rcases hm.left_inr with ⟨rfl, ⟨rfl, hzero⟩ | ⟨rfl, hzero⟩⟩
    · have hnil : got = [] := List.eq_nil_of_length_eq_zero (by omega)
      rw [hnil]
      rfl
    · rw [List.append_nil]
      exact ite_pos_toCInt hlen (by omega)
  refine ⟨?_, ?_, ?_, ?_, ?_⟩
  · rw [afterDequeue_accepted, afterDequeue_rest, afterDequeue_ahead, afterDequeue_queue]
    exact hcarries
  · intro buf pc' hp
    rw [afterDequeue_producer] at hp
    rcases h.producing buf pc' hp with ⟨hlen', hpc'⟩
    rw [afterDequeue_queue]
    refine ⟨hlen', ?_⟩
    show Placed .head capacity q.bufferHead.toNat (q.bufferTail.toNat + capacity) _ _ _
    rw [hhead]
    exact Placed.mono hpc' (Nat.add_le_add_right htail _)
  · intro len' got' pc' hc'
    rcases consumer_afterDequeue _ (got ++ bs) len o hc' with ⟨rfl, rfl, ho⟩
    rw [afterDequeue_queue]
    refine ⟨hlen, hnext pc' ho, ?_⟩
    subst ho
    have hmove := hm.left_inl
    rw [List.length_append]
    omega
  · rw [returned_afterDequeue _ _ len o hfinish, afterDequeue_readAhead, afterDequeue_queue,
      afterDequeue_accepted, ← List.append_assoc]
    exact hread'
  · rw [afterDequeue_ahead, afterDequeue_queue, afterDequeue_stamp]
    show Ring.Holds _ _ _ q.bufferTail.toNat (q.bufferHead.toNat + s.ahead)
    rw [hhead]
    exact h.stamps.mono htail (Nat.le_refl _)

/-- Whatever the ring looks like, no step takes accepted bytes back. -/
theorem total_enqueueStep {q q' : DataQueue} {buf : Bytes} {c : Counter} {pc : Pc Bytes}
    {o : Ends Bytes} (hlen : buf.length ≤ capacity)
    (hs : q.enqueueStep buf c pc = some (q', o)) :
    (Ends.total buf (.inl pc)).length ≤ (o.total buf).length := by
  cases pc with
  | room loaded => exact Nat.zero_le _
  | straight =>
      simp only [DataQueue.enqueueStep] at hs
      split at hs <;> cases hs <;> exact Nat.le_refl _
  | measure =>
      simp only [DataQueue.enqueueStep] at hs
      split at hs
      · cases hs
        exact Nat.le_refl _
      · cases hs
  | aim blocks =>
      cases hs
      exact Nat.le_refl _
  | copy off blocks =>
      cases blocks with
      | nil => cases hs
      | cons b bs =>
          rcases Option.map_eq_some_iff.1 hs with ⟨q₁, -, hq⟩
          cases hq
          exact Nat.le_refl _
  | publish blocks =>
      cases blocks with
      | nil => cases hs
      | cons b bs =>
          cases hs
          split
          · rw [Ends.total, Ends.total, ite_pos_ofNat hlen]
            exact Nat.le_refl _
          · exact Nat.le_refl _

/-- The buffer of a call that passed the test of `len` fits into the ring. -/
def Short (s : Spsc) : Prop := ∀ buf pc, s.producer = some (buf, pc) → buf.length ≤ capacity

theorem short_step {t : Spsc} {a : SpscAction} (h : s.Short) (hs : s.step a = some t) :
    t.Short ∧ s.accepted.length ≤ t.accepted.length := by
  cases a with
  | enqueue buf =>
      cases hp : s.producer with
      | some e => simp [step, hp] at hs
      | none =>
          have ht : t = s.afterEnqueue buf (DataQueue.enqueueEntry buf) := by
            simpa [step, hp] using hs.symm
          subst ht
          refine ⟨fun buf' pc hp' => ?_, ?_⟩
          · rcases producer_afterEnqueue s buf _ hp' with ⟨rfl, ho⟩
            exact (DataQueue.enqueueEntry_inl ho).2
          · rw [afterEnqueue_accepted, accepted, hp, (total_enqueueEntry buf).1]
            exact Nat.le_refl _
  | dequeue len =>
      cases hc : s.consumer with
      | some e => simp [step, hc] at hs
      | none =>
          have ht : t = s.afterDequeue len [] (DataQueue.dequeueEntry len) := by
            simpa [step, hc] using hs.symm
          subst ht
          rw [Short, afterDequeue_producer, afterDequeue_accepted]
          exact ⟨h, Nat.le_refl _⟩
  | producer c =>
      cases hp : s.producer with
      | none => simp [step, hp] at hs
      | some e =>
          rcases e with ⟨buf, pc⟩
          simp only [step, hp] at hs
          rcases Option.map_eq_some_iff.1 hs with ⟨⟨q, o⟩, hq, rfl⟩
          have hlen := h buf pc hp
          refine ⟨fun buf' pc' hp' => ?_, ?_⟩
          · rcases producer_afterEnqueue _ buf o hp' with ⟨rfl, -⟩
            exact hlen
          · rw [afterEnqueue_accepted, accepted_of_producer hp, List.length_append,
              List.length_append]
            exact Nat.add_le_add_left (total_enqueueStep hlen hq) _
  | consumer c =>
      cases hc : s.consumer with
      | none => simp [step, hc] at hs
      | some e =>
          rcases e with ⟨len, got, pc⟩
          simp only [step, hc] at hs
          rcases Option.map_eq_some_iff.1 hs with ⟨⟨q, bs, o⟩, -, rfl⟩
          rw [Short, afterDequeue_producer, afterDequeue_accepted]
          exact ⟨h, Nat.le_refl _⟩

theorem Inv.step {t : Spsc} {a : SpscAction} (h : s.Inv start.toNat) (hs : s.step a = some t)
    (hcount : start.toNat + s.accepted.length < 2 ^ 64) : t.Inv start.toNat := by
  cases a with
  | enqueue buf =>
      cases hp : s.producer with
      | some e => simp [Spsc.step, hp] at hs
      | none =>
          simp only [Spsc.step, hp] at hs
          cases hs
          exact h.enqueue hp buf
  | dequeue len =>
      cases hc : s.consumer with
      | some e => simp [Spsc.step, hc] at hs
      | none =>
          simp only [Spsc.step, hc] at hs
          cases hs
          exact h.dequeue hc len
  | producer c =>
      cases hp : s.producer with
      | none => simp [Spsc.step, hp] at hs
      | some e =>
          simp only [Spsc.step, hp] at hs
          rcases Option.map_eq_some_iff.1 hs with ⟨⟨q, o⟩, hq, rfl⟩
          exact h.producer hp hq hcount
  | consumer c =>
      cases hc : s.consumer with
      | none => simp [Spsc.step, hc] at hs
      | some e =>
          simp only [Spsc.step, hc] at hs
          rcases Option.map_eq_some_iff.1 hs with ⟨⟨q, bs, o⟩, hq, rfl⟩
          exact h.consumer hc hq

theorem Inv.of_reachable {mem : Nat → UInt8} (h : (spscMachine mem start).Reachable s) :
    s.Short ∧ (start.toNat + s.accepted.length < 2 ^ 64 → s.Inv start.toNat) := by
  refine Machine.Run.invariant (P := fun s : Spsc =>
    s.Short ∧ (start.toNat + s.accepted.length < 2 ^ 64 → s.Inv start.toNat)) ?_ ?_ h
  · rintro _ rfl
    exact ⟨nofun, fun _ => inv_start mem⟩
  · rintro s a t ⟨hshort, hinv⟩ - hs
    rcases short_step hshort hs with ⟨hshort', hle⟩
    exact ⟨hshort', fun hcount => (hinv (by omega)).step hs (by omega)⟩

/-! ## What the two threads rely on -/

theorem accepted_isPrefix (s : Spsc) : s.accepted <+: s.begun := by
  rw [accepted, begun, List.prefix_append_right_inj]
  cases s.producer with
  | none => exact List.prefix_refl _
  | some e =>
      rcases e with ⟨buf, pc⟩
      show (if pc.found then buf else []) <+: buf
      split
      · exact List.prefix_refl _
      · exact List.nil_prefix

theorem Inv.sound (h : s.Inv start.toNat) : s.Sound := by
  have hwf := h.carries.wellFormed
  have horder := hwf.ordered
  have hbound := hwf.bounded
  refine ⟨?_, horder, by omega, ?_, ?_⟩
  · have hreturned : s.returned <+: s.accepted := by
      refine (List.prefix_append s.returned s.got).trans ?_
      rw [h.read]
      exact List.take_prefix ..
    exact hreturned.trans (accepted_isPrefix s)
  · intro len got off n ns hc
    rcases (h.consuming _ _ _ hc).2.1 with ⟨rfl, hlaid, hthere⟩
    have hend : s.queue.bufferTail.toNat % capacity + n.toNat ≤ capacity := hlaid.1
    simp only [List.map_cons, List.sum_cons] at hthere
    refine ⟨hend, fun i hi => ?_⟩
    have hcell : (s.queue.bufferTail.toNat + i) % capacity =
        s.queue.bufferTail.toNat % capacity + i := by
      rw [Nat.add_mod, Nat.mod_eq_of_lt (a := i) (by omega), Nat.mod_eq_of_lt (by omega)]
    rw [← hcell]
    exact h.stamps _ (by omega) (by omega)
  · intro buf off b bs hp
    rcases (h.producing _ _ hp).2 with ⟨rfl, hlaid, hroom⟩
    have hend : s.queue.bufferHead.toNat % capacity + b.length ≤ capacity := hlaid.1
    simp only [List.map_cons, List.sum_cons] at hroom
    refine ⟨hend, fun i p hi hlo hhi => ?_⟩
    have hcell : (s.queue.bufferHead.toNat + i) % capacity =
        s.queue.bufferHead.toNat % capacity + i := by
      rw [Nat.add_mod, Nat.mod_eq_of_lt (a := i) (by omega), Nat.mod_eq_of_lt (by omega)]
    rw [← hcell]
    exact (Ring.mod_ne_of_lt (by omega) (by omega)).symm

end Spsc

/-- Every interleaving of one producer and one consumer, from every starting point that leaves the
counters below `2 ^ 64`. -/
theorem sound_of_spsc (mem : Nat → UInt8) (start : UInt64) {s : Spsc}
    (h : (spscMachine mem start).Reachable s)
    (hcount : start.toNat + s.accepted.length < 2 ^ 64) : s.Sound :=
  ((Spsc.Inv.of_reachable h).2 hcount).sound

/-- A call of `enqueue_data` for one byte and one of `dequeue_data` for it, from the first load on. -/
def handOver (b : UInt8) : List SpscAction :=
  .enqueue [b] :: List.replicate 6 (.producer .tail) ++
    .dequeue 1 :: List.replicate 6 (.consumer .head)

/-- Two bytes before the end of the ring, three bytes are being enqueued around it while the byte
before them is dequeued and the first of them is asked for. -/
def passEachOther : List SpscAction :=
  .enqueue [5] :: List.replicate 6 (.producer .tail) ++
    .enqueue [7, 8, 9] :: List.replicate 3 (.producer .tail) ++
    .dequeue 1 :: List.replicate 4 (.consumer .head) ++ List.replicate 2 (.producer .tail) ++
    List.replicate 2 (.consumer .head) ++ List.replicate 2 (.producer .tail) ++
    .dequeue 1 :: List.replicate 4 (.consumer .tail) ++ [.producer .tail]

/-- Both copies are made, the consumer's first, and the two bytes left are asked for. -/
def passedBy : List SpscAction :=
  List.replicate 2 (.consumer .head) ++ .dequeue 2 :: [.consumer .tail, .producer .tail] ++
    .producer .tail :: List.replicate 5 (.consumer .head)

set_option synthInstance.maxSize 1000 in
theorem sound_passEachOther : ∃ s s' : Spsc,
    s.producer = some ([7, 8, 9], .copy 0 [[8, 9]]) ∧
    s.consumer = some (1, [], .copy 10485759 [1]) ∧ s.returned = [5] ∧ s.Sound ∧
    (spscMachine (fun _ => 0) 10485758).exec s passedBy = some s' ∧
    s'.returned = [5, 7, 8, 9] ∧ s'.Sound := by
  have hrun : ((spscMachine (fun _ => 0) 10485758).exec
      ⟨⟨fun _ => 0, 10485758, 10485758⟩, fun _ => none, none, none, [], []⟩ passEachOther).bind
        (fun s => ((spscMachine (fun _ => 0) 10485758).exec s passedBy).map fun s' =>
          ((s.producer, s.consumer), [s.returned, s'.returned],
            [s.accepted.length, s'.accepted.length])) =
      some ((some ([7, 8, 9], .copy 0 [[8, 9]]), some (1, [], .copy 10485759 [1])),
        [[5], [5, 7, 8, 9]], [4, 4]) := by
    decide +kernel
  obtain ⟨s, hs, hview⟩ := Option.bind_eq_some_iff.mp hrun
  obtain ⟨s', hs', hview⟩ := Option.map_eq_some_iff.mp hview
  simp only [Prod.mk.injEq, List.cons.injEq, and_true] at hview
  obtain ⟨⟨hproducer, hconsumer⟩, ⟨hreturned, hreturned'⟩, hlen, hlen'⟩ := hview
  have hreach : (spscMachine (fun _ => 0) 10485758).Reachable s := .exec (.start rfl) hs
  refine ⟨s, s', hproducer, hconsumer, hreturned,
    sound_of_spsc (fun _ => 0) 10485758 hreach ?_, hs', hreturned',
    sound_of_spsc (fun _ => 0) 10485758 (hreach.exec hs') ?_⟩
  · rw [hlen]
    decide
  · rw [hlen']
    decide

/-- The state with more calls returned before. -/
def Spsc.after (log : List (Bytes × Int32)) (s : Spsc) : Spsc :=
  { s with enqueued := log ++ s.enqueued }

/-- What returned before has no part in a step. -/
theorem Spsc.step_after (log : List (Bytes × Int32)) (s : Spsc) (a : SpscAction) :
    (s.after log).step a = (s.step a).map (Spsc.after log) := by
  have henqueue : ∀ (s : Spsc) buf o, (s.after log).afterEnqueue buf o =
      (s.afterEnqueue buf o).after log := by
    intro s buf o
    cases o with
    | inl pc => rfl
    | inr r => simp [Spsc.after, afterEnqueue]
  have hdequeue : ∀ (s : Spsc) len got o, (s.after log).afterDequeue len got o =
      (s.afterDequeue len got o).after log := by
    intro s len got o
    cases o <;> rfl
  cases a with
  | enqueue buf =>
      simp only [step, Spsc.after]
      cases s.producer with
      | none => exact congrArg some (henqueue s buf _)
      | some e => rfl
  | dequeue len =>
      simp only [step, Spsc.after]
      cases s.consumer with
      | none => exact congrArg some (hdequeue s len [] _)
      | some e => rfl
  | producer c =>
      simp only [step, Spsc.after]
      cases s.producer with
      | none => rfl
      | some e =>
          simp only [Option.map_map]
          congr 1
          funext r
          exact henqueue { s with queue := r.1, stamp := stampAfter s.queue s.stamp e.2 } e.1 r.2
  | consumer c =>
      simp only [step, Spsc.after]
      cases s.consumer with
      | none => rfl
      | some e =>
          simp only [Option.map_map]
          congr 1
          funext r
          exact hdequeue { s with queue := r.1 } e.1 (e.2.1 ++ r.2.1) r.2.2

theorem Spsc.exec_after {mem : Nat → UInt8} {start : UInt64} (log : List (Bytes × Int32))
    (s : Spsc) (as : List SpscAction) : (spscMachine mem start).exec (s.after log) as =
      ((spscMachine mem start).exec s as).map (Spsc.after log) := by
  induction as generalizing s with
  | nil => rfl
  | cons a as ih =>
      show ((s.after log).step a).bind _ = ((s.step a).bind _).map _
      rw [Spsc.step_after]
      cases s.step a with
      | none => rfl
      | some t => exact ih t

/-- The bytes of a refused call are among those of the calls that began, and never come out. -/
theorem refused_bytes_missing : ∃ s : Spsc, (spscMachine (fun _ => 0) 0).Reachable s ∧
    s.offered.length < 2 ^ 64 ∧ s.returned = [7] ∧ ¬s.returned <+: s.offered := by
  have hsome : ∃ big : Bytes, big.length = capacity := ⟨List.replicate capacity 0, by simp⟩
  rcases hsome with ⟨big, hbig⟩
  have hfirst : (spscMachine (fun _ => 0) 0).step
      ⟨⟨fun _ => 0, 0, 0⟩, fun _ => none, none, none, [], []⟩ (.enqueue (0 :: big)) =
      some (Spsc.after [(0 :: big, -1)]
        ⟨⟨fun _ => 0, 0, 0⟩, fun _ => none, none, none, [], []⟩) := by
    have hentry : DataQueue.enqueueEntry (0 :: big) = .inr (-1) :=
      if_pos (by rw [List.length_cons, hbig]; exact Nat.lt_succ_self _)
    show some (Spsc.afterEnqueue _ _ (DataQueue.enqueueEntry (0 :: big))) = _
    rw [hentry]
    rfl
  have hrun : ((spscMachine (fun _ => 0) 0).exec
      ⟨⟨fun _ => 0, 0, 0⟩, fun _ => none, none, none, [], []⟩ (handOver 7)).map
        (fun s => (s.returned, s.offered)) = some ([7], [7]) := by
    decide +kernel
  rcases Option.map_eq_some_iff.1 hrun with ⟨s, hs, hr⟩
  have hreturned : s.returned = [7] := congrArg Prod.fst hr
  have hoffered : (s.after [(0 :: big, -1)]).offered = 0 :: (big ++ [7]) := by
    have h : s.offered = [7] := congrArg Prod.snd hr
    show (0 :: big) ++ _ ++ _ = _
    rw [List.append_assoc]
    exact congrArg (fun l => 0 :: (big ++ l)) h
  have hexec := @Spsc.exec_after (fun _ => 0) 0 [(0 :: big, -1)]
    ⟨⟨fun _ => 0, 0, 0⟩, fun _ => none, none, none, [], []⟩ (handOver 7)
  rw [hs] at hexec
  refine ⟨s.after [(0 :: big, -1)], .exec (.next (.start rfl) trivial hfirst) hexec, ?_, hreturned,
    ?_⟩
  · rw [hoffered, List.length_cons, List.length_append, hbig]
    decide
  · show ¬s.returned <+: _
    rw [hreturned, hoffered, List.cons_prefix_cons]
    exact fun h => absurd h.1 (by decide)

end Hprd.Common

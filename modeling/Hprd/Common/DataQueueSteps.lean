import Hprd.Core.Machine
import Hprd.Common.DataQueueSpec

/-!
# `enqueue_data` and `dequeue_data` one access at a time

A call is a program counter; a step is one load of a counter, one `memcpy` or one
`atomic_fetch_add`. Where C leaves the order of two loads open, the label says which
one comes first. `Placed` is what a call knows of the counter it owns and of the
limit the other side keeps moving away, `Carries` ties the cells to the bytes that
were accepted.
-/

namespace Hprd.Common

open Hprd.Core

inductive Counter where
  | head
  | tail
deriving DecidableEq

/-- Where a call stands; `β` is what one `memcpy` moves. -/
inductive Pc (β : Type) where
  /-- the room test, with the load already made for it -/
  | room (loaded : Option (Counter × UInt64))
  /-- the load for the test against the physical end -/
  | straight
  /-- the load for `len_tmp` -/
  | measure
  /-- the load for the cell of the next `memcpy` -/
  | aim (blocks : List β)
  | copy (off : Nat) (blocks : List β)
  /-- the `atomic_fetch_add` after a `memcpy` -/
  | publish (blocks : List β)
deriving DecidableEq

/-- A step ends in another program counter or in the return of the call. -/
abbrev Ends (β : Type) := Pc β ⊕ Int32

namespace DataQueue

/-! ## The steps -/

def load (q : DataQueue) : Counter → UInt64
  | .head => q.bufferHead
  | .tail => q.bufferTail

def enqueueEntry (buf : Bytes) : Ends Bytes :=
  if capacity < buf.length then .inr (-1) else .inl (.room none)

def enqueueRoom (buf : Bytes) (head tail : UInt64) : Ends Bytes :=
  if UInt64.ofNat buf.length ≤ tail + queueDataSize - head then .inl .straight else .inr 0

/-- One access of `enqueue_data(queue, buf, len)` behind its test of `len`. -/
def enqueueStep (q : DataQueue) (buf : Bytes) (c : Counter) :
    Pc Bytes → Option (DataQueue × Ends Bytes)
  | .room none => some (q, .inl (.room (some (c, q.load c))))
  | .room (some (.tail, tail)) => some (q, enqueueRoom buf q.bufferHead tail)
  | .room (some (.head, head)) => some (q, enqueueRoom buf head q.bufferTail)
  | .straight =>
      if UInt64.ofNat buf.length ≤ queueDataSize - q.bufferHead % queueDataSize then
        some (q, .inl (.aim [buf]))
      else some (q, .inl .measure)
  | .measure =>
      let lenTmp := (queueDataSize - q.bufferHead % queueDataSize).toNat
      -- a longer first part would be read from behind `buf`
      if lenTmp ≤ buf.length then some (q, .inl (.aim [buf.take lenTmp, buf.drop lenTmp]))
      else none
  | .aim blocks => some (q, .inl (.copy (q.bufferHead % queueDataSize).toNat blocks))
  | .copy off (b :: bs) => (q.copyIn off b).map fun q => (q, .inl (.publish (b :: bs)))
  | .publish (b :: bs) =>
      let q := { q with bufferHead := q.bufferHead + UInt64.ofNat b.length }
      some (q, if bs = [] then .inr (Int32.ofNat buf.length) else .inl (.aim bs))
  | .copy _ [] => none
  | .publish [] => none

def dequeueEntry (len : UInt64) : Ends UInt64 :=
  if queueDataSize < len then .inr (-1) else .inl (.room none)

def dequeueRoom (len head tail : UInt64) : Ends UInt64 :=
  if len ≤ head - tail then .inl .straight else .inr 0

/-- One access of `dequeue_data(queue, buf, len)` behind its test of `len`, with the bytes it
copied to `buf`. -/
def dequeueStep (q : DataQueue) (len : UInt64) (c : Counter) :
    Pc UInt64 → Option (DataQueue × Bytes × Ends UInt64)
  | .room none => some (q, [], .inl (.room (some (c, q.load c))))
  | .room (some (.tail, tail)) => some (q, [], dequeueRoom len q.bufferHead tail)
  | .room (some (.head, head)) => some (q, [], dequeueRoom len head q.bufferTail)
  | .straight =>
      if len ≤ queueDataSize - q.bufferTail % queueDataSize then
        some (q, [], .inl (.aim [len]))
      else some (q, [], .inl .measure)
  | .measure =>
      let lenTmp := queueDataSize - q.bufferTail % queueDataSize
      some (q, [], .inl (.aim [lenTmp, len - lenTmp]))
  | .aim blocks => some (q, [], .inl (.copy (q.bufferTail % queueDataSize).toNat blocks))
  | .copy off (n :: ns) => (q.copyOut off n.toNat).map fun bs => (q, bs, .inl (.publish (n :: ns)))
  | .publish (n :: ns) =>
      let q := { q with bufferTail := q.bufferTail + n }
      some (q, [], if ns = [] then .inr (toCInt len) else .inl (.aim ns))
  | .copy _ [] => none
  | .publish [] => none

/-! ## A call that runs alone -/

/-- The steps of a call of `enqueue_data` with nothing between them. -/
def enqueueAlone (buf : Bytes) (c : Counter) : Nat → DataQueue → Pc Bytes → Option (Int32 × DataQueue)
  | 0, _, _ => none
  | n + 1, q, pc => (q.enqueueStep buf c pc).bind fun r =>
      match r.2 with
      | .inl pc' => enqueueAlone buf c n r.1 pc'
      | .inr ret => some (ret, r.1)

theorem enqueueAlone_aim (q : DataQueue) (buf : Bytes) (c : Counter) (n : Nat) {b : Bytes}
    {len : UInt64} (hb : UInt64.ofNat b.length = len) (bs : List Bytes) :
    enqueueAlone buf c (n + 3) q (.aim (b :: bs)) = (q.copyAdvance b len).bind fun q =>
      if bs = [] then some (Int32.ofNat buf.length, q) else enqueueAlone buf c n q (.aim bs) := by
  subst hb
  simp only [enqueueAlone, enqueueStep, Option.bind_some, copyAdvance]
  cases q.copyIn (q.bufferHead % queueDataSize).toNat b with
  | none => rfl
  | some q₁ =>
      simp only [Option.map_some, Option.bind_some]
      by_cases hbs : bs = []
      · simp only [if_pos hbs]
      · simp only [if_neg hbs]

theorem enqueueAlone_straight {q : DataQueue} {buf : Bytes} (c : Counter) (n : Nat)
    (hd : UInt64.ofNat buf.length ≤ queueDataSize - q.bufferHead % queueDataSize) :
    enqueueAlone buf c (n + 1) q .straight = enqueueAlone buf c n q (.aim [buf]) := by
  rw [enqueueAlone, enqueueStep, if_pos hd]
  rfl

theorem enqueueAlone_measure {q : DataQueue} {buf : Bytes} (c : Counter) (n : Nat)
    (hd : ¬UInt64.ofNat buf.length ≤ queueDataSize - q.bufferHead % queueDataSize)
    (hlt : (queueDataSize - q.bufferHead % queueDataSize).toNat ≤ buf.length) :
    enqueueAlone buf c (n + 2) q .straight = enqueueAlone buf c n q (.aim
      [buf.take (queueDataSize - q.bufferHead % queueDataSize).toNat,
        buf.drop (queueDataSize - q.bufferHead % queueDataSize).toNat]) := by
  rw [enqueueAlone, enqueueStep, if_neg hd, Option.bind_some]
  show enqueueAlone buf c (n + 1) q .measure = _
  rw [enqueueAlone, enqueueStep, if_pos hlt, Option.bind_some]

/-- Run alone the steps are `enqueue_data`. -/
theorem enqueueAlone_eq (q : DataQueue) {buf : Bytes} (hlen : buf.length ≤ capacity) (c : Counter) :
    enqueueAlone buf c 10 q (.room none) = q.enqueueData buf := by
  have hroom : enqueueAlone buf c 10 q (.room none) =
      match enqueueRoom buf q.bufferHead q.bufferTail with
      | .inl pc => enqueueAlone buf c 8 q pc
      | .inr ret => some (ret, q) := by
    cases c <;> rfl
  rw [hroom, enqueueData, if_neg (Nat.not_lt.2 hlen), enqueueRoom]
  dsimp only
  by_cases hr : UInt64.ofNat buf.length ≤ q.bufferTail + queueDataSize - q.bufferHead
  · rw [if_pos hr, if_pos hr]
    dsimp only
    by_cases hd : UInt64.ofNat buf.length ≤ queueDataSize - q.bufferHead % queueDataSize
    · rw [if_pos hd, enqueueAlone_straight c 7 hd, enqueueAlone_aim q buf c 4 rfl [],
        Option.bind_eq_bind]
      congr 1
    · have hlt : (queueDataSize - q.bufferHead % queueDataSize).toNat ≤ buf.length := by
        rw [UInt64.le_iff_toNat_le, ofNat_length_toNat hlen] at hd
        exact Nat.le_of_not_le hd
      rw [if_neg hd, enqueueAlone_measure c 6 hd hlt]
      generalize queueDataSize - q.bufferHead % queueDataSize = lenTmp at hlt ⊢
      have htake : UInt64.ofNat (buf.take lenTmp.toNat).length = lenTmp := by
        rw [List.length_take, Nat.min_eq_left hlt, UInt64.ofNat_toNat]
      have hdrop : UInt64.ofNat (buf.drop lenTmp.toNat).length =
          UInt64.ofNat buf.length - lenTmp := by
        rw [List.length_drop, UInt64.ofNat_sub hlt, UInt64.ofNat_toNat]
      rw [enqueueAlone_aim q buf c 3 htake, Option.bind_eq_bind]
      congr 1
      funext q₁
      rw [if_neg (List.cons_ne_nil _ _), enqueueAlone_aim q₁ buf c 0 hdrop]
      congr 1
  · rw [if_neg hr, if_neg hr]

end DataQueue

/-! ## Where a call stands -/

/-- Blocks of these lengths, one behind the other from stream position `p`, never pass the
physical end. -/
def Laid (p : Nat) : List Nat → Prop
  | [] => True
  | n :: ns => p % capacity + n ≤ capacity ∧ Laid (p + n) ns

/-- What a call that moves `len` elements knows of its own counter, which is at `pos`, and of the
position `limit` it must not pass: the other counter and `slack` cells. -/
def Placed {β : Type} (own : Counter) (slack pos limit len : Nat) (size : β → Nat) : Pc β → Prop
  | .room none => True
  | .room (some (c, v)) =>
      if c = own then v.toNat = pos else pos ≤ v.toNat + slack ∧ v.toNat + slack ≤ limit
  | .straight => pos + len ≤ limit
  | .measure => pos + len ≤ limit ∧ capacity < pos % capacity + len
  | .aim blocks => Laid pos (blocks.map size) ∧ pos + (blocks.map size).sum ≤ limit
  | .copy off blocks =>
      off = pos % capacity ∧ Laid pos (blocks.map size) ∧ pos + (blocks.map size).sum ≤ limit
  | .publish blocks => Laid pos (blocks.map size) ∧ pos + (blocks.map size).sum ≤ limit

/-- The other side only makes room. -/
theorem Placed.mono {β : Type} {own : Counter} {slack pos limit limit' len : Nat} {size : β → Nat}
    {pc : Pc β} (h : Placed own slack pos limit len size pc) (hle : limit ≤ limit') :
    Placed own slack pos limit' len size pc := by
  cases pc with
  | room loaded =>
      cases loaded with
      | none => trivial
      | some l =>
          by_cases hc : l.1 = own
          · simp only [Placed, if_pos hc] at h ⊢
            exact h
          · simp only [Placed, if_neg hc] at h ⊢
            exact ⟨h.1, h.2.trans hle⟩
  | straight => exact h.trans hle
  | measure => exact ⟨h.1.trans hle, h.2⟩
  | aim blocks => exact ⟨h.1, h.2.trans hle⟩
  | copy off blocks => exact ⟨h.1, h.2.1, h.2.2.trans hle⟩
  | publish blocks => exact ⟨h.1, h.2.trans hle⟩

section

variable {β : Type} {own : Counter} {slack pos limit len : Nat} {size : β → Nat} {b b' : β}
  {bs : List β}

theorem Placed.whole (h : Placed own slack pos limit len size .straight) (hb : size b = len)
    (hend : pos % capacity + len ≤ capacity) : Placed own slack pos limit len size (.aim [b]) := by
  subst hb
  have hroom : pos + size b ≤ limit := h
  exact ⟨⟨hend, trivial⟩, by simpa using hroom⟩

theorem Placed.long (h : Placed own slack pos limit len size .straight)
    (hend : ¬pos % capacity + len ≤ capacity) : Placed own slack pos limit len size .measure :=
  ⟨h, Nat.lt_of_not_le hend⟩

theorem Placed.split (h : Placed own slack pos limit len size .measure) (hlen : len ≤ capacity)
    (hb : size b = capacity - pos % capacity) (hsum : size b + size b' = len) :
    Placed own slack pos limit len size (.aim [b, b']) := by
  have hmod : pos % capacity < capacity := Nat.mod_lt _ (by decide)
  have hroom : pos + len ≤ limit := h.1
  have hfirst : pos % capacity + size b ≤ capacity := by omega
  have hsecond : (pos + size b) % capacity + size b' ≤ capacity := by
    rw [DataQueue.next_lap hb]
    omega
  refine ⟨⟨hfirst, hsecond, trivial⟩, ?_⟩
  rw [List.map_cons, List.map_cons, List.map_nil, List.sum_cons, List.sum_cons, List.sum_nil,
    Nat.add_zero, hsum]
  exact hroom

/-- The next block keeps off the physical end and the limit. -/
theorem Placed.block (h : Placed own slack pos limit len size (.publish (b :: bs))) :
    pos % capacity + size b ≤ capacity ∧ pos + size b ≤ limit := by
  obtain ⟨hlaid, hroom⟩ := h
  rw [List.map_cons, List.sum_cons, ← Nat.add_assoc] at hroom
  exact ⟨hlaid.1, (Nat.le_add_right ..).trans hroom⟩

theorem Placed.advance (h : Placed own slack pos limit len size (.publish (b :: bs))) :
    Placed own slack (pos + size b) limit len size (.aim bs) := by
  obtain ⟨hlaid, hroom⟩ := h
  rw [List.map_cons, List.sum_cons, ← Nat.add_assoc] at hroom
  exact ⟨hlaid.2, hroom⟩

end

namespace Pc

/-- The bytes of a call that were accepted and are not published yet. -/
def rest (buf : Bytes) : Pc Bytes → Bytes
  | .room _ => []
  | .straight => buf
  | .measure => buf
  | .aim blocks => blocks.flatten
  | .copy _ blocks => blocks.flatten
  | .publish blocks => blocks.flatten

/-- The elements copied since the last update of the counter. -/
def ahead {β : Type} (size : β → Nat) : Pc β → Nat
  | .publish (b :: _) => size b
  | _ => 0

/-- The room test has passed. -/
def found {β : Type} : Pc β → Bool
  | .room _ => false
  | _ => true

/-- The number of bytes a call of `dequeue_data` has still to copy. -/
def left (len : UInt64) : Pc UInt64 → Nat
  | .aim blocks => (blocks.map UInt64.toNat).sum
  | .copy _ blocks => (blocks.map UInt64.toNat).sum
  | .publish blocks => (blocks.tail.map UInt64.toNat).sum
  | _ => len.toNat

end Pc

namespace Ends

def rest (buf : Bytes) : Ends Bytes → Bytes
  | .inl pc => pc.rest buf
  | .inr _ => []

def ahead {β : Type} (size : β → Nat) : Ends β → Nat
  | .inl pc => pc.ahead size
  | .inr _ => 0

/-- The bytes a step of `enqueue_data` accepts. -/
def accepts (buf : Bytes) (pc : Pc Bytes) : Ends Bytes → Bytes
  | .inl pc' => if pc'.found = pc.found then [] else buf
  | .inr _ => []

end Ends

/-! ## The bytes of the ring -/

/-- The byte at stream position `p` of a stream whose first position is `start`. -/
def streamAt (start : Nat) (stream : Bytes) (p : Nat) : UInt8 := (stream[p - start]?).getD 0

theorem streamAt_append {start p : Nat} {stream : Bytes} (hp : start ≤ p)
    (h : p < start + stream.length) (more : Bytes) :
    streamAt start (stream ++ more) p = streamAt start stream p := by
  have hlt : p - start < stream.length := by omega
  rw [streamAt, streamAt, List.getElem?_append_left hlt]

theorem streamAt_suffix {start i : Nat} (before b more : Bytes) (hi : i < b.length) :
    streamAt start (before ++ (b ++ more)) (start + before.length + i) = b[i] := by
  have hsub : start + before.length + i - start = before.length + i := by omega
  rw [streamAt, hsub, List.getElem?_append_right (Nat.le_add_right ..), Nat.add_sub_cancel_left,
    List.getElem?_append_left hi, List.getElem?_eq_getElem hi, Option.getD_some]

theorem map_streamAt {start p n : Nat} {stream : Bytes} (hp : start ≤ p)
    (hn : p + n ≤ start + stream.length) :
    (List.range' p n).map (streamAt start stream) = (stream.drop (p - start)).take n := by
  apply List.ext_getElem
  · rw [List.length_map, List.length_range', List.length_take, List.length_drop]
    omega
  · intro i h₁ h₂
    have hi : i < n := by simpa using h₁
    have hsub : p + i - start = p - start + i := by omega
    have hlt : p - start + i < stream.length := by omega
    simp [streamAt, hsub, List.getElem?_eq_getElem hlt]

/-- The cells hold what was accepted from the tail on and `ahead` bytes past the head; `rest` is
what the call under way has still to publish. -/
structure Carries (start : Nat) (q : DataQueue) (stream rest : Bytes) (ahead : Nat) : Prop where
  wellFormed : q.WellFormed
  started : start ≤ q.bufferTail.toNat
  published : q.bufferHead.toNat + rest.length = start + stream.length
  isSuffix : rest <:+ stream
  holds : Ring.Holds capacity q.bufferQueue (streamAt start stream) q.bufferTail.toNat
    (q.bufferHead.toNat + ahead)

namespace DataQueue

theorem enqueueEntry_inl {buf : Bytes} {pc : Pc Bytes} (h : enqueueEntry buf = .inl pc) :
    pc = .room none ∧ buf.length ≤ capacity := by
  unfold enqueueEntry at h
  split at h
  · cases h
  · next hlen =>
      cases h
      exact ⟨rfl, Nat.le_of_not_lt hlen⟩

theorem dequeueEntry_inl {len : UInt64} {pc : Pc UInt64} (h : dequeueEntry len = .inl pc) :
    pc = .room none ∧ len.toNat ≤ capacity := by
  unfold dequeueEntry at h
  split at h
  · cases h
  · next hlen =>
      cases h
      rw [UInt64.lt_iff_toNat_lt, queueDataSize_toNat, ← capacity_eq] at hlen
      exact ⟨rfl, Nat.le_of_not_lt hlen⟩

/-! ## The producer's steps -/

def Producing (q : DataQueue) (buf : Bytes) (pc : Pc Bytes) : Prop :=
  Placed .head capacity q.bufferHead.toNat (q.bufferTail.toNat + capacity) buf.length List.length pc

def Consuming (q : DataQueue) (len : UInt64) (pc : Pc UInt64) : Prop :=
  Placed .tail 0 q.bufferTail.toNat q.bufferHead.toNat len.toNat UInt64.toNat pc

/-- Everything one step of a call of `enqueue_data` can do. -/
inductive EnqueueMove (q : DataQueue) (buf : Bytes) : Pc Bytes → DataQueue → Ends Bytes → Prop
  | look {pc pc' : Pc Bytes} (hrest : pc'.rest buf = pc.rest buf) (hfound : pc'.found = pc.found)
      (hbefore : pc.ahead List.length = 0) (hafter : pc'.ahead List.length = 0)
      (hplain : ∀ off blocks, pc ≠ .copy off blocks) : EnqueueMove q buf pc q (.inl pc')
  | accept {loaded} : EnqueueMove q buf (.room loaded) q (.inl .straight)
  | refuse {loaded} : EnqueueMove q buf (.room loaded) q (.inr 0)
  | copied {b bs} (hend : q.bufferHead.toNat % capacity + b.length ≤ capacity) :
      EnqueueMove q buf (.copy (q.bufferHead.toNat % capacity) (b :: bs))
        { q with bufferQueue := Ring.store q.bufferQueue (q.bufferHead.toNat % capacity) b }
        (.inl (.publish (b :: bs)))
  | published {b bs} (hmore : bs ≠ []) : EnqueueMove q buf (.publish (b :: bs))
      { q with bufferHead := q.bufferHead + UInt64.ofNat b.length } (.inl (.aim bs))
  | returned {b} : EnqueueMove q buf (.publish [b])
      { q with bufferHead := q.bufferHead + UInt64.ofNat b.length } (.inr (Int32.ofNat buf.length))

/-- The room test is exact for the counters it loaded. -/
theorem enqueueRoom_cases {mem : Nat → UInt8} {head tail : UInt64} {buf : Bytes}
    (h : WellFormed ⟨mem, head, tail⟩) (hlen : buf.length ≤ capacity) :
    enqueueRoom buf head tail = .inl .straight ∧
        head.toNat + buf.length ≤ tail.toNat + capacity ∨
      enqueueRoom buf head tail = .inr 0 := by
  have hfree : free ⟨mem, head, tail⟩ = capacity - (head.toNat - tail.toNat) := by
    rw [free_eq (used_le_capacity h), used_eq h]
  have horder : tail.toNat ≤ head.toNat := h.ordered
  have hbound : head.toNat ≤ tail.toNat + capacity := h.bounded
  have htest := ofNat_le_free (q := ⟨mem, head, tail⟩) hlen
  by_cases hroom : buf.length ≤ free ⟨mem, head, tail⟩
  · refine Or.inl ⟨if_pos (htest.2 hroom), ?_⟩
    omega
  · exact Or.inr (if_neg fun hle => hroom (htest.1 hle))

/-- What the last load of the room test decides, however old the other one is. -/
theorem enqueueRoom_moves {q : DataQueue} {buf : Bytes} {t : UInt64}
    {loaded : Option (Counter × UInt64)} (h : q.WellFormed) (hlen : buf.length ≤ capacity)
    (hle : t.toNat ≤ q.bufferTail.toNat) (hge : q.bufferHead.toNat ≤ t.toNat + capacity) :
    EnqueueMove q buf (.room loaded) q (enqueueRoom buf q.bufferHead t) ∧
      ∀ pc', enqueueRoom buf q.bufferHead t = .inl pc' → q.Producing buf pc' := by
  have hwf : WellFormed ⟨q.bufferQueue, q.bufferHead, t⟩ := ⟨hle.trans h.ordered, hge⟩
  rcases enqueueRoom_cases hwf hlen with ⟨ho, hroom⟩ | ho
  · rw [ho]
    refine ⟨.accept, ?_⟩
    rintro _ ⟨rfl⟩
    show q.bufferHead.toNat + buf.length ≤ q.bufferTail.toNat + capacity
    omega
  · rw [ho]
    exact ⟨.refuse, nofun⟩

theorem head_add {q : DataQueue} {n : Nat} (h : q.bufferHead.toNat + n < 2 ^ 64) :
    (q.bufferHead + UInt64.ofNat n).toNat = q.bufferHead.toNat + n := by
  rw [UInt64.toNat_add, UInt64.toNat_ofNat', Nat.add_mod_mod, Nat.mod_eq_of_lt h]

theorem enqueueStep_moves {q q' : DataQueue} {buf : Bytes} {c : Counter} {pc : Pc Bytes}
    {o : Ends Bytes} (h : q.WellFormed) (hlen : buf.length ≤ capacity) (hpc : q.Producing buf pc)
    (hcount : q.bufferHead.toNat + (pc.rest buf).length < 2 ^ 64)
    (hs : q.enqueueStep buf c pc = some (q', o)) :
    EnqueueMove q buf pc q' o ∧ ∀ pc', o = .inl pc' → q'.Producing buf pc' := by
  have hbound := h.bounded
  cases pc with
  | room loaded =>
      cases loaded with
      | none =>
          cases hs
          refine ⟨.look rfl rfl rfl rfl nofun, ?_⟩
          rintro _ ⟨rfl⟩
          cases c with
          | head => exact rfl
          | tail => exact ⟨hbound, Nat.le_refl _⟩
      | some l =>
          rcases l with ⟨c₁, v⟩
          cases c₁ with
          | head =>
              have hv : v.toNat = q.bufferHead.toNat := by simpa [Producing, Placed] using hpc
              rw [UInt64.toNat_inj] at hv
              subst hv
              cases hs
              exact enqueueRoom_moves h hlen (Nat.le_refl _) hbound
          | tail =>
              have hv : q.bufferHead.toNat ≤ v.toNat + capacity ∧
                  v.toNat + capacity ≤ q.bufferTail.toNat + capacity := by
                simpa only [Producing, Placed, reduceCtorEq, if_false] using hpc
              cases hs
              exact enqueueRoom_moves h hlen (Nat.le_of_add_le_add_right hv.2) hv.1
  | straight =>
      have hdirect := ofNat_le_direct (c := q.bufferHead) hlen
      simp only [enqueueStep] at hs
      split at hs
      · next hle =>
          cases hs
          refine ⟨.look (by simp [Pc.rest]) rfl rfl rfl nofun, ?_⟩
          rintro _ ⟨rfl⟩
          exact Placed.whole hpc rfl (hdirect.1 hle)
      · next hle =>
          cases hs
          refine ⟨.look rfl rfl rfl rfl nofun, ?_⟩
          rintro _ ⟨rfl⟩
          exact Placed.long hpc fun hd => hle (hdirect.2 hd)
  | measure =>
      have hspace := directSpace_toNat q.bufferHead
      simp only [enqueueStep] at hs
      generalize queueDataSize - q.bufferHead % queueDataSize = lenTmp at hs hspace
      split at hs
      · next hle =>
          cases hs
          refine ⟨.look (by simp [Pc.rest]) rfl rfl rfl nofun, ?_⟩
          rintro _ ⟨rfl⟩
          have htake : (buf.take lenTmp.toNat).length = lenTmp.toNat :=
            List.length_take_of_le hle
          have hsum : (buf.take lenTmp.toNat).length + (buf.drop lenTmp.toNat).length =
              buf.length := by
            rw [← List.length_append, List.take_append_drop]
          exact Placed.split hpc hlen (htake.trans hspace) hsum
      · cases hs
  | aim blocks =>
      cases hs
      refine ⟨.look rfl rfl rfl rfl nofun, ?_⟩
      rintro _ ⟨rfl⟩
      exact ⟨queueGetWritePtr_eq q, hpc⟩
  | copy off blocks =>
      cases blocks with
      | nil => cases hs
      | cons b bs =>
          rcases hpc with ⟨rfl, hplaced⟩
          have hplaced : q.Producing buf (.publish (b :: bs)) := hplaced
          have hend := (Placed.block hplaced).1
          simp only [enqueueStep, copyIn_eq hend] at hs
          cases hs
          refine ⟨.copied hend, ?_⟩
          rintro _ ⟨rfl⟩
          exact hplaced
  | publish blocks =>
      cases blocks with
      | nil => cases hs
      | cons b bs =>
          have hrest : (Pc.publish (b :: bs)).rest buf = b ++ bs.flatten := rfl
          rw [hrest, List.length_append] at hcount
          have hhead := head_add (q := q) (n := b.length) (by omega)
          simp only [enqueueStep] at hs
          cases hs
          split
          · next hnil =>
              subst hnil
              exact ⟨.returned, nofun⟩
          · next hnil =>
              refine ⟨.published hnil, ?_⟩
              rintro _ ⟨rfl⟩
              show Placed .head capacity (q.bufferHead + UInt64.ofNat b.length).toNat _ _ _ _
              rw [hhead]
              exact Placed.advance hpc

theorem Producing.rest_le {q : DataQueue} {buf : Bytes} {pc : Pc Bytes} (hpc : q.Producing buf pc)
    (h : q.WellFormed) :
    q.bufferHead.toNat + (pc.rest buf).length ≤ q.bufferTail.toNat + capacity := by
  cases pc with
  | room loaded => exact h.bounded
  | straight => exact hpc
  | measure => exact hpc.1
  | aim blocks =>
      rw [Pc.rest, List.length_flatten]
      exact hpc.2
  | copy off blocks =>
      rw [Pc.rest, List.length_flatten]
      exact hpc.2.2
  | publish blocks =>
      rw [Pc.rest, List.length_flatten]
      exact hpc.2

end DataQueue

section

variable {start : Nat} {q q' : DataQueue} {stream rest : Bytes} {k : Nat}

theorem Carries.head_le (h : Carries start q stream rest k) :
    q.bufferHead.toNat ≤ start + stream.length := by
  have := h.published
  omega

theorem Carries.accept (h : Carries start q stream [] 0) (buf : Bytes) :
    Carries start q (stream ++ buf) buf 0 := by
  have hpub := h.published
  have hstart := h.started
  rw [List.length_nil] at hpub
  refine ⟨h.wellFormed, hstart, ?_, List.suffix_append .., h.holds.congr fun p hlo hhi => ?_⟩
  · rw [List.length_append]
    omega
  · exact streamAt_append (by omega) (by omega) buf

theorem Carries.copied {b more : Bytes} (h : Carries start q stream (b ++ more) 0)
    (hend : q.bufferHead.toNat % capacity + b.length ≤ capacity)
    (hroom : q.bufferHead.toNat + b.length ≤ q.bufferTail.toNat + capacity) :
    Carries start { q with
      bufferQueue := Ring.store q.bufferQueue (q.bufferHead.toNat % capacity) b }
      stream (b ++ more) b.length := by
  rcases h.isSuffix with ⟨before, hbefore⟩
  have hlen := congrArg List.length hbefore
  have hpub := h.published
  rw [List.length_append] at hlen
  have hhead : q.bufferHead.toNat = start + before.length := by omega
  refine ⟨⟨h.wellFormed.ordered, h.wellFormed.bounded⟩, h.started, hpub, h.isSuffix, ?_⟩
  refine Ring.Holds.store (b := q.bufferHead.toNat) h.holds hend hroom fun i hi => ?_
  rw [← hbefore, hhead]
  exact streamAt_suffix before b more hi

theorem Carries.publish {b more : Bytes} (h : Carries start q stream (b ++ more) b.length)
    (hroom : q.bufferHead.toNat + b.length ≤ q.bufferTail.toNat + capacity)
    (hcount : q.bufferHead.toNat + b.length < 2 ^ 64) :
    Carries start { q with bufferHead := q.bufferHead + UInt64.ofNat b.length } stream more 0 := by
  have hhead := DataQueue.head_add hcount
  have horder := h.wellFormed.ordered
  have hpub := h.published
  rw [List.length_append] at hpub
  refine ⟨⟨?_, ?_⟩, h.started, ?_, (List.suffix_append b more).trans h.isSuffix, ?_⟩
  · show q.bufferTail.toNat ≤ (q.bufferHead + UInt64.ofNat b.length).toNat
    rw [hhead]
    exact Nat.le_add_right_of_le horder
  · show (q.bufferHead + UInt64.ofNat b.length).toNat ≤ q.bufferTail.toNat + capacity
    rw [hhead]
    exact hroom
  · show (q.bufferHead + UInt64.ofNat b.length).toNat + more.length = _
    rw [hhead, Nat.add_assoc]
    exact hpub
  · show Ring.Holds _ _ _ _ ((q.bufferHead + UInt64.ofNat b.length).toNat + 0)
    rw [hhead]
    exact h.holds

/-- A step of `enqueue_data` keeps the ring true to what was accepted. -/
theorem Carries.enqueue {buf : Bytes} {pc : Pc Bytes} {o : Ends Bytes}
    (h : Carries start q stream (pc.rest buf) (pc.ahead List.length)) (hpc : q.Producing buf pc)
    (hm : q.EnqueueMove buf pc q' o) (hcount : start + stream.length < 2 ^ 64) :
    Carries start q' (stream ++ Ends.accepts buf pc o) (o.rest buf) (o.ahead List.length) ∧
      q'.bufferTail = q.bufferTail ∧ q.bufferHead.toNat ≤ q'.bufferHead.toNat := by
  have hroom := hpc.rest_le h.wellFormed
  have hpub := h.published
  cases hm with
  | look hrest hfound hbefore hafter hplain =>
      rw [hbefore] at h
      simp only [Ends.accepts, if_pos hfound, List.append_nil, Ends.rest, Ends.ahead, hrest, hafter]
      exact ⟨h, trivial, Nat.le_refl _⟩
  | accept => exact ⟨h.accept buf, rfl, Nat.le_refl _⟩
  | refuse =>
      rw [Ends.accepts, List.append_nil]
      exact ⟨h, rfl, Nat.le_refl _⟩
  | copied hend =>
      simp only [Pc.rest, List.flatten_cons, List.length_append] at hroom
      simp only [Ends.accepts, Pc.found, if_true, List.append_nil]
      exact ⟨Carries.copied h hend (by omega), trivial, Nat.le_refl _⟩
  | @published b bs hmore =>
      simp only [Pc.rest, List.flatten_cons, List.length_append] at hroom hpub
      simp only [Ends.accepts, Pc.found, if_true, List.append_nil]
      have hlt : q.bufferHead.toNat + b.length < 2 ^ 64 := by omega
      have hhead := DataQueue.head_add hlt
      exact ⟨Carries.publish h (by omega) hlt, trivial, hhead.symm ▸ Nat.le_add_right ..⟩
  | @returned b =>
      simp only [Pc.rest, List.flatten_cons, List.length_append] at hroom hpub
      simp only [Ends.accepts, List.append_nil]
      have hlt : q.bufferHead.toNat + b.length < 2 ^ 64 := by omega
      have hhead := DataQueue.head_add hlt
      exact ⟨Carries.publish h (by omega) hlt, trivial, hhead.symm ▸ Nat.le_add_right ..⟩

end

namespace DataQueue

/-! ## The consumer's steps -/

/-- Everything one step of a call of `dequeue_data` can do, with the bytes it copies. -/
inductive DequeueMove (q : DataQueue) (len : UInt64) :
    Pc UInt64 → DataQueue → Bytes → Ends UInt64 → Prop
  | look {pc pc' : Pc UInt64} (hleft : pc'.left len = pc.left len)
      (hbefore : pc.ahead UInt64.toNat = 0) (hafter : pc'.ahead UInt64.toNat = 0) :
      DequeueMove q len pc q [] (.inl pc')
  | refuse {loaded} : DequeueMove q len (.room loaded) q [] (.inr 0)
  | copied {n ns} (hend : q.bufferTail.toNat % capacity + n.toNat ≤ capacity)
      (hthere : q.bufferTail.toNat + n.toNat ≤ q.bufferHead.toNat) :
      DequeueMove q len (.copy (q.bufferTail.toNat % capacity) (n :: ns)) q
        (Ring.block q.bufferQueue (q.bufferTail.toNat % capacity) n.toNat)
        (.inl (.publish (n :: ns)))
  | published {n ns} (hmore : ns ≠ []) (hthere : q.bufferTail.toNat + n.toNat ≤ q.bufferHead.toNat) :
      DequeueMove q len (.publish (n :: ns)) { q with bufferTail := q.bufferTail + n } []
        (.inl (.aim ns))
  | returned {n} (hthere : q.bufferTail.toNat + n.toNat ≤ q.bufferHead.toNat) :
      DequeueMove q len (.publish [n]) { q with bufferTail := q.bufferTail + n } []
        (.inr (toCInt len))

theorem dequeueRoom_cases {mem : Nat → UInt8} {head tail len : UInt64}
    (h : WellFormed ⟨mem, head, tail⟩) :
    dequeueRoom len head tail = .inl .straight ∧ tail.toNat + len.toNat ≤ head.toNat ∨
      dequeueRoom len head tail = .inr 0 := by
  have horder : tail.toNat ≤ head.toNat := h.ordered
  have hused : (head - tail).toNat = head.toNat - tail.toNat := used_eq h
  by_cases hle : len ≤ head - tail
  · refine Or.inl ⟨if_pos hle, ?_⟩
    rw [UInt64.le_iff_toNat_le, hused] at hle
    omega
  · exact Or.inr (if_neg hle)

theorem dequeueRoom_moves {q : DataQueue} {len head : UInt64}
    {loaded : Option (Counter × UInt64)} (h : q.WellFormed)
    (hge : q.bufferTail.toNat ≤ head.toNat) (hle : head.toNat ≤ q.bufferHead.toNat) :
    DequeueMove q len (.room loaded) q [] (dequeueRoom len head q.bufferTail) ∧
      ∀ pc', dequeueRoom len head q.bufferTail = .inl pc' → q.Consuming len pc' := by
  have hwf : WellFormed ⟨q.bufferQueue, head, q.bufferTail⟩ := ⟨hge, hle.trans h.bounded⟩
  rcases @dequeueRoom_cases _ _ _ len hwf with ⟨ho, hroom⟩ | ho
  · rw [ho]
    refine ⟨.look rfl rfl rfl, ?_⟩
    rintro _ ⟨rfl⟩
    exact hroom.trans hle
  · rw [ho]
    exact ⟨.refuse, nofun⟩

theorem le_directSpace {c len : UInt64} :
    len ≤ queueDataSize - c % queueDataSize ↔ c.toNat % capacity + len.toNat ≤ capacity := by
  have hmod : c.toNat % capacity < capacity := Nat.mod_lt _ (by decide)
  rw [UInt64.le_iff_toNat_le, directSpace_toNat]
  omega

theorem Consuming.ahead_le {q : DataQueue} {len : UInt64} {pc : Pc UInt64}
    (hpc : q.Consuming len pc) (h : q.WellFormed) :
    q.bufferTail.toNat + pc.ahead UInt64.toNat ≤ q.bufferHead.toNat := by
  cases pc with
  | publish blocks =>
      cases blocks with
      | nil => exact h.ordered
      | cons n ns => exact (Placed.block hpc).2
  | _ => exact h.ordered

theorem tail_add {q : DataQueue} {n : UInt64}
    (h : q.bufferTail.toNat + n.toNat ≤ q.bufferHead.toNat) :
    (q.bufferTail + n).toNat = q.bufferTail.toNat + n.toNat := by
  have hlt := q.bufferHead.toNat_lt
  rw [UInt64.toNat_add]
  exact Nat.mod_eq_of_lt (by omega)

theorem dequeueStep_moves {q q' : DataQueue} {len : UInt64} {c : Counter} {pc : Pc UInt64}
    {bs : Bytes} {o : Ends UInt64} (h : q.WellFormed) (hlen : len.toNat ≤ capacity)
    (hpc : q.Consuming len pc) (hs : q.dequeueStep len c pc = some (q', bs, o)) :
    DequeueMove q len pc q' bs o ∧ ∀ pc', o = .inl pc' → q'.Consuming len pc' := by
  have horder := h.ordered
  cases pc with
  | room loaded =>
      cases loaded with
      | none =>
          cases hs
          refine ⟨.look rfl rfl rfl, ?_⟩
          rintro _ ⟨rfl⟩
          cases c with
          | head => exact ⟨horder, Nat.le_refl _⟩
          | tail => exact rfl
      | some l =>
          rcases l with ⟨c₁, v⟩
          cases c₁ with
          | head =>
              have hv : q.bufferTail.toNat ≤ v.toNat + 0 ∧ v.toNat + 0 ≤ q.bufferHead.toNat := by
                simpa only [Consuming, Placed, reduceCtorEq, if_false] using hpc
              cases hs
              exact dequeueRoom_moves h hv.1 hv.2
          | tail =>
              have hv : v.toNat = q.bufferTail.toNat := by simpa [Consuming, Placed] using hpc
              rw [UInt64.toNat_inj] at hv
              subst hv
              cases hs
              exact dequeueRoom_moves h horder (Nat.le_refl _)
  | straight =>
      simp only [dequeueStep] at hs
      split at hs
      · next hle =>
          cases hs
          refine ⟨.look (by simp [Pc.left]) rfl rfl, ?_⟩
          rintro _ ⟨rfl⟩
          exact Placed.whole hpc rfl (le_directSpace.1 hle)
      · next hle =>
          cases hs
          refine ⟨.look rfl rfl rfl, ?_⟩
          rintro _ ⟨rfl⟩
          exact Placed.long hpc fun hd => hle (le_directSpace.2 hd)
  | measure =>
      have hlong : capacity < q.bufferTail.toNat % capacity + len.toNat := hpc.2
      have hspace := directSpace_toNat q.bufferTail
      simp only [dequeueStep] at hs
      generalize queueDataSize - q.bufferTail % queueDataSize = lenTmp at hs hspace
      cases hs
      have hsum : lenTmp.toNat + (len - lenTmp).toNat = len.toNat := by
        rw [UInt64.toNat_sub_of_le]
        · omega
        · rw [UInt64.le_iff_toNat_le]
          omega
      have hleft : (Pc.aim [lenTmp, len - lenTmp]).left len = len.toNat := by
        rw [Pc.left, List.map_cons, List.map_cons, List.map_nil, List.sum_cons, List.sum_cons,
          List.sum_nil, Nat.add_zero, hsum]
      refine ⟨.look hleft rfl rfl, ?_⟩
      rintro _ ⟨rfl⟩
      exact Placed.split hpc hlen hspace hsum
  | aim blocks =>
      cases hs
      refine ⟨.look rfl rfl rfl, ?_⟩
      rintro _ ⟨rfl⟩
      exact ⟨queueGetReadPtr_eq q, hpc⟩
  | copy off blocks =>
      cases blocks with
      | nil => cases hs
      | cons n ns =>
          rcases hpc with ⟨rfl, hplaced⟩
          have hplaced : q.Consuming len (.publish (n :: ns)) := hplaced
          obtain ⟨hend, hthere⟩ := Placed.block hplaced
          simp only [dequeueStep, copyOut_eq hend] at hs
          cases hs
          refine ⟨.copied hend hthere, ?_⟩
          rintro _ ⟨rfl⟩
          exact hplaced
  | publish blocks =>
      cases blocks with
      | nil => cases hs
      | cons n ns =>
          have hthere := (Placed.block hpc).2
          simp only [dequeueStep] at hs
          cases hs
          split
          · next hnil =>
              subst hnil
              exact ⟨.returned hthere, nofun⟩
          · next hnil =>
              refine ⟨.published hnil hthere, ?_⟩
              rintro _ ⟨rfl⟩
              show Placed .tail 0 (q.bufferTail + n).toNat _ _ _ _
              rw [tail_add hthere]
              exact Placed.advance hpc

end DataQueue

section

variable {q q' : DataQueue} {len : UInt64} {bs : Bytes} {pc : Pc UInt64}

theorem DataQueue.DequeueMove.left_inl {pc' : Pc UInt64} (hm : q.DequeueMove len pc q' bs (.inl pc')) :
    bs.length + pc'.left len = pc.left len := by
  cases hm with
  | look hleft hbefore hafter => rw [List.length_nil, Nat.zero_add, hleft]
  | copied hend hthere => simp [Pc.left]
  | published hmore hthere => simp [Pc.left]

theorem DataQueue.DequeueMove.left_inr {r : Int32} (hm : q.DequeueMove len pc q' bs (.inr r)) :
    bs = [] ∧ (r = 0 ∧ pc.left len = len.toNat ∨ r = toCInt len ∧ pc.left len = 0) := by
  cases hm with
  | refuse => exact ⟨rfl, Or.inl ⟨rfl, rfl⟩⟩
  | returned hthere => exact ⟨rfl, Or.inr ⟨rfl, rfl⟩⟩

end

theorem DataQueue.DequeueMove.position {q q' : DataQueue} {len : UInt64} {pc : Pc UInt64}
    {bs : Bytes} {o : Ends UInt64} (hm : q.DequeueMove len pc q' bs o) :
    q'.bufferTail.toNat + o.ahead UInt64.toNat =
      q.bufferTail.toNat + pc.ahead UInt64.toNat + bs.length := by
  cases hm with
  | look hleft hbefore hafter => rw [Ends.ahead, hbefore, hafter, List.length_nil]
  | refuse => rfl
  | copied hend hthere =>
      rw [Ring.block_length]
      rfl
  | @published n ns hmore hthere => exact DataQueue.tail_add hthere
  | @returned n hthere => exact DataQueue.tail_add hthere

theorem Carries.retire {start : Nat} {q : DataQueue} {stream rest : Bytes} {k : Nat} {n : UInt64}
    (h : Carries start q stream rest k)
    (hthere : q.bufferTail.toNat + n.toNat ≤ q.bufferHead.toNat) :
    Carries start { q with bufferTail := q.bufferTail + n } stream rest k := by
  have htail := DataQueue.tail_add hthere
  have hbound := h.wellFormed.bounded
  have hstart := h.started
  refine ⟨⟨?_, ?_⟩, ?_, h.published, h.isSuffix, ?_⟩
  · show (q.bufferTail + n).toNat ≤ q.bufferHead.toNat
    rw [htail]
    exact hthere
  · show q.bufferHead.toNat ≤ (q.bufferTail + n).toNat + capacity
    rw [htail]
    omega
  · show start ≤ (q.bufferTail + n).toNat
    rw [htail]
    omega
  · show Ring.Holds _ _ _ (q.bufferTail + n).toNat _
    rw [htail]
    exact h.holds.mono (Nat.le_add_right ..) (Nat.le_refl _)

theorem Carries.publish_tail {start : Nat} {q : DataQueue} {stream rest read : Bytes} {k : Nat}
    {n : UInt64} (h : Carries start q stream rest k)
    (hread : read = stream.take (q.bufferTail.toNat + n.toNat - start))
    (hthere : q.bufferTail.toNat + n.toNat ≤ q.bufferHead.toNat) :
    Carries start { q with bufferTail := q.bufferTail + n } stream rest k ∧
      read = stream.take ((q.bufferTail + n).toNat - start) ∧
      q.bufferTail.toNat ≤ (q.bufferTail + n).toNat := by
  have htail := DataQueue.tail_add hthere
  refine ⟨h.retire hthere, ?_, ?_⟩
  · rw [htail]
    exact hread
  · rw [htail]
    exact Nat.le_add_right ..

/-- A step of `dequeue_data` reads on where the consumer has got to. -/
theorem Carries.dequeue {start : Nat} {q q' : DataQueue} {stream rest read bs : Bytes} {k : Nat}
    {len : UInt64} {pc : Pc UInt64} {o : Ends UInt64} (h : Carries start q stream rest k)
    (hread : read = stream.take (q.bufferTail.toNat + pc.ahead UInt64.toNat - start))
    (hm : q.DequeueMove len pc q' bs o) :
    Carries start q' stream rest k ∧
      read ++ bs = stream.take (q'.bufferTail.toNat + o.ahead UInt64.toNat - start) ∧
      q'.bufferHead = q.bufferHead ∧ q.bufferTail.toNat ≤ q'.bufferTail.toNat := by
  have hstart := h.started
  have hhead := h.head_le
  cases hm with
  | look hleft hbefore hafter =>
      rw [hbefore] at hread
      rw [Ends.ahead, hafter, List.append_nil]
      exact ⟨h, hread, rfl, Nat.le_refl _⟩
  | refuse =>
      rw [List.append_nil]
      exact ⟨h, hread, rfl, Nat.le_refl _⟩
  | @copied n ns hend hthere =>
      have hblock := h.holds.block (Nat.le_refl _) (hthere.trans (Nat.le_add_right _ k)) hend
      rw [map_streamAt hstart (hthere.trans hhead)] at hblock
      refine ⟨h, ?_, rfl, Nat.le_refl _⟩
      have hnext : q.bufferTail.toNat + (Pc.publish (n :: ns)).ahead UInt64.toNat - start =
          q.bufferTail.toNat - start + n.toNat := by
        show q.bufferTail.toNat + n.toNat - start = _
        omega
      rw [hblock, hread, Ends.ahead, hnext, List.take_add]
      rfl
  | published hmore hthere =>
      obtain ⟨hcarries, hcounted, hle⟩ := h.publish_tail hread hthere
      exact ⟨hcarries, (List.append_nil read).trans hcounted, rfl, hle⟩
  | returned hthere =>
      obtain ⟨hcarries, hcounted, hle⟩ := h.publish_tail hread hthere
      exact ⟨hcarries, (List.append_nil read).trans hcounted, rfl, hle⟩

/-- What a call has still to publish is an end of its buffer. -/
theorem DataQueue.EnqueueMove.rest_suffix {q q' : DataQueue} {buf : Bytes} {pc : Pc Bytes}
    {o : Ends Bytes} (hm : q.EnqueueMove buf pc q' o) (h : pc.rest buf <:+ buf) :
    o.rest buf <:+ buf := by
  cases hm with
  | look hrest hfound hbefore hafter hplain =>
      rw [Ends.rest, hrest]
      exact h
  | accept => exact List.suffix_refl _
  | refuse => exact List.nil_suffix
  | copied hend => exact h
  | published hmore => exact (List.suffix_append _ _).trans h
  | returned => exact List.nil_suffix

namespace DataQueue

/-! ## A call that finds its bytes -/

/-- The room test of a call of `dequeue_data`, if it is still to come, will pass. -/
def Finds (q : DataQueue) (len : UInt64) : Pc UInt64 → Prop
  | .room (some (.head, v)) => q.bufferTail.toNat + len.toNat ≤ v.toNat
  | .room _ => q.bufferTail.toNat + len.toNat ≤ q.bufferHead.toNat
  | _ => True

theorem Finds.mono {q q' : DataQueue} {len : UInt64} {pc : Pc UInt64} (h : q.Finds len pc)
    (htail : q'.bufferTail = q.bufferTail) (hhead : q.bufferHead.toNat ≤ q'.bufferHead.toNat) :
    q'.Finds len pc := by
  cases pc with
  | room loaded =>
      cases loaded with
      | none =>
          show q'.bufferTail.toNat + _ ≤ _
          rw [htail]
          exact Nat.le_trans h hhead
      | some l =>
          rcases l with ⟨c, v⟩
          cases c with
          | head =>
              show q'.bufferTail.toNat + _ ≤ _
              rw [htail]
              exact h
          | tail =>
              show q'.bufferTail.toNat + _ ≤ _
              rw [htail]
              exact Nat.le_trans h hhead
  | _ => trivial

theorem dequeueRoom_of_le {head tail len : UInt64} (h : tail.toNat + len.toNat ≤ head.toNat) :
    dequeueRoom len head tail = .inl .straight := by
  have hle : len ≤ head - tail := by
    rw [UInt64.le_iff_toNat_le, UInt64.toNat_sub_of_le]
    · omega
    · rw [UInt64.le_iff_toNat_le]
      omega
  exact if_pos hle

/-- Such a call only returns when it has copied them all. -/
theorem Finds.step {q q' : DataQueue} {len : UInt64} {c : Counter} {pc : Pc UInt64} {bs : Bytes}
    {o : Ends UInt64} (h : q.Finds len pc) (hpc : q.Consuming len pc)
    (hs : q.dequeueStep len c pc = some (q', bs, o)) :
    (∀ pc', o = .inl pc' → q'.Finds len pc') ∧ ∀ r, o = .inr r → pc.left len = 0 := by
  cases pc with
  | room loaded =>
      cases loaded with
      | none =>
          cases hs
          refine ⟨?_, nofun⟩
          rintro _ ⟨rfl⟩
          cases c with
          | head => exact h
          | tail => exact h
      | some l =>
          rcases l with ⟨c₁, v⟩
          cases c₁ with
          | head =>
              simp only [dequeueStep, dequeueRoom_of_le h] at hs
              cases hs
              refine ⟨?_, nofun⟩
              rintro _ ⟨rfl⟩
              trivial
          | tail =>
              have hv : v.toNat = q.bufferTail.toNat := by simpa [Consuming, Placed] using hpc
              rw [UInt64.toNat_inj] at hv
              subst hv
              simp only [dequeueStep, dequeueRoom_of_le h] at hs
              cases hs
              refine ⟨?_, nofun⟩
              rintro _ ⟨rfl⟩
              trivial
  | straight =>
      simp only [dequeueStep] at hs
      split at hs
      · cases hs
        refine ⟨?_, nofun⟩
        rintro _ ⟨rfl⟩
        trivial
      · cases hs
        refine ⟨?_, nofun⟩
        rintro _ ⟨rfl⟩
        trivial
  | measure =>
      cases hs
      refine ⟨?_, nofun⟩
      rintro _ ⟨rfl⟩
      trivial
  | aim blocks =>
      cases hs
      refine ⟨?_, nofun⟩
      rintro _ ⟨rfl⟩
      trivial
  | copy off blocks =>
      cases blocks with
      | nil => cases hs
      | cons n ns =>
          obtain ⟨b, -, hb⟩ := Option.map_eq_some_iff.mp hs
          cases hb
          refine ⟨?_, nofun⟩
          rintro _ ⟨rfl⟩
          trivial
  | publish blocks =>
      cases blocks with
      | nil => cases hs
      | cons n ns =>
          cases hs
          split
          · next hnil =>
              subst hnil
              exact ⟨nofun, fun _ _ => rfl⟩
          · refine ⟨?_, nofun⟩
            rintro _ ⟨rfl⟩
            trivial

end DataQueue

end Hprd.Common

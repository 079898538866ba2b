import Hprd.Common.DataQueue

/-!
# What the ring operations do to the unread bytes

One lemma per operation. The `_cases` lemma of `enqueueData` needs no
assumption on the counters and says everything a return value tells; the others
read the well-formed ring as a bounded FIFO of bytes.
-/

namespace Hprd.Common.DataQueue

open Hprd.Core

/-! ## Copies -/

theorem copyIn_eq {q : DataQueue} {off : Nat} {bs : Bytes} (h : off + bs.length ≤ capacity) :
    q.copyIn off bs = some { q with bufferQueue := Ring.store q.bufferQueue off bs } := by
  simp [copyIn, h]

theorem copyAdvance_counters {q q' : DataQueue} {bs : Bytes} {n : UInt64}
    (h : q.copyAdvance bs n = some q') :
    q'.bufferHead = q.bufferHead + n ∧ q'.bufferTail = q.bufferTail := by
  unfold copyAdvance copyIn at h
  split at h
  · cases h
    exact ⟨rfl, rfl⟩
  · cases h

theorem copyOut_eq {q : DataQueue} {off n : Nat} (h : off + n ≤ capacity) :
    q.copyOut off n = some (Ring.block q.bufferQueue off n) := by
  simp [copyOut, h]

theorem copyOut_none {q : DataQueue} {off n : Nat} (h : capacity < off + n) :
    q.copyOut off n = none := by
  simp [copyOut, Nat.not_le.mpr h]

theorem copyOut_length {q : DataQueue} {off n : Nat} {bs : Bytes} (h : q.copyOut off n = some bs) :
    bs.length = n ∧ off + n ≤ capacity := by
  unfold copyOut at h
  split at h
  · next hin =>
      cases h
      exact ⟨by simp, hin⟩
  · cases h

/-! ## Lengths as 64-bit counts -/

theorem ofNat_length_toNat {bs : Bytes} (h : bs.length ≤ capacity) :
    (UInt64.ofNat bs.length).toNat = bs.length := by
  rw [UInt64.toNat_ofNat']
  rw [capacity_eq] at h
  omega

theorem ofNat_le_free {q : DataQueue} {bs : Bytes} (h : bs.length ≤ capacity) :
    UInt64.ofNat bs.length ≤ q.bufferTail + queueDataSize - q.bufferHead ↔ bs.length ≤ q.free := by
  rw [UInt64.le_iff_toNat_le, ofNat_length_toNat h]
  rfl

theorem ofNat_le_direct {c : UInt64} {bs : Bytes} (h : bs.length ≤ capacity) :
    UInt64.ofNat bs.length ≤ queueDataSize - c % queueDataSize ↔
      c.toNat % capacity + bs.length ≤ capacity := by
  rw [UInt64.le_iff_toNat_le, ofNat_length_toNat h, directSpace_toNat, capacity_eq]
  omega

theorem toInt_ofNat_length {n : Nat} (h : n ≤ capacity) : (Int32.ofNat n).toInt = n := by
  rw [capacity_eq] at h
  exact Int32.toInt_ofNat_of_lt (by omega)

theorem toCInt_short {n : UInt64} (h : n.toNat ≤ capacity) : (toCInt n).toInt = n.toNat := by
  rw [capacity_eq] at h
  exact toCInt_toInt (by omega)

theorem int32_ofNat_ne_zero {n : Nat} (hpos : 0 < n) (hle : n ≤ capacity) :
    Int32.ofNat n ≠ 0 := by
  intro h
  have ht := congrArg Int32.toInt h
  rw [capacity_eq] at hle
  rw [Int32.toInt_ofNat_of_lt (by omega)] at ht
  simp at ht
  omega

theorem int32_ofNat_ne_neg_one {n : Nat} (hle : n ≤ capacity) : Int32.ofNat n ≠ -1 := by
  intro h
  have ht := congrArg Int32.toInt h
  rw [capacity_eq] at hle
  rw [Int32.toInt_ofNat_of_lt (by omega)] at ht
  have hneg : (-1 : Int32).toInt = -1 := by decide
  rw [hneg] at ht
  omega

/-! ## `enqueue_data` -/

theorem enqueueData_too_long {q : DataQueue} {buf : Bytes} (h : capacity < buf.length) :
    q.enqueueData buf = some (-1, q) := by
  simp [enqueueData, h]

theorem enqueueData_full {q : DataQueue} {buf : Bytes} (hlen : buf.length ≤ capacity)
    (h : q.free < buf.length) : q.enqueueData buf = some (0, q) := by
  have hroom := ofNat_le_free (q := q) hlen
  simp [enqueueData, Nat.not_lt.mpr hlen, hroom, Nat.not_le.mpr h]

/-- Every return of `enqueue_data`, with the space it found and the counters it left. -/
theorem enqueueData_cases {q q' : DataQueue} {buf : Bytes} {r : Int32}
    (h : q.enqueueData buf = some (r, q')) :
    (capacity < buf.length ∧ r = -1 ∧ q' = q) ∨
    (buf.length ≤ capacity ∧ q.free < buf.length ∧ r = 0 ∧ q' = q) ∨
    (buf.length ≤ capacity ∧ buf.length ≤ q.free ∧ r = Int32.ofNat buf.length ∧
      q'.bufferHead = q.bufferHead + UInt64.ofNat buf.length ∧ q'.bufferTail = q.bufferTail) := by
  by_cases hlen : buf.length ≤ capacity
  · by_cases hroom : buf.length ≤ q.free
    · refine Or.inr (Or.inr ⟨hlen, hroom, ?_⟩)
      have hfit := (ofNat_le_free (q := q) hlen).mpr hroom
      simp only [enqueueData, Nat.not_lt.mpr hlen, if_false, hfit, if_true] at h
      split at h
      · simp only [Option.bind_eq_bind, Option.bind_eq_some_iff] at h
        obtain ⟨q₁, h₁, hq⟩ := h
        obtain ⟨hh, ht⟩ := copyAdvance_counters h₁
        cases hq
        exact ⟨rfl, hh, ht⟩
      · simp only [Option.bind_eq_bind, Option.bind_eq_some_iff] at h
        obtain ⟨q₁, h₁, q₂, h₂, hq⟩ := h
        obtain ⟨hh₁, ht₁⟩ := copyAdvance_counters h₁
        obtain ⟨hh₂, ht₂⟩ := copyAdvance_counters h₂
        cases hq
        refine ⟨rfl, ?_, ht₂.trans ht₁⟩
        rw [hh₂, hh₁, UInt64.add_assoc, UInt64.add_comm (queueDataSize - _), UInt64.sub_add_cancel]
    · have hfull := Nat.lt_of_not_le hroom
      rw [enqueueData_full hlen hfull] at h
      cases h
      exact Or.inr (Or.inl ⟨hlen, hfull, rfl, rfl⟩)
  · have hlong := Nat.lt_of_not_le hlen
    rw [enqueueData_too_long hlong] at h
    cases h
    exact Or.inl ⟨hlong, rfl, rfl⟩

theorem enqueueData_nil (q : DataQueue) : q.enqueueData [] = some (0, q) := by
  have hmod := Nat.mod_lt q.bufferHead.toNat (show 0 < capacity by decide)
  have hcopy : q.copyAdvance [] 0 = some q := by
    have hoff : (q.bufferHead % queueDataSize).toNat = q.bufferHead.toNat % capacity :=
      queueGetWritePtr_eq q
    rw [copyAdvance, hoff, copyIn_eq (by simp; omega), Ring.store_nil]
    simp
  have hfit := (@ofNat_le_free q [] (Nat.zero_le _)).mpr (Nat.zero_le _)
  have hd := (@ofNat_le_direct q.bufferHead [] (Nat.zero_le _)).mpr (by simp; omega)
  unfold enqueueData
  dsimp only
  rw [if_neg (by simp), if_pos hfit, if_pos hd]
  simp only [List.length_nil]
  rw [show UInt64.ofNat 0 = 0 from rfl, hcopy]
  rfl

/-- An `enqueue_data` that returned the length of a nonempty buffer. -/
structure Enqueued (q : DataQueue) (buf : Bytes) (q' : DataQueue) : Prop where
  returns : q.enqueueData buf = some (Int32.ofNat buf.length, q')
  nonempty : buf ≠ []
  short : buf.length ≤ capacity
  fits : buf.length ≤ q.free
  head : q'.bufferHead = q.bufferHead + UInt64.ofNat buf.length
  tail : q'.bufferTail = q.bufferTail

/-- What a caller that tests the result for 0 and for -1 knows. -/
theorem enqueueData_result {q q' : DataQueue} {buf : Bytes} {r : Int32}
    (h : q.enqueueData buf = some (r, q')) :
    (r = 0 ∧ q' = q ∧ (buf = [] ∨ buf.length ≤ capacity ∧ q.free < buf.length)) ∨
    (r = -1 ∧ q' = q ∧ capacity < buf.length) ∨
    (r ≠ 0 ∧ r ≠ -1 ∧ q.Enqueued buf q') := by
  by_cases hnil : buf = []
  · rw [hnil, enqueueData_nil] at h
    cases h
    exact Or.inl ⟨rfl, rfl, Or.inl hnil⟩
  · have hpos := List.length_pos_iff.mpr hnil
    rcases enqueueData_cases h with ⟨hlong, hr, hq⟩ | ⟨hle, hfull, hr, hq⟩ | ⟨hle, hfit, hr, hh, ht⟩
    · exact Or.inr (Or.inl ⟨hr, hq, hlong⟩)
    · exact Or.inl ⟨hr, hq, Or.inr ⟨hle, hfull⟩⟩
    · refine Or.inr (Or.inr ⟨?_, ?_, ?_⟩)
      · rw [hr]
        exact int32_ofNat_ne_zero hpos hle
      · rw [hr]
        exact int32_ofNat_ne_neg_one hle
      · rw [hr] at h
        exact ⟨h, hnil, hle, hfit, hh, ht⟩

/-- The head moved over a block that was copied to its cell. -/
theorem contents_append {q : DataQueue} (h : q.WellFormed) (bs : Bytes) {n : UInt64}
    (hn : n.toNat = bs.length) (hend : q.bufferHead.toNat % capacity + bs.length ≤ capacity)
    (hroom : bs.length ≤ q.free) (hcount : q.bufferHead.toNat + bs.length < 2 ^ 64) :
    let q' : DataQueue :=
      ⟨Ring.store q.bufferQueue (q.bufferHead.toNat % capacity) bs, q.bufferHead + n, q.bufferTail⟩
    q'.WellFormed ∧ q'.contents = q.contents ++ bs ∧
      q'.bufferHead.toNat = q.bufferHead.toNat + bs.length := by
  intro q'
  have hfree := free_eq (used_le_capacity h)
  have hused := used_eq h
  have ho := h.ordered
  have hb := h.bounded
  have hhead : q'.bufferHead.toNat = q.bufferHead.toNat + bs.length := by
    change (q.bufferHead + n).toNat = _
    rw [UInt64.toNat_add, hn]
    exact Nat.mod_eq_of_lt hcount
  have hwf : q'.WellFormed := by
    constructor
    · rw [hhead]
      change q.bufferTail.toNat ≤ _
      omega
    · rw [hhead]
      change _ ≤ q.bufferTail.toNat + capacity
      omega
  refine ⟨hwf, ?_, hhead⟩
  have hused' : q'.used = q.used + bs.length := by
    rw [used_eq hwf, hhead, hused]
    change q.bufferHead.toNat + bs.length - q.bufferTail.toNat = _
    omega
  have hpos : q.bufferTail.toNat + q.used = q.bufferHead.toNat := by omega
  have hlap : (q.bufferTail.toNat + q.used) % capacity + bs.length ≤ capacity := by
    rw [hpos]
    exact hend
  have hw := Ring.window_store_append q.bufferQueue bs hlap (by omega)
  rw [hpos] at hw
  rw [contents_eq_window hwf, contents_eq_window h, hused']
  exact hw

theorem copyAdvance_append {q : DataQueue} (h : q.WellFormed) (bs : Bytes) {n : UInt64}
    (hn : n.toNat = bs.length) (hend : q.bufferHead.toNat % capacity + bs.length ≤ capacity)
    (hroom : bs.length ≤ q.free) (hcount : q.bufferHead.toNat + bs.length < 2 ^ 64) :
    ∃ q', q.copyAdvance bs n = some q' ∧ q'.WellFormed ∧ q'.contents = q.contents ++ bs ∧
      q'.bufferHead.toNat = q.bufferHead.toNat + bs.length ∧ q'.bufferTail = q.bufferTail := by
  obtain ⟨hwf, hc, hh⟩ := contents_append h bs hn hend hroom hcount
  have hoff : (q.bufferHead % queueDataSize).toNat = q.bufferHead.toNat % capacity :=
    queueGetWritePtr_eq q
  refine ⟨_, ?_, hwf, hc, hh, rfl⟩
  rw [copyAdvance, hoff, copyIn_eq hend]
  rfl

/-- The cells left before the physical end take a whole block when they are filled. -/
theorem next_lap {h k : Nat} (hk : k = capacity - h % capacity) : (h + k) % capacity = 0 := by
  rw [capacity_eq] at *
  omega

theorem enqueueData_room {q : DataQueue} {buf : Bytes} (h : q.WellFormed)
    (hroom : buf.length ≤ q.free) (hcount : q.bufferHead.toNat + buf.length < 2 ^ 64) :
    ∃ q', q.enqueueData buf = some (Int32.ofNat buf.length, q') ∧ q'.WellFormed ∧
      q'.contents = q.contents ++ buf ∧
      q'.bufferHead.toNat = q.bufferHead.toNat + buf.length ∧ q'.bufferTail = q.bufferTail := by
  have hf := free_eq (used_le_capacity h)
  have hlen : buf.length ≤ capacity := by omega
  have hfit := (ofNat_le_free (q := q) hlen).mpr hroom
  by_cases hend : q.bufferHead.toNat % capacity + buf.length ≤ capacity
  · have hd := (ofNat_le_direct (c := q.bufferHead) hlen).mpr hend
    obtain ⟨q', he, hq'⟩ := copyAdvance_append h buf (ofNat_length_toNat hlen) hend hroom hcount
    refine ⟨q', ?_, hq'⟩
    unfold enqueueData
    dsimp only
    rw [if_neg (Nat.not_lt.mpr hlen), if_pos hfit, if_pos hd, he]
    rfl
  · have hd : ¬UInt64.ofNat buf.length ≤ queueDataSize - q.bufferHead % queueDataSize :=
      fun hd => hend ((ofNat_le_direct hlen).mp hd)
    have hspace := directSpace_toNat q.bufferHead
    generalize hlenTmp : queueDataSize - q.bufferHead % queueDataSize = lenTmp at hd hspace
    have hmod : q.bufferHead.toNat % capacity < capacity := Nat.mod_lt _ (by decide)
    have htake : (buf.take lenTmp.toNat).length = lenTmp.toNat := by
      rw [List.length_take]
      omega
    have hdrop : (buf.drop lenTmp.toNat).length = buf.length - lenTmp.toNat := List.length_drop
    obtain ⟨q₁, he₁, hwf₁, hc₁, hh₁, ht₁⟩ :=
      copyAdvance_append h (buf.take lenTmp.toNat) htake.symm (by omega) (by omega) (by omega)
    have hcell : q₁.bufferHead.toNat % capacity = 0 := by
      rw [hh₁, htake]
      exact next_lap hspace
    have hused₁ := congrArg List.length hc₁
    rw [List.length_append, contents_length, contents_length] at hused₁
    have hf₁ := free_eq (used_le_capacity hwf₁)
    have hrest : (UInt64.ofNat buf.length - lenTmp).toNat = (buf.drop lenTmp.toNat).length := by
      rw [UInt64.toNat_sub_of_le, ofNat_length_toNat hlen, hdrop]
      rw [UInt64.le_iff_toNat_le, ofNat_length_toNat hlen]
      omega
    obtain ⟨q₂, he₂, hwf₂, hc₂, hh₂, ht₂⟩ :=
      copyAdvance_append hwf₁ (buf.drop lenTmp.toNat) hrest (by omega) (by omega) (by omega)
    refine ⟨q₂, ?_, hwf₂, ?_, by omega, ht₂.trans ht₁⟩
    · unfold enqueueData
      dsimp only
      rw [if_neg (Nat.not_lt.mpr hlen), if_pos hfit, hlenTmp, if_neg hd, he₁,
        Option.bind_eq_bind, Option.bind_some, he₂]
      rfl
    · rw [hc₂, hc₁, List.append_assoc, List.take_append_drop]

/-! ## Direct access -/

theorem direct_write {q : DataQueue} (h : q.WellFormed) (bs : Bytes)
    (hend : q.bufferHead.toNat % capacity + bs.length ≤ capacity)
    (hroom : bs.length ≤ q.free) (hcount : q.bufferHead.toNat + bs.length < 2 ^ 64) :
    ∃ q₁, q.copyIn q.queueGetWritePtr bs = some q₁ ∧
      let q' := (q₁.queueHeadPointForward (UInt64.ofNat bs.length)).2
      q'.WellFormed ∧ q'.contents = q.contents ++ bs ∧
        q'.bufferHead.toNat = q.bufferHead.toNat + bs.length ∧ q'.bufferTail = q.bufferTail := by
  have hlen : bs.length ≤ capacity := by
    have := free_eq (used_le_capacity h)
    omega
  have hn := ofNat_length_toNat hlen
  have hbig : ¬queueDataSize < UInt64.ofNat bs.length := by
    rw [UInt64.lt_iff_toNat_lt, hn, queueDataSize_toNat]
    rw [capacity_eq] at hlen
    omega
  have hfit := (ofNat_le_free (q := q) hlen).mpr hroom
  obtain ⟨hwf, hc, hh⟩ := contents_append h bs hn hend hroom hcount
  refine ⟨_, copyIn_eq (by rw [queueGetWritePtr_eq]; exact hend), ?_⟩
  simp only [queueHeadPointForward, hbig, if_false, hfit, if_true, queueGetWritePtr_eq]
  exact ⟨hwf, hc, hh, trivial⟩

theorem direct_read {q : DataQueue} {n : Nat} (hn : n ≤ q.used) (h : Straight q.bufferTail n) :
    q.copyOut q.queueGetReadPtr n = some (q.contents.take n) := by
  obtain ⟨hend, hcount⟩ := h
  rw [queueGetReadPtr_eq, copyOut_eq hend, contents, ← List.map_take, List.take_range,
    Nat.min_eq_left hn]
  congr 1
  apply List.map_congr_left
  intro i hi
  have hi : i < n := by simpa using hi
  have hmod : (q.bufferTail.toNat + i) % capacity = q.bufferTail.toNat % capacity + i := by
    rw [capacity_eq] at *
    omega
  rw [cell_of_lt (by omega), hmod]

theorem queueTailPointForward_used {q : DataQueue} {len : UInt64} (hlen : len.toNat ≤ capacity)
    (h : len.toNat ≤ q.used) :
    q.queueTailPointForward len = (toCInt len, q.skip len) := by
  have hbig : ¬queueDataSize < len := by
    rw [UInt64.lt_iff_toNat_lt, queueDataSize_toNat]
    rw [capacity_eq] at hlen
    omega
  have hle : len ≤ q.bufferHead - q.bufferTail := UInt64.le_iff_toNat_le.mpr h
  simp [queueTailPointForward, hbig, hle, skip]

theorem contents_skip (q : DataQueue) {len : UInt64} (hlen : len.toNat ≤ q.used) :
    (q.skip len).contents = q.contents.drop len.toNat ∧
      (q.skip len).used = q.used - len.toNat := by
  have hused : (q.skip len).used = q.used - len.toNat := by
    have htail : (q.skip len).bufferTail.toNat = (q.bufferTail.toNat + len.toNat) % 2 ^ 64 :=
      UInt64.toNat_add _ _
    have hhead : (q.skip len).bufferHead = q.bufferHead := rfl
    have hh := q.bufferHead.toNat_lt
    have ht := q.bufferTail.toNat_lt
    rw [used_toNat q] at *
    rw [used_toNat (q.skip len), htail, hhead]
    omega
  have hcell : ∀ i, (q.skip len).cell i = q.cell (len.toNat + i) := by
    intro i
    show ((q.bufferTail + len + UInt64.ofNat i) % queueDataSize).toNat = _
    rw [cell, UInt64.ofNat_add, UInt64.ofNat_toNat, UInt64.add_assoc]
  refine ⟨?_, hused⟩
  apply List.ext_getElem
  · simp [hused]
  · intro i h₁ h₂
    simp [contents, hcell]
    rfl

theorem wellFormed_skip {q : DataQueue} (h : q.WellFormed) {len : UInt64}
    (hlen : len.toNat ≤ q.used) :
    (q.skip len).WellFormed ∧
      (q.skip len).bufferTail.toNat = q.bufferTail.toNat + len.toNat := by
  have hused := used_eq h
  have ho := h.ordered
  have hb := h.bounded
  have hh := q.bufferHead.toNat_lt
  have htail : (q.skip len).bufferTail.toNat = q.bufferTail.toNat + len.toNat := by
    show (q.bufferTail + len).toNat = _
    rw [UInt64.toNat_add]
    exact Nat.mod_eq_of_lt (by omega)
  refine ⟨⟨?_, ?_⟩, htail⟩
  · rw [htail]
    show _ ≤ q.bufferHead.toNat
    omega
  · rw [htail]
    show q.bufferHead.toNat ≤ _
    omega

theorem skip_skip (q : DataQueue) (m n : Nat) :
    (q.skip (UInt64.ofNat m)).skip (UInt64.ofNat n) = q.skip (UInt64.ofNat (m + n)) := by
  simp [skip, UInt64.ofNat_add, UInt64.add_assoc]

theorem skip_sub (q : DataQueue) (m n : UInt64) : (q.skip m).skip (n - m) = q.skip n := by
  cases q with
  | mk mem head tail =>
      have hsum : tail + m + (n - m) = tail + n := by
        rw [UInt64.add_assoc, UInt64.add_comm m, UInt64.sub_add_cancel]
      simp only [skip, hsum]

@[simp] theorem skip_zero (q : DataQueue) : q.skip (UInt64.ofNat 0) = q := by
  simp [skip]

/-! ## `dequeue_data` and `read_data` -/

theorem copyTail_eq {q : DataQueue} {n : UInt64} (hn : n.toNat ≤ q.used)
    (h : Straight q.bufferTail n.toNat) : q.copyTail n = some (q.contents.take n.toNat) :=
  direct_read hn h

theorem readData_eq (q : DataQueue) (len : UInt64) :
    q.readData len = (q.dequeueData len).map fun r => (r.1, r.2.1) := by
  have hcells : ∀ lenTmp, copyTail { q with bufferTail := q.bufferTail + lenTmp } (len - lenTmp) =
      q.copyOut ((q.bufferTail + lenTmp) % queueDataSize).toNat (len - lenTmp).toNat :=
    fun _ => rfl
  unfold readData dequeueData
  simp only [hcells]
  generalize queueDataSize - q.bufferTail % queueDataSize = lenTmp
  generalize q.copyOut ((q.bufferTail + lenTmp) % queueDataSize).toNat (len - lenTmp).toNat = r
  split
  · rfl
  split
  · split
    · cases q.copyTail len <;> rfl
    · cases q.copyTail lenTmp <;> cases r <;> rfl
  · rfl

theorem dequeueData_too_long {q : DataQueue} {len : UInt64} (h : capacity < len.toNat) :
    q.dequeueData len = some (-1, [], q) := by
  have hlong : queueDataSize < len := by
    rw [UInt64.lt_iff_toNat_lt, queueDataSize_toNat, ← capacity_eq]
    exact h
  rw [dequeueData, if_pos hlong]

theorem not_queueDataSize_lt {len : UInt64} (h : len.toNat ≤ capacity) : ¬queueDataSize < len := by
  rw [UInt64.lt_iff_toNat_lt, queueDataSize_toNat, ← capacity_eq]
  exact Nat.not_lt.mpr h

theorem dequeueData_short {q : DataQueue} {len : UInt64} (hlen : len.toNat ≤ capacity)
    (h : q.used < len.toNat) : q.dequeueData len = some (0, [], q) := by
  have hlong := not_queueDataSize_lt hlen
  have hle : ¬len ≤ q.bufferHead - q.bufferTail := by
    rw [UInt64.le_iff_toNat_le]
    exact Nat.not_le.mpr h
  rw [dequeueData, if_neg hlong, if_neg hle]

/-- The two copies of a read across the physical end, each with its counter update. -/
theorem dequeueData_split {q : DataQueue} {len lenTmp : UInt64} (hlong : ¬queueDataSize < len)
    (hle : len ≤ q.bufferHead - q.bufferTail)
    (ht : queueDataSize - q.bufferTail % queueDataSize = lenTmp) (hd : ¬len ≤ lenTmp) :
    q.dequeueData len = (q.copyTail lenTmp).bind fun bs =>
      ((q.skip lenTmp).copyTail (len - lenTmp)).bind fun bs' =>
        some (toCInt len, bs ++ bs', (q.skip lenTmp).skip (len - lenTmp)) := by
  subst ht
  rw [dequeueData, if_neg hlong, if_pos hle, if_neg hd]
  rfl

theorem dequeueData_used {q : DataQueue} {len : UInt64} (h : q.WellFormed)
    (hlen : len.toNat ≤ q.used) :
    q.dequeueData len = some (toCInt len, q.contents.take len.toNat, q.skip len) := by
  have hshort := hlen.trans (used_le_capacity h)
  have hlong := not_queueDataSize_lt hshort
  have hle : len ≤ q.bufferHead - q.bufferTail := UInt64.le_iff_toNat_le.mpr hlen
  have hused := used_eq h
  have ho := h.ordered
  have hh := q.bufferHead.toNat_lt
  have hspace := directSpace_toNat q.bufferTail
  have hmod : q.bufferTail.toNat % capacity < capacity := Nat.mod_lt _ (by decide)
  by_cases hend : q.bufferTail.toNat % capacity + len.toNat ≤ capacity
  · have hd : len ≤ queueDataSize - q.bufferTail % queueDataSize := by
      rw [UInt64.le_iff_toNat_le, hspace]
      omega
    have hcopy := copyTail_eq hlen ⟨hend, by omega⟩
    rw [dequeueData, if_neg hlong, if_pos hle, if_pos hd, hcopy]
    rfl
  · have hsplit := dequeueData_split hlong hle rfl
    generalize queueDataSize - q.bufferTail % queueDataSize = lenTmp at hsplit hspace
    have hd : ¬len ≤ lenTmp := by
      rw [UInt64.le_iff_toNat_le]
      omega
    have hrest : (len - lenTmp).toNat = len.toNat - lenTmp.toNat := by
      rw [UInt64.toNat_sub_of_le]
      rw [UInt64.le_iff_toNat_le]
      omega
    have hfirst : q.copyTail lenTmp = some (q.contents.take lenTmp.toNat) :=
      copyTail_eq (by omega) ⟨by omega, by omega⟩
    have hbytes : q.contents.take len.toNat = q.contents.take lenTmp.toNat ++
        (q.contents.drop lenTmp.toNat).take (len - lenTmp).toNat := by
      rw [hrest, ← List.take_add, Nat.add_sub_cancel' (by omega)]
    have hpart : lenTmp.toNat ≤ q.used := by omega
    rcases contents_skip q hpart with ⟨hc₁, hu₁⟩
    rcases wellFormed_skip h hpart with ⟨-, ht₁⟩
    rw [hsplit hd, ← skip_sub q lenTmp len, hbytes, ← hc₁]
    generalize q.skip lenTmp = q₁ at *
    have hcell : q₁.bufferTail.toNat % capacity = 0 := by
      rw [ht₁]
      exact next_lap hspace
    have hsecond : q₁.copyTail (len - lenTmp) = some (q₁.contents.take (len - lenTmp).toNat) :=
      copyTail_eq (by omega) ⟨by omega, by omega⟩
    rw [hfirst, Option.bind_some, hsecond, Option.bind_some]

theorem queueTailPointForward_of_dequeue {q q' : DataQueue} {len : UInt64} {r : Int32} {bs : Bytes}
    (h : q.dequeueData len = some (r, bs, q')) : q.queueTailPointForward len = (r, q') := by
  by_cases hlong : queueDataSize < len
  · rw [dequeueData, if_pos hlong] at h
    rw [queueTailPointForward, if_pos hlong]
    cases h
    rfl
  by_cases hle : len ≤ q.bufferHead - q.bufferTail
  · rw [queueTailPointForward, if_neg hlong, if_pos hle]
    by_cases hd : len ≤ queueDataSize - q.bufferTail % queueDataSize
    · rw [dequeueData, if_neg hlong, if_pos hle, if_pos hd] at h
      rcases Option.bind_eq_some_iff.1 h with ⟨bs₁, -, hq⟩
      cases hq
      rfl
    · rw [dequeueData_split hlong hle rfl hd] at h
      rcases Option.bind_eq_some_iff.1 h with ⟨bs₁, -, h⟩
      rcases Option.bind_eq_some_iff.1 h with ⟨bs₂, -, hq⟩
      rw [skip_sub] at hq
      cases hq
      rfl
  · rw [dequeueData, if_neg hlong, if_neg hle] at h
    rw [queueTailPointForward, if_neg hlong, if_neg hle]
    cases h
    rfl

theorem queueHeadPointForward_free {q : DataQueue} {len : UInt64} (hlen : len.toNat ≤ capacity)
    (h : len.toNat ≤ q.free) :
    q.queueHeadPointForward len = (toCInt len, { q with bufferHead := q.bufferHead + len }) := by
  have hle : len ≤ q.bufferTail + queueDataSize - q.bufferHead := UInt64.le_iff_toNat_le.mpr h
  rw [queueHeadPointForward, if_neg (not_queueDataSize_lt hlen), if_pos hle]

/-! ## Space -/

/-- Whatever happens to the counters, at most a full ring is ever accounted for. -/
theorem queueHeadPointForward_used_le {q : DataQueue} (h : q.used ≤ capacity) (len : UInt64) :
    (q.queueHeadPointForward len).2.used ≤ capacity := by
  have hfree := free_eq h
  unfold queueHeadPointForward
  split
  · exact h
  · split
    · next hle =>
        have hle : len.toNat ≤ q.free := UInt64.le_iff_toNat_le.mp hle
        have hhead : (q.bufferHead + len).toNat = (q.bufferHead.toNat + len.toNat) % 2 ^ 64 :=
          UInt64.toNat_add _ _
        have hh := q.bufferHead.toNat_lt
        have ht := q.bufferTail.toNat_lt
        have hused := used_toNat q
        rw [used_toNat]
        show (2 ^ 64 - q.bufferTail.toNat + (q.bufferHead + len).toNat) % 2 ^ 64 ≤ capacity
        rw [hhead]
        rw [capacity_eq] at *
        omega
    · exact h

theorem queueTailPointForward_used_le {q : DataQueue} (h : q.used ≤ capacity) (len : UInt64) :
    (q.queueTailPointForward len).2.used ≤ capacity := by
  unfold queueTailPointForward
  split
  · exact h
  · split
    · next hle =>
        have hle : len.toNat ≤ q.used := UInt64.le_iff_toNat_le.mp hle
        have hused := (contents_skip q hle).2
        rw [skip] at hused
        show DataQueue.used { q with bufferTail := q.bufferTail + len } ≤ capacity
        omega
    · exact h

theorem Enqueued.toNat_length {q q' : DataQueue} {buf : Bytes} (h : q.Enqueued buf q') :
    (UInt64.ofNat buf.length).toNat = buf.length :=
  ofNat_length_toNat h.short

theorem Enqueued.free {q q' : DataQueue} {buf : Bytes} (h : q.Enqueued buf q') :
    q'.free = q.free - buf.length := by
  have hn := h.toNat_length
  have hfit := h.fits
  have hhead : q'.bufferHead.toNat = (q.bufferHead.toNat + buf.length) % 2 ^ 64 := by
    rw [h.head, UInt64.toNat_add, hn]
  have hh := q.bufferHead.toNat_lt
  have hfree := free_toNat q
  rw [free_toNat q', hhead, h.tail]
  rw [hfree] at hfit ⊢
  generalize (q.bufferTail.toNat + 10485760) % 2 ^ 64 = b at *
  omega

theorem Enqueued.used_le {q q' : DataQueue} {buf : Bytes} (h : q.Enqueued buf q')
    (hu : q.used ≤ capacity) : q'.used = q.used + buf.length ∧ q'.used ≤ capacity := by
  have hn := h.toNat_length
  have hfit := h.fits
  have hfree := free_eq hu
  have hhead : q'.bufferHead.toNat = (q.bufferHead.toNat + buf.length) % 2 ^ 64 := by
    rw [h.head, UInt64.toNat_add, hn]
  have hh := q.bufferHead.toNat_lt
  have ht := q.bufferTail.toNat_lt
  have hused := used_toNat q
  have hcap := capacity_eq
  have hused' : q'.used = q.used + buf.length := by
    rw [used_toNat q', hhead, h.tail]
    omega
  exact ⟨hused', by omega⟩

theorem Enqueued.of_room {q : DataQueue} {buf : Bytes} (h : q.WellFormed) (hne : buf ≠ [])
    (hroom : buf.length ≤ q.free) (hcount : q.bufferHead.toNat + buf.length < 2 ^ 64) :
    ∃ q', q.Enqueued buf q' ∧ q'.WellFormed ∧ q'.contents = q.contents ++ buf ∧
      q'.bufferHead.toNat = q.bufferHead.toNat + buf.length ∧ q'.bufferTail = q.bufferTail := by
  have hfree := free_eq (used_le_capacity h)
  have hshort : buf.length ≤ capacity := by omega
  obtain ⟨q', he, hwf, hc, hh, ht⟩ := enqueueData_room h hroom hcount
  have hhead : q'.bufferHead = q.bufferHead + UInt64.ofNat buf.length := by
    apply UInt64.toNat_inj.mp
    rw [hh, UInt64.toNat_add, ofNat_length_toNat hshort]
    exact (Nat.mod_eq_of_lt hcount).symm
  exact ⟨q', ⟨he, hne, hshort, hroom, hhead, ht⟩, hwf, hc, hh, ht⟩

theorem Enqueued.contents {q q' : DataQueue} {buf : Bytes} (h : q.Enqueued buf q')
    (hwf : q.WellFormed) (hcount : q.bufferHead.toNat + buf.length < 2 ^ 64) :
    q'.WellFormed ∧ q'.contents = q.contents ++ buf ∧
      q'.bufferHead.toNat = q.bufferHead.toNat + buf.length := by
  obtain ⟨q₁, he, hwf₁, hc₁, hh₁, -⟩ := enqueueData_room hwf h.fits hcount
  rw [h.returns] at he
  cases he
  exact ⟨hwf₁, hc₁, hh₁⟩

/-- A `send` from the read pointer takes the oldest unread bytes. -/
theorem drain_contents {q : DataQueue} (h : q.WellFormed) {n : Nat} {bs : Bytes}
    (hn : (n : Int) ≤ q.queueGetEndDataCount.toInt) (hbs : q.copyOut q.queueGetReadPtr n = some bs) :
    let q' := (q.queueTailPointForward (UInt64.ofNat n)).2
    q'.WellFormed ∧ bs ++ q'.contents = q.contents ∧ q'.bufferHead = q.bufferHead := by
  have hu := used_le_capacity h
  have hmod := Nat.mod_lt q.bufferTail.toNat (show 0 < capacity by decide)
  have hcap := capacity_eq
  rw [queueGetEndDataCount_toInt (by omega)] at hn
  have hle : n ≤ q.used := by omega
  have hto : (UInt64.ofNat n).toNat = n := by
    rw [UInt64.toNat_ofNat']
    omega
  have hlt : q.bufferTail.toNat + n ≤ 2 ^ 64 := by
    have := h.ordered
    have := used_eq h
    have := q.bufferHead.toNat_lt
    omega
  rw [direct_read hle ⟨by omega, hlt⟩] at hbs
  cases hbs
  have hfwd : q.queueTailPointForward (UInt64.ofNat n) = (toCInt (UInt64.ofNat n),
      q.skip (UInt64.ofNat n)) :=
    queueTailPointForward_used (by rw [hto]; omega) (by rw [hto]; exact hle)
  rw [hfwd]
  have hc := (contents_skip q (by rw [hto]; exact hle)).1
  rw [hto] at hc
  refine ⟨(wellFormed_skip h (by rw [hto]; exact hle)).1, ?_, rfl⟩
  rw [hc, List.take_append_drop]

end Hprd.Common.DataQueue

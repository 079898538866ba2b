import Hprd.Common.DevIdQueue
import Hprd.Core.Machine

/-!
# The decoder and the display on `dev_id_queue`

`svc_push_pkt` takes an id and commits it only when the packet made a frame;
`svc_get_fb` and `svc_put_fb` fetch a frame and give its id back. The ids that were
fetched are the first of the committed ones in every run where `get_buf` does not
reach a free slot beyond the committed positions and `get_id` none a lap ahead.
-/

namespace Hprd.Codec

open Hprd.Core Common

/-- `decoding` is the id the decoder has got and not yet committed, `held` the ids the display
has; `committed` and `fetched` are bookkeeping. -/
structure DecState where
  queue : DevIdQueue
  decoding : Option Nat
  held : List Nat
  committed : List Nat
  fetched : List Nat

inductive DecAction where
  | getId
  | decoded (frame : Bool)
  | getBuf
  | putBuf (id : Nat)

/-- The whole operations. A result of -1 leaves the decoder without an id and the display
without a frame. -/
def decStep (s : DecState) : DecAction → Option DecState
  | .getId =>
      match s.decoding with
      | some _ => none
      | none => s.queue.getId.map fun (ret, q) =>
          { s with queue := q, decoding := if ret = -1 then none else some ret.toNat }
  | .decoded frame =>
      match s.decoding with
      | none => none
      | some id =>
          if frame then
            some { s with
              queue := s.queue.subId, decoding := none, committed := s.committed ++ [id] }
          else some { s with decoding := none }
  | .getBuf =>
      s.queue.getBuf.map fun (ret, q) =>
        if ret = -1 then { s with queue := q }
        else { s with
          queue := q, held := s.held ++ [ret.toNat], fetched := s.fetched ++ [ret.toNat] }
  | .putBuf id =>
      if id ∈ s.held then
        some { s with queue := (s.queue.putBuf id).2, held := s.held.erase id }
      else none

/-- The decoder after its frame buffers are mapped. -/
def DecState.start (ids : List Int) : DecState := ⟨DevIdQueue.mapAll ids, none, [], [], []⟩

def decMachine : Machine DecState DecAction where
  init s := ∃ ids, s = .start ids
  step := decStep

/-- The fetched ids are the first of the committed ones, and the decoder's id is neither one
that waits to be fetched nor one the display has. -/
def HandsOutFrames (s : DecState) : Prop :=
  s.fetched <+: s.committed ∧ ∀ id, s.decoding = some id →
    id ∉ s.committed.drop s.fetched.length ∧ id ∉ s.held

/-- `get_buf` stops before the tail or at a slot that is not free, `get_id` less than a lap
ahead of the head, and the counters stay away from their wrap. -/
structure NoGap (s : DecState) (a : DecAction) : Prop where
  getBuf : a = .getBuf → s.queue.headBufId < s.queue.tailBufId →
    ∀ p, Ring.IsFirst s.queue.mapped s.queue.headBufId p →
      p < s.queue.tailBufId ∨ s.queue.free p = false
  getId : a = .getId → s.queue.tailBufId < s.queue.headBufId + s.queue.maxIdx →
    ∀ p, Ring.IsFirst s.queue.mapped s.queue.tailBufId p →
      p < s.queue.headBufId + s.queue.maxIdx
  counters : s.queue.tailBufId + 3 * s.queue.maxIdx + 1 < 2 ^ 64

/-! ## The invariant -/

/-- The committed positions that were not fetched. -/
def pending (q : DevIdQueue) : List Nat := Ring.marked q.mapped q.headBufId q.tailBufId

structure DecInv (s : DecState) : Prop where
  ids : ∀ i, (s.queue.bufs i).isUsed = true → 0 < i ∧ i < maxBufferCount
  lap : s.queue.tailBufId ≤ s.queue.headBufId + s.queue.maxIdx
  near : s.queue.headBufId ≤ s.queue.tailBufId + s.queue.maxIdx
  gap : ∀ p, s.queue.tailBufId ≤ p → p < s.queue.headBufId → s.queue.mapped p = false
  split : s.committed = s.fetched ++ (pending s.queue).map (· % s.queue.maxIdx)
  ready : ∀ p ∈ pending s.queue, s.queue.free p = true
  decoding : ∀ id, s.decoding = some id → id = s.queue.tailBufId % s.queue.maxIdx ∧
    s.queue.mapped s.queue.tailBufId = true ∧ s.queue.free s.queue.tailBufId = true ∧
    s.queue.tailBufId < s.queue.headBufId + s.queue.maxIdx
  held : ∀ id ∈ s.held, (s.queue.bufs id).isFree = false ∧ (s.queue.bufs id).isUsed = true
  distinct : s.held.Nodup

theorem DecInv.handsOut {s : DecState} (h : DecInv s) : HandsOutFrames s := by
  have hsplit := h.split
  refine ⟨⟨_, hsplit.symm⟩, fun id hid => ?_⟩
  obtain ⟨rfl, hm, hf, hlt⟩ := h.decoding id hid
  constructor
  · rw [hsplit, List.drop_left, List.mem_map]
    rintro ⟨p, hp, he⟩
    obtain ⟨hle, hlt', -⟩ := Ring.mem_marked.mp hp
    exact Ring.mod_ne_of_lt hlt' (by omega) he
  · intro hheld
    rw [DevIdQueue.free, (h.held _ hheld).1] at hf
    cases hf

/-! ## Setup -/

theorem setStatus_ids {q : DevIdQueue} (id : Int)
    (h : ∀ i, (q.bufs i).isUsed = true → 0 < i ∧ i < maxBufferCount) (i : Nat)
    (hi : (((q.setStatus id true).2).bufs i).isUsed = true) : 0 < i ∧ i < maxBufferCount := by
  unfold DevIdQueue.setStatus at hi
  split at hi
  · next hid =>
      by_cases he : i = id.toNat
      · omega
      · simp [he] at hi
        exact h i hi
  · exact h i hi

theorem mapAll_spec (ids : List Int) :
    (∀ i, ((DevIdQueue.mapAll ids).bufs i).isUsed = true → 0 < i ∧ i < maxBufferCount) ∧
      (DevIdQueue.mapAll ids).headBufId = 0 ∧ (DevIdQueue.mapAll ids).tailBufId = 0 := by
  have hfold : ∀ (ids : List Int) (q : DevIdQueue),
      (∀ i, (q.bufs i).isUsed = true → 0 < i ∧ i < maxBufferCount) → q.headBufId = 0 →
      q.tailBufId = 0 →
      let q' := ids.foldl (fun q id => (q.setStatus id true).2) q
      (∀ i, (q'.bufs i).isUsed = true → 0 < i ∧ i < maxBufferCount) ∧ q'.headBufId = 0 ∧
        q'.tailBufId = 0 := by
    intro ids
    induction ids with
    | nil => exact fun q h hh ht => ⟨h, hh, ht⟩
    | cons id ids ih =>
        intro q h hh ht
        refine ih (q.setStatus id true).2 (setStatus_ids id h) ?_ ?_
        · unfold DevIdQueue.setStatus
          split
          · exact hh
          · exact hh
        · unfold DevIdQueue.setStatus
          split
          · exact ht
          · exact ht
  exact hfold ids _ (fun i hi => by cases hi) rfl rfl

theorem decInv_start (ids : List Int) : DecInv (.start ids) := by
  obtain ⟨hids, hhead, htail⟩ := mapAll_spec ids
  have hnil : pending (DecState.start ids).queue = [] := by
    refine Ring.marked_eq_nil fun p hp hlt => ?_
    have htail' : (DecState.start ids).queue.tailBufId = 0 := htail
    omega
  constructor
  · exact hids
  · show (DevIdQueue.mapAll ids).tailBufId ≤ _
    omega
  · show (DevIdQueue.mapAll ids).headBufId ≤ _
    omega
  · intro p hp hlt
    have hhead' : (DecState.start ids).queue.headBufId = 0 := hhead
    omega
  · rw [hnil]
    rfl
  · rw [hnil]
    intro p hp
    cases hp
  · intro id h
    cases h
  · intro id h
    cases h
  · exact List.nodup_nil

/-! ## One step -/

theorem decInv_getId {s : DecState} {a : DecAction} (h : DecInv s) (hok : NoGap s a)
    (ha : a = .getId) {ret : Int} {q : DevIdQueue}
    (hs : s.queue.getId = some (ret, q)) :
    DecInv { s with queue := q, decoding := if ret = -1 then none else some ret.toNat } := by
  obtain ⟨hids, hlap, hnear, hgap, hsplit, hready, -, hheld, hdistinct⟩ := h
  have hcount := hok.counters
  unfold DevIdQueue.getId at hs
  split at hs
  · cases hs
    exact ⟨hids, hlap, hnear, hgap, hsplit, hready, (by simp), hheld, hdistinct⟩
  · next hfull =>
      obtain ⟨p, hp, he⟩ := Option.map_eq_some_iff.mp hs
      simp only [Prod.mk.injEq] at he
      obtain ⟨rfl, rfl⟩ := he
      rw [Nat.mod_eq_of_lt (by omega), Nat.not_le] at hfull
      have hfirst := DevIdQueue.skip_isFirst (by unfold DevIdQueue.skipFuel; omega) hp
      have hlt := hok.getId ha hfull p hfirst
      have hle : s.queue.headBufId ≤ p := by
        by_contra hlt'
        have hm := hgap p hfirst.le (by omega)
        rw [hfirst.here] at hm
        cases hm
      -- Nothing is mapped between the old tail and the new one.
      have hpend : pending { s.queue with tailBufId := p } = pending s.queue := by
        show Ring.marked s.queue.mapped s.queue.headBufId p = _
        rcases Nat.le_total s.queue.headBufId s.queue.tailBufId with hht | hth
        · rw [Ring.marked_append hht hfirst.le, Ring.marked_eq_nil hfirst.before, List.append_nil]
          rfl
        · rw [Ring.marked_eq_nil fun r hr hrp => hfirst.before r (by omega) hrp]
          exact (Ring.marked_eq_nil fun r hr hrp => by omega).symm
      refine ⟨hids, Nat.le_of_lt hlt, ?_, ?_, ?_, ?_, ?_, hheld, hdistinct⟩
      · show s.queue.headBufId ≤ p + s.queue.maxIdx
        omega
      · intro r hr hrh
        exact absurd hrh (Nat.not_lt.mpr (Nat.le_trans hle hr))
      · rw [hpend]
        exact hsplit
      · rw [hpend]
        exact hready
      · intro id hid
        cases hf : s.queue.free p with
        | false => simp [hf] at hid
        | true =>
            have hne : ((p % s.queue.maxIdx : Nat) : Int) ≠ -1 := by omega
            simp only [hf, if_true, if_neg hne, Int.toNat_natCast, Option.some.injEq] at hid
            exact ⟨hid.symm, hfirst.here, hf, hlt⟩

theorem decInv_decoded {s : DecState} {a : DecAction} (h : DecInv s) (hok : NoGap s a) {id : Nat}
    (hd : s.decoding = some id) :
    DecInv { s with
      queue := s.queue.subId, decoding := none, committed := s.committed ++ [id] } := by
  obtain ⟨hids, hlap, hnear, hgap, hsplit, hready, hdec, hheld, hdistinct⟩ := h
  obtain ⟨rfl, hm, hf, hlt⟩ := hdec id hd
  have hcount := hok.counters
  have hinc : s.queue.subId.tailBufId = s.queue.tailBufId + 1 := by
    show DevIdQueue.inc s.queue.tailBufId = _
    rw [DevIdQueue.inc]
    omega
  have hle : s.queue.headBufId ≤ s.queue.tailBufId := by
    by_contra hlt'
    rw [hgap _ (Nat.le_refl _) (by omega)] at hm
    cases hm
  have hpend : pending s.queue.subId = pending s.queue ++ [s.queue.tailBufId] := by
    rw [pending, hinc]
    exact Ring.marked_succ hle hm
  refine ⟨hids, ?_, ?_, ?_, ?_, ?_, ?_, hheld, hdistinct⟩
  · show s.queue.subId.tailBufId ≤ s.queue.headBufId + s.queue.maxIdx
    omega
  · show s.queue.headBufId ≤ s.queue.subId.tailBufId + s.queue.maxIdx
    omega
  · intro r hr hrh
    have hrh' : r < s.queue.headBufId := hrh
    dsimp only at hr
    omega
  · show s.committed ++ _ = _
    rw [hpend, hsplit, List.map_append, List.append_assoc]
    rfl
  · intro r hr
    rw [hpend, List.mem_append, List.mem_singleton] at hr
    rcases hr with hr | rfl
    · exact hready r hr
    · exact hf
  · intro id hid
    cases hid

theorem decInv_fetch {s : DecState} (h : DecInv s) {p : Nat}
    (hcount : s.queue.tailBufId + 3 * s.queue.maxIdx + 1 < 2 ^ 64)
    (hfirst : Ring.IsFirst s.queue.mapped s.queue.headBufId p) (hp : p < s.queue.tailBufId) :
    DecInv { s with
      queue := { s.queue.setFree (p % s.queue.maxIdx) false with headBufId := DevIdQueue.inc p },
      held := s.held ++ [p % s.queue.maxIdx], fetched := s.fetched ++ [p % s.queue.maxIdx] } := by
  obtain ⟨hids, hlap, hnear, hgap, hsplit, hready, hdec, hheld, hdistinct⟩ := h
  have hinc : DevIdQueue.inc p = p + 1 := by
    rw [DevIdQueue.inc]
    omega
  rw [hinc]
  generalize hq : ({ s.queue.setFree (p % s.queue.maxIdx) false with headBufId := p + 1 } :
    DevIdQueue) = q
  have hmap : q.mapped = s.queue.mapped := by
    funext r
    rw [← hq]
    exact DevIdQueue.setFree_isUsed ..
  have hmax : q.maxIdx = s.queue.maxIdx := by rw [← hq]; rfl
  have htail : q.tailBufId = s.queue.tailBufId := by rw [← hq]; rfl
  have hhead : q.headBufId = p + 1 := by rw [← hq]
  have hfree : ∀ i, (q.bufs i).isFree = if i = p % s.queue.maxIdx then false
      else (s.queue.bufs i).isFree := by
    intro i
    rw [← hq]
    exact DevIdQueue.setFree_isFree ..
  have hused : ∀ i, (q.bufs i).isUsed = (s.queue.bufs i).isUsed := by
    intro i
    rw [← hq]
    exact DevIdQueue.setFree_isUsed ..
  have hpend : pending s.queue = p :: pending q := by
    rw [pending, pending, hmap, htail, hhead]
    exact hfirst.marked_eq hp
  have hwas : s.queue.free p = true := hready p (by rw [hpend]; exact List.mem_cons_self ..)
  have hnew : p % s.queue.maxIdx ∉ s.held := by
    intro hmem
    rw [DevIdQueue.free, (hheld _ hmem).1] at hwas
    cases hwas
  -- Positions up to a lap behind `p` have other slots.
  have hother : ∀ r, p < r → r < p + s.queue.maxIdx → q.free r = s.queue.free r := by
    intro r hr hlt
    have hne : r % s.queue.maxIdx ≠ p % s.queue.maxIdx := (Ring.mod_ne_of_lt hr hlt).symm
    rw [DevIdQueue.free, DevIdQueue.free, hmax, hfree, if_neg hne]
  have hle := hfirst.le
  refine ⟨?_, ?_, ?_, ?_, ?_, ?_, ?_, ?_, ?_⟩
  · intro i hi
    exact hids i (by rw [← hused]; exact hi)
  · show q.tailBufId ≤ q.headBufId + q.maxIdx
    omega
  · show q.headBufId ≤ q.tailBufId + q.maxIdx
    omega
  · intro r hr hlt
    have hr' : q.tailBufId ≤ r := hr
    have hlt' : r < q.headBufId := hlt
    omega
  · show s.committed = (s.fetched ++ [p % s.queue.maxIdx]) ++ (pending q).map (· % q.maxIdx)
    rw [hsplit, hpend, hmax, List.append_assoc]
    rfl
  · intro r hr
    obtain ⟨hr₁, hr₂, -⟩ : q.headBufId ≤ r ∧ r < q.tailBufId ∧ q.mapped r = true :=
      Ring.mem_marked.mp hr
    show q.free r = true
    rw [hother r (by omega) (by omega)]
    exact hready r (by rw [hpend]; exact List.mem_cons_of_mem _ hr)
  · intro id hid
    obtain ⟨he, hm, hf, hlt⟩ := hdec id hid
    show id = q.tailBufId % q.maxIdx ∧ q.mapped q.tailBufId = true ∧ q.free q.tailBufId = true ∧
      q.tailBufId < q.headBufId + q.maxIdx
    rw [hother q.tailBufId (by omega) (by omega), hmap, htail, hmax]
    exact ⟨he, hm, hf, by omega⟩
  · intro id hid
    show (q.bufs id).isFree = false ∧ (q.bufs id).isUsed = true
    rw [hfree, hused]
    rcases List.mem_append.mp hid with hid | hid
    · refine ⟨?_, (hheld id hid).2⟩
      split
      · rfl
      · exact (hheld id hid).1
    · cases List.mem_singleton.mp hid
      exact ⟨if_pos rfl, hfirst.here⟩
  · show (s.held ++ [p % s.queue.maxIdx]).Nodup
    rw [List.nodup_append]
    refine ⟨hdistinct, List.nodup_singleton _, ?_⟩
    rintro u hu v hv rfl
    cases List.mem_singleton.mp hv
    exact hnew hu

/-- A head that stops at a slot the display has. -/
theorem decInv_wait {s : DecState} (h : DecInv s) {p : Nat}
    (hcount : s.queue.headBufId < s.queue.tailBufId)
    (hfirst : Ring.IsFirst s.queue.mapped s.queue.headBufId p) (hbusy : s.queue.free p = false) :
    DecInv { s with queue := { s.queue with headBufId := p } } := by
  obtain ⟨hids, hlap, hnear, hgap, hsplit, hready, hdec, hheld, hdistinct⟩ := h
  have hge : s.queue.tailBufId ≤ p := by
    by_contra hlt
    have hf := hready p (Ring.mem_marked.mpr ⟨hfirst.le, by omega, hfirst.here⟩)
    rw [hbusy] at hf
    cases hf
  have hlt := hfirst.lt_add (show 0 < s.queue.maxIdx by omega) s.queue.mapped_add
  have hnil : pending s.queue = [] :=
    Ring.marked_eq_nil fun r hr hrt => hfirst.before r hr (by omega)
  have hnil' : pending { s.queue with headBufId := p } = [] :=
    Ring.marked_eq_nil fun r (hr : p ≤ r) (hrt : r < s.queue.tailBufId) => by omega
  rw [hnil] at hsplit
  refine ⟨hids, ?_, ?_, ?_, ?_, ?_, ?_, hheld, hdistinct⟩
  · show s.queue.tailBufId ≤ p + s.queue.maxIdx
    omega
  · show p ≤ s.queue.tailBufId + s.queue.maxIdx
    omega
  · intro r hr hrp
    exact hfirst.before r (Nat.le_trans (Nat.le_of_lt hcount) hr) hrp
  · show s.committed = s.fetched ++ (pending { s.queue with headBufId := p }).map _
    rw [hnil', hsplit]
  · intro r hr
    dsimp only at hr
    rw [hnil'] at hr
    cases hr
  · intro id hid
    obtain ⟨-, hm, hf, -⟩ := hdec id hid
    have hpt : p = s.queue.tailBufId := by
      by_contra hne
      rw [hfirst.before _ (by omega) (by omega)] at hm
      cases hm
    rw [hpt, hf] at hbusy
    cases hbusy

theorem decInv_putBuf {s : DecState} (h : DecInv s) {id : Nat} (hmem : id ∈ s.held) :
    DecInv { s with queue := (s.queue.putBuf id).2, held := s.held.erase id } := by
  obtain ⟨hids, hlap, hnear, hgap, hsplit, hready, hdec, hheld, hdistinct⟩ := h
  obtain ⟨hbusy, hin⟩ := hheld id hmem
  have hput : (s.queue.putBuf id).2 = s.queue.setFree id true := by
    have hr := hids id hin
    have hrange : (0 : Int) < id ∧ (id : Int) < maxBufferCount := by omega
    rw [DevIdQueue.putBuf, if_pos hrange, Int.toNat_natCast, hbusy]
    rfl
  rw [hput]
  have hused : ∀ i, ((s.queue.setFree id true).bufs i).isUsed = (s.queue.bufs i).isUsed :=
    fun i => DevIdQueue.setFree_isUsed ..
  have hmap : (s.queue.setFree id true).mapped = s.queue.mapped := by
    funext r
    exact hused _
  have hpend : pending (s.queue.setFree id true) = pending s.queue := by
    rw [pending, pending, hmap]
    rfl
  have hfree : ∀ r, s.queue.free r = true → (s.queue.setFree id true).free r = true := by
    intro r hr
    show ((s.queue.setFree id true).bufs _).isFree = true
    rw [DevIdQueue.setFree_isFree]
    split
    · rfl
    · exact hr
  refine ⟨?_, hlap, hnear, ?_, ?_, ?_, ?_, ?_, hdistinct.erase id⟩
  · intro i hi
    exact hids i (by rw [← hused]; exact hi)
  · intro r hr hlt
    show (s.queue.setFree id true).mapped r = false
    rw [hmap]
    exact hgap r hr hlt
  · show s.committed = s.fetched ++ (pending (s.queue.setFree id true)).map _
    rw [hpend]
    exact hsplit
  · intro r hr
    dsimp only at hr
    rw [hpend] at hr
    exact hfree r (hready r hr)
  · intro i hi
    obtain ⟨he, hm, hf, hlt⟩ := hdec i hi
    refine ⟨he, ?_, hfree _ hf, hlt⟩
    show (s.queue.setFree id true).mapped s.queue.tailBufId = true
    rw [hmap]
    exact hm
  · intro i hi
    have hne : i ≠ id := (List.Nodup.mem_erase_iff hdistinct |>.mp hi).1
    have hold := hheld i (List.mem_of_mem_erase hi)
    refine ⟨?_, by rw [hused]; exact hold.2⟩
    rw [DevIdQueue.setFree_isFree, if_neg hne]
    exact hold.1

theorem decInv_step {s s' : DecState} {a : DecAction} (h : DecInv s) (hok : NoGap s a)
    (hs : decStep s a = some s') : DecInv s' := by
  cases a with
  | getId =>
      cases hd : s.decoding with
      | some id => simp [decStep, hd] at hs
      | none =>
          simp only [decStep, hd] at hs
          obtain ⟨⟨ret, q⟩, hq, rfl⟩ := Option.map_eq_some_iff.mp hs
          exact decInv_getId h hok rfl hq
  | decoded frame =>
      cases hd : s.decoding with
      | none => simp [decStep, hd] at hs
      | some id =>
          cases frame with
          | true =>
              simp only [decStep, hd, if_true, Option.some.injEq] at hs
              subst hs
              exact decInv_decoded h hok hd
          | false =>
              simp only [decStep, hd, Bool.false_eq_true, if_false, Option.some.injEq] at hs
              subst hs
              obtain ⟨hids, hlap, hnear, hgap, hsplit, hready, -, hheld, hdistinct⟩ := h
              exact ⟨hids, hlap, hnear, hgap, hsplit, hready, (fun id hid => by cases hid), hheld,
                hdistinct⟩
  | getBuf =>
      obtain ⟨⟨ret, q⟩, hq, rfl⟩ := Option.map_eq_some_iff.mp hs
      unfold DevIdQueue.getBuf at hq
      split at hq
      · cases hq
        exact h
      · next hlt =>
          obtain ⟨p, hp, he⟩ := Option.map_eq_some_iff.mp hq
          have hcount := hok.counters
          have hnear := h.near
          have hfirst := DevIdQueue.skip_isFirst (by unfold DevIdQueue.skipFuel; omega) hp
          cases hf : s.queue.free p with
          | true =>
              rw [if_pos hf] at he
              cases he
              have hne : ((p % s.queue.maxIdx : Nat) : Int) ≠ -1 := by omega
              simp only [if_neg hne, Int.toNat_natCast]
              refine decInv_fetch h hcount hfirst ?_
              rcases hok.getBuf rfl (by omega) p hfirst with hp | hbusy
              · exact hp
              · rw [hf] at hbusy
                cases hbusy
          | false =>
              rw [if_neg (by rw [hf]; decide)] at he
              cases he
              exact decInv_wait h (by omega) hfirst hf
  | putBuf id =>
      simp only [decStep] at hs
      split at hs
      · next hmem =>
          cases hs
          exact decInv_putBuf h hmem
      · cases hs

/-! ## Whole runs -/

/-- The display gets the decoded frames in a run whose cursors meet no gap. -/
theorem handsOutFrames_of_noGap {s : DecState} (h : decMachine.Run NoGap s) :
    HandsOutFrames s := by
  have hinv : DecInv s := by
    refine Machine.Run.invariant ?_ ?_ h
    · rintro s ⟨ids, rfl⟩
      exact decInv_start ids
    · exact fun s a t hs hok hstep => decInv_step hs hok hstep
  exact hinv.handsOut

/-- A committed position is not fetched yet, and a mapped one is less than a lap ahead. -/
def CursorsNear (s : DecState) (a : DecAction) : Prop :=
  (match a with
    | .getBuf => s.queue.headBufId < s.queue.tailBufId → pending s.queue ≠ []
    | .getId => Ring.marked s.queue.mapped s.queue.tailBufId
        (s.queue.headBufId + s.queue.maxIdx) ≠ []
    | _ => True) ∧
  s.queue.tailBufId + 3 * s.queue.maxIdx + 1 < 2 ^ 64

instance (s : DecState) : (a : DecAction) → Decidable (CursorsNear s a)
  | .getBuf | .getId | .decoded _ | .putBuf _ => inferInstanceAs (Decidable (_ ∧ _))

theorem noGap_of_cursorsNear (s : DecState) (a : DecAction) (h : CursorsNear s a) : NoGap s a where
  getBuf := by
    rintro rfl hlt p hp
    obtain ⟨r, hr⟩ := List.exists_mem_of_ne_nil _ (h.1 hlt)
    obtain ⟨hle, hrt, hm⟩ := Ring.mem_marked.mp hr
    refine .inl (Nat.lt_of_not_le fun hge => ?_)
    rw [hp.before r hle (by omega)] at hm
    cases hm
  getId := by
    rintro rfl - p hp
    obtain ⟨r, hr⟩ := List.exists_mem_of_ne_nil _ h.1
    obtain ⟨hle, hrt, hm⟩ := Ring.mem_marked.mp hr
    refine Nat.lt_of_not_le fun hge => ?_
    rw [hp.before r hle (by omega)] at hm
    cases hm
  counters := h.2

/-- Four frames, the last of them in the buffer of the first, and a packet without a frame in
between. -/
def fourFrames : List DecAction :=
  [.getId, .decoded true, .getId, .decoded true, .getBuf, .getId, .decoded false, .getBuf, .getBuf,
    .getId, .decoded true, .putBuf 1, .getBuf, .getId, .decoded true, .getBuf, .putBuf 2, .getId,
    .getBuf]

theorem handsOutFrames_fourFrames : ∃ s, decMachine.Run NoGap s ∧
    s.committed = [1, 2, 3, 1] ∧ s.fetched = [1, 2, 3, 1] ∧ s.held = [3, 1] ∧
    s.decoding = some 2 ∧ HandsOutFrames s := by
  obtain ⟨s, hs, hview⟩ := Option.map_eq_some_iff.mp (by decide +kernel :
    ((decMachine.guarded CursorsNear).exec (.start [1, 2, 3, 4]) fourFrames).map (fun s =>
      (s.committed, s.fetched, s.held, s.decoding)) =
      some ([1, 2, 3, 1], [1, 2, 3, 1], [3, 1], some 2))
  simp only [Prod.mk.injEq] at hview
  have hrun := (Machine.run_of_exec hs ⟨_, rfl⟩).mono noGap_of_cursorsNear
  exact ⟨s, hrun, hview.1, hview.2.1, hview.2.2.1, hview.2.2.2, handsOutFrames_of_noGap hrun⟩

/-- A packet without a frame leaves its id to the display. -/
theorem phantom_frame : ∃ s, decMachine.Reachable s ∧ ¬HandsOutFrames s := by
  have he : (decMachine.exec (.start [1, 2, 3, 4]) [.getId, .decoded false, .getBuf]).map
      (fun s => (s.fetched, s.committed)) = some ([1], []) := by
    decide
  obtain ⟨s, hs, hout⟩ := Option.map_eq_some_iff.mp he
  simp only [Prod.mk.injEq] at hout
  refine ⟨s, Machine.Reachable.exec (.start ⟨_, rfl⟩) hs, fun h => ?_⟩
  have hpre := h.1
  rw [hout.1, hout.2] at hpre
  exact absurd hpre.length_le (by decide)

end Hprd.Codec

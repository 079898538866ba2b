import Hprd.Common.DevIdQueue
import Hprd.Core.Machine

/-!
# Which mapped ids come out of `dev_id_queue`

`max_idx` is the largest id that was mapped, and it is the modulus of both counters:
slots 0 to `max_idx - 1` are visited. The largest id is never among them, and id 0
is not mapped at all.
-/

namespace Hprd.Common

open Hprd.Core

namespace DevIdQueue

inductive IdAction where
  | getId
  | subId
  | getBuf
  | putBuf (id : Int)

def idStep (q : DevIdQueue) : IdAction → Option DevIdQueue
  | .getId => q.getId.map Prod.snd
  | .subId => some q.subId
  | .getBuf => q.getBuf.map Prod.snd
  | .putBuf id => some (q.putBuf id).2

/-- The operations on a fresh queue with the ids of a list mapped. -/
def idMachine (ids : List Int) : Machine DevIdQueue IdAction where
  init q := q = mapAll ids
  step := idStep

/-- `n` pairs of `dev_id_queue_get_id` and `dev_id_queue_sub_id`, with the results of the first. -/
def takeIds : Nat → DevIdQueue → Option (List Int × DevIdQueue)
  | 0, q => some ([], q)
  | n + 1, q => q.getId.bind fun (id, q) =>
      (takeIds n q.subId).map fun (ids, q) => (id :: ids, q)

/-- Nothing is pending and no buffer is held. -/
def AtRest (q : DevIdQueue) : Prop :=
  q.headBufId = q.tailBufId ∧ ∀ i, (q.bufs i).isUsed = true → (q.bufs i).isFree = true

def Terminates (ids : List Int) : Prop :=
  ∀ q, (idMachine ids).Reachable q → q.getId.isSome ∧ q.getBuf.isSome

/-- As many pairs as there are mapped ids return each of them once. -/
def Delivers (ids : List Int) : Prop :=
  ∀ q, (idMachine ids).Reachable q → q.AtRest → ∃ out q',
    takeIds ids.dedup.length q = some (out, q') ∧ out.Nodup ∧ ∀ id, id ∈ out ↔ id ∈ ids

def Accepts (ids : List Int) : Prop :=
  ∀ q id q', (idMachine ids).Reachable q → q.getBuf = some (id, q') → id ≠ -1 →
    (q'.putBuf id).1 = 0

structure Usable (ids : List Int) : Prop where
  terminates : Terminates ids
  delivers : Delivers ids
  accepts : Accepts ids

/-! ## Mapping -/

/-- What `dev_id_queue_set_status` leaves after the ids of a list. -/
structure MapSpec (ids : List Int) (q : DevIdQueue) : Prop where
  used : ∀ i, (q.bufs i).isUsed = true ↔ 0 < i ∧ (i : Int) ∈ ids
  free : ∀ i, (q.bufs i).isFree = (q.bufs i).isUsed
  upper : ∀ id ∈ ids, id ≤ q.maxIdx
  attained : q.maxIdx = 0 ∨ (q.maxIdx : Int) ∈ ids
  counters : q.headBufId = 0 ∧ q.tailBufId = 0

def InRange (ids : List Int) : Prop := ∀ id ∈ ids, 0 ≤ id ∧ id < maxBufferCount

instance (ids : List Int) : Decidable (InRange ids) :=
  inferInstanceAs (Decidable (∀ id ∈ ids, 0 ≤ id ∧ id < maxBufferCount))

theorem MapSpec.add {ids : List Int} {q : DevIdQueue} (h : MapSpec ids q) {id : Int}
    (h0 : 0 < id) (hid : id < maxBufferCount) :
    MapSpec (ids ++ [id]) (q.setStatus id true).2 := by
  have hmax : maxBufferCount = 64 := rfl
  have hset : (q.setStatus id true).2 = { q with
      bufs := Function.update q.bufs id.toNat ⟨true, true⟩,
      maxIdx := if (q.maxIdx : Int) < id then id.toNat % 2 ^ 16 else q.maxIdx } := by
    rw [setStatus, if_pos ⟨h0, hid⟩]
  rw [hset]
  constructor
  case used =>
    intro i
    show (Function.update q.bufs id.toNat ⟨true, true⟩ i).isUsed = true ↔ _
    rw [Function.update_apply, List.mem_append, List.mem_singleton]
    split
    next hi => exact iff_of_true rfl (by omega)
    next hi =>
      rw [h.used]
      have hne : (i : Int) ≠ id := by omega
      simp only [hne, or_false]
  case free =>
    intro i
    show (Function.update q.bufs id.toNat ⟨true, true⟩ i).isFree =
      (Function.update q.bufs id.toNat ⟨true, true⟩ i).isUsed
    rw [Function.update_apply]
    split
    next => rfl
    next => exact h.free i
  case upper =>
    intro x hx
    show x ≤ ((if (q.maxIdx : Int) < id then id.toNat % 2 ^ 16 else q.maxIdx : Nat) : Int)
    have hold := h.upper x
    rcases List.mem_append.mp hx with hx | hx
    · have := hold hx
      split <;> omega
    · have := List.mem_singleton.mp hx
      split <;> omega
  case attained =>
    refine .inr ?_
    show ((if (q.maxIdx : Int) < id then id.toNat % 2 ^ 16 else q.maxIdx : Nat) : Int) ∈ _
    rw [List.mem_append, List.mem_singleton]
    split
    next => exact .inr (by omega)
    next hle =>
      rcases h.attained with hzero | hmem
      · omega
      · exact .inl hmem
  case counters => exact h.counters

theorem mapAll_mapSpec {ids : List Int} (h : InRange ids) : MapSpec ids (mapAll ids) := by
  induction ids using List.reverseRecOn with
  | nil =>
      refine ⟨?_, fun _ => rfl, fun id hid => ?_, .inl rfl, rfl, rfl⟩
      · intro i
        refine iff_of_false Bool.false_ne_true ?_
        rintro ⟨-, hi⟩
        cases hi
      · cases hid
  | append_singleton ids id ih =>
      have hspec := ih fun x hx => h x (List.mem_append_left _ hx)
      obtain ⟨hle, hid⟩ := h id (List.mem_append_right _ (List.mem_singleton_self _))
      have hstep : mapAll (ids ++ [id]) = ((mapAll ids).setStatus id true).2 :=
        List.foldl_append ..
      rw [hstep]
      rcases Int.lt_or_eq_of_le hle with h0 | rfl
      · exact hspec.add h0 hid
      · -- id 0 is refused
        have hsame : ((mapAll ids).setStatus 0 true).2 = mapAll ids := rfl
        rw [hsame]
        obtain ⟨hused, hfree, hupper, hatt, hcount⟩ := hspec
        refine ⟨?_, hfree, ?_, ?_, hcount⟩
        · intro i
          rw [hused, List.mem_append, List.mem_singleton]
          refine and_congr_right fun hi => (or_iff_left ?_).symm
          omega
        · intro x hx
          rcases List.mem_append.mp hx with hx | hx
          · exact hupper x hx
          · rw [List.mem_singleton.mp hx]
            exact Int.natCast_nonneg _
        · rcases hatt with hzero | hmem
          · exact .inl hzero
          · exact .inr (List.mem_append_left _ hmem)

/-! ## Operations -/

/-- What the operations keep of the mapping. -/
structure KeepsMap (ids : List Int) (q : DevIdQueue) : Prop where
  used : ∀ i, (q.bufs i).isUsed = true ↔ 0 < i ∧ (i : Int) ∈ ids
  maxIdx : q.maxIdx = (mapAll ids).maxIdx
  head : q.headBufId < 2 ^ 64
  tail : q.tailBufId < 2 ^ 64

theorem inc_lt (n : Nat) : inc n < 2 ^ 64 := Nat.mod_lt _ (by decide)

theorem getId_cases {q q' : DevIdQueue} {id : Int} (htail : q.tailBufId < 2 ^ 64)
    (h : q.getId = some (id, q')) :
    id = -1 ∧ q' = q ∨ ∃ tail, q.skip q.skipFuel q.tailBufId = some tail ∧ tail < 2 ^ 64 ∧
      q' = { q with tailBufId := tail } ∧ (id = -1 ∨ id = (tail % q.maxIdx : Nat)) := by
  unfold getId at h
  split at h
  next =>
    cases h
    exact .inl ⟨rfl, rfl⟩
  next =>
    obtain ⟨tail, hskip, he⟩ := Option.map_eq_some_iff.mp h
    cases he
    refine .inr ⟨tail, hskip, (mapped_of_skip htail hskip).2, rfl, ?_⟩
    split
    next => exact .inr rfl
    next => exact .inl rfl

theorem getBuf_cases {q q' : DevIdQueue} {id : Int} (hhead : q.headBufId < 2 ^ 64)
    (h : q.getBuf = some (id, q')) :
    id = -1 ∧ q' = q ∨ ∃ head, q.mapped head = true ∧ head < 2 ^ 64 ∧
      (id = -1 ∧ q' = { q with headBufId := head } ∨
        id = (head % q.maxIdx : Nat) ∧
          q' = { q.setFree (head % q.maxIdx) false with headBufId := inc head }) := by
  unfold getBuf at h
  split at h
  next =>
    cases h
    exact .inl ⟨rfl, rfl⟩
  next =>
    obtain ⟨head, hskip, he⟩ := Option.map_eq_some_iff.mp h
    obtain ⟨hm, hlt⟩ := mapped_of_skip hhead hskip
    refine .inr ⟨head, hm, hlt, ?_⟩
    split at he
    next =>
      cases he
      exact .inr ⟨rfl, rfl⟩
    next =>
      cases he
      exact .inl ⟨rfl, rfl⟩

theorem KeepsMap.setFree {ids : List Int} {q : DevIdQueue} (h : KeepsMap ids q) (id : Nat)
    (isFree : Bool) : KeepsMap ids (q.setFree id isFree) := by
  refine ⟨?_, h.maxIdx, h.head, h.tail⟩
  intro i
  rw [setFree_isUsed]
  exact h.used i

theorem keepsMap_step {ids : List Int} {q q' : DevIdQueue} {a : IdAction} (h : KeepsMap ids q)
    (hstep : idStep q a = some q') : KeepsMap ids q' := by
  cases a with
  | getId =>
      obtain ⟨⟨id, q''⟩, hget, rfl⟩ := Option.map_eq_some_iff.mp hstep
      rcases getId_cases h.tail hget with ⟨-, rfl⟩ | ⟨tail, -, hlt, rfl, -⟩
      · exact h
      · exact ⟨h.used, h.maxIdx, h.head, hlt⟩
  | subId =>
      cases hstep
      exact ⟨h.used, h.maxIdx, h.head, inc_lt _⟩
  | getBuf =>
      obtain ⟨⟨id, q''⟩, hget, rfl⟩ := Option.map_eq_some_iff.mp hstep
      rcases getBuf_cases h.head hget with ⟨-, rfl⟩ | ⟨head, -, hlt, ⟨-, rfl⟩ | ⟨-, rfl⟩⟩
      · exact h
      · exact ⟨h.used, h.maxIdx, hlt, h.tail⟩
      · have hset := h.setFree (head % q.maxIdx) false
        exact ⟨hset.used, h.maxIdx, inc_lt _, h.tail⟩
  | putBuf id =>
      cases hstep
      unfold putBuf
      split
      next =>
        split
        next => exact h
        next => exact h.setFree _ _
      next => exact h

theorem keepsMap_reachable {ids : List Int} (hr : InRange ids) {q : DevIdQueue}
    (h : (idMachine ids).Reachable q) : KeepsMap ids q := by
  induction h with
  | start hs =>
      cases hs
      have hspec := mapAll_mapSpec hr
      refine ⟨hspec.used, rfl, ?_, ?_⟩
      · rw [hspec.counters.1]
        decide
      · rw [hspec.counters.2]
        decide
  | next _ _ hstep ih => exact keepsMap_step ih hstep

/-! ## What holds -/

theorem exists_unvisited {ids : List Int} (hne : ids ≠ []) (hr : InRange ids) :
    ∃ id ∈ ids, ((mapAll ids).maxIdx : Int) ≤ id := by
  rcases (mapAll_mapSpec hr).attained with hzero | hmem
  · obtain ⟨id, hid⟩ := List.exists_mem_of_ne_nil _ hne
    refine ⟨id, hid, ?_⟩
    rw [hzero]
    exact (hr id hid).1
  · exact ⟨_, hmem, Int.le_refl _⟩

theorem takeIds_lt {n : Nat} {q q' : DevIdQueue} {out : List Int} (htail : q.tailBufId < 2 ^ 64)
    (h : takeIds n q = some (out, q')) : ∀ id ∈ out, id < q.maxIdx := by
  induction n generalizing q out with
  | zero =>
      cases h
      intro id hid
      cases hid
  | succ n ih =>
      obtain ⟨⟨id, q₁⟩, hget, hrest⟩ := Option.bind_eq_some_iff.mp h
      obtain ⟨⟨rest, q₂⟩, htake, he⟩ := Option.map_eq_some_iff.mp hrest
      cases he
      have hsub : q₁.subId.tailBufId < 2 ^ 64 := inc_lt _
      have hlater := ih hsub htake
      have hfirst : id < q.maxIdx ∧ q₁.maxIdx = q.maxIdx := by
        rcases getId_cases htail hget with ⟨rfl, rfl⟩ | ⟨tail, hskip, -, rfl, hid⟩
        · exact ⟨by omega, rfl⟩
        · refine ⟨?_, rfl⟩
          rcases hid with rfl | rfl
          · omega
          · have hpos : 0 < q.maxIdx := by
              rcases Nat.eq_zero_or_pos q.maxIdx with hzero | hpos
              · rw [skipFuel, hzero] at hskip
                cases hskip
              · exact hpos
            exact Int.ofNat_lt.mpr (Nat.mod_lt _ hpos)
      intro x hx
      rcases List.mem_cons.mp hx with rfl | hx
      · exact hfirst.1
      · have hlt := hlater x hx
        have hmax : q₁.subId.maxIdx = q.maxIdx := hfirst.2
        rwa [hmax] at hlt

theorem not_delivers {ids : List Int} (hne : ids ≠ []) (hr : InRange ids) : ¬Delivers ids := by
  intro h
  have hspec := mapAll_mapSpec hr
  obtain ⟨out, q', htake, -, hall⟩ := h _ (.start rfl)
    ⟨hspec.counters.1.trans hspec.counters.2.symm, fun i hi => (hspec.free i).trans hi⟩
  obtain ⟨id, hid, hlarge⟩ := exists_unvisited hne hr
  have htail : (mapAll ids).tailBufId < 2 ^ 64 := by
    rw [hspec.counters.2]
    decide
  exact absurd (takeIds_lt htail htake id ((hall id).mpr hid)) (Int.not_lt.mpr hlarge)

theorem accepts {ids : List Int} (hr : InRange ids) : Accepts ids := by
  intro q id q' hq hget hne
  have hkeep := keepsMap_reachable hr hq
  rcases getBuf_cases hkeep.head hget with ⟨rfl, -⟩ | ⟨head, hm, -, ⟨rfl, -⟩ | ⟨rfl, rfl⟩⟩
  · exact absurd rfl hne
  · exact absurd rfl hne
  · obtain ⟨hpos, hmem⟩ := (hkeep.used _).mp hm
    have hrange : (0 : Int) < (head % q.maxIdx : Nat) ∧
        ((head % q.maxIdx : Nat) : Int) < maxBufferCount := ⟨by omega, (hr _ hmem).2⟩
    have hbusy : ((q.setFree (head % q.maxIdx) false).bufs (head % q.maxIdx)).isFree = false := by
      rw [setFree_isFree, if_pos rfl]
    rw [putBuf, if_pos hrange, Int.toNat_natCast, hbusy]
    rfl

/-- Some slot that is visited is mapped. -/
def Visits (ids : List Int) : Prop := ∃ id ∈ ids, 0 < id ∧ ∃ larger ∈ ids, id < larger

theorem visits_iff {ids : List Int} (hr : InRange ids) :
    Visits ids ↔ ∃ j, j < (mapAll ids).maxIdx ∧ ((mapAll ids).bufs j).isUsed = true := by
  have hspec := mapAll_mapSpec hr
  constructor
  · rintro ⟨id, hid, h0, larger, hlarger, hlt⟩
    have hle := hspec.upper larger hlarger
    refine ⟨id.toNat, by omega, (hspec.used _).mpr ⟨by omega, ?_⟩⟩
    rwa [Int.toNat_of_nonneg (Int.le_of_lt h0)]
  · rintro ⟨j, hj, hused⟩
    obtain ⟨hpos, hmem⟩ := (hspec.used j).mp hused
    rcases hspec.attained with hzero | hmax
    · omega
    · exact ⟨j, hmem, by omega, _, hmax, by omega⟩

theorem maxIdx_lt {ids : List Int} (hr : InRange ids) : (mapAll ids).maxIdx < 2 ^ 64 := by
  have hmax : maxBufferCount = 64 := rfl
  rcases (mapAll_mapSpec hr).attained with hzero | hmem
  · omega
  · have := (hr _ hmem).2
    omega

/-- The search ends in every state where a slot that is visited is mapped. -/
theorem skip_isSome {ids : List Int} (hr : InRange ids) (hv : Visits ids) {q : DevIdQueue}
    (h : KeepsMap ids q) {pos : Nat} (hpos : pos < 2 ^ 64) : (q.skip q.skipFuel pos).isSome := by
  by_contra hnone
  obtain ⟨j, hj, hused⟩ := (visits_iff hr).mp hv
  have hsmall := maxIdx_lt hr
  rw [← h.maxIdx] at hj hsmall
  have hunused := unmapped_of_skip hpos (Nat.zero_lt_of_lt hj) hsmall
    (Option.not_isSome_iff_eq_none.mp hnone) hj
  rw [(h.used j).mpr (((mapAll_mapSpec hr).used j).mp hused)] at hunused
  cases hunused

/-- Where no slot that is visited is mapped the display's first search has no end. -/
theorem not_terminates {ids : List Int} (hr : InRange ids) (hv : ¬Visits ids) :
    ¬Terminates ids := by
  intro h
  have hspec := mapAll_mapSpec hr
  have hsub : (idMachine ids).Reachable (mapAll ids).subId :=
    .next (a := .subId) (.start rfl) trivial rfl
  have hend := (h _ hsub).2
  have hahead : ¬(mapAll ids).subId.tailBufId ≤ (mapAll ids).subId.headBufId := by
    have htail : (mapAll ids).subId.tailBufId = 1 := by
      show inc (mapAll ids).tailBufId = 1
      rw [hspec.counters.2]
      rfl
    have hhead : (mapAll ids).subId.headBufId = 0 := hspec.counters.1
    omega
  have hskip : (mapAll ids).subId.skip (mapAll ids).subId.skipFuel (mapAll ids).subId.headBufId =
      none := by
    have hhead : (mapAll ids).subId.headBufId < 2 ^ 64 := by
      show (mapAll ids).headBufId < 2 ^ 64
      rw [hspec.counters.1]
      decide
    rw [skip_eq_none hhead]
    intro i hi
    have hpos : 0 < (mapAll ids).maxIdx := by
      have : i < 2 * (mapAll ids).maxIdx := hi
      omega
    by_contra hm
    exact hv ((visits_iff hr).mpr
      ⟨_, Nat.mod_lt _ hpos, Bool.eq_true_of_not_eq_false hm⟩)
  rw [getBuf, if_neg hahead, hskip] at hend
  cases hend

theorem terminates_iff {ids : List Int} (hr : InRange ids) : Terminates ids ↔ Visits ids := by
  constructor
  · intro h
    by_contra hv
    exact not_terminates hr hv h
  · intro hv q hq
    have hkeep := keepsMap_reachable hr hq
    constructor
    · unfold getId
      split
      next => rfl
      next =>
        rw [Option.isSome_map]
        exact skip_isSome hr hv hkeep hkeep.tail
    · unfold getBuf
      split
      next => rfl
      next =>
        rw [Option.isSome_map]
        exact skip_isSome hr hv hkeep hkeep.head

end DevIdQueue

/-- No set of mapped ids is usable: its largest id is never handed out. The searches end exactly
where two of the ids other than 0 differ; what `get_buf` returned is always taken back. -/
theorem devIdQueue_unusable (ids : List Int) (hne : ids ≠ [])
    (hr : ∀ id ∈ ids, 0 ≤ id ∧ id < maxBufferCount) :
    ¬DevIdQueue.Usable ids ∧ (DevIdQueue.Terminates ids ↔ DevIdQueue.Visits ids) ∧
      DevIdQueue.Accepts ids :=
  ⟨fun h => DevIdQueue.not_delivers hne hr h.delivers, DevIdQueue.terminates_iff hr,
    DevIdQueue.accepts hr⟩

/-- The ids that `client_main` maps. -/
theorem devIdQueue_unusable_five :
    ¬DevIdQueue.Usable [0, 1, 2, 3, 4] ∧
      (DevIdQueue.Terminates [0, 1, 2, 3, 4] ↔ DevIdQueue.Visits [0, 1, 2, 3, 4]) ∧
      DevIdQueue.Accepts [0, 1, 2, 3, 4] :=
  devIdQueue_unusable [0, 1, 2, 3, 4] (by decide) (by decide)

/-- Of these the decoder gets 1, 2 and 3; with 1 alone it searches for ever. -/
theorem five_not_delivered :
    (DevIdQueue.takeIds 5 (DevIdQueue.mapAll [0, 1, 2, 3, 4])).map Prod.fst =
        some [1, 2, 3, -1, -1] ∧
      ¬DevIdQueue.Delivers [0, 1, 2, 3, 4] ∧
      (∀ fuel, (DevIdQueue.mapAll [1]).skip fuel 0 = none) ∧ ¬DevIdQueue.Terminates [1] := by
  refine ⟨by decide, DevIdQueue.not_delivers (by decide) (by decide), ?_, ?_⟩
  · exact DevIdQueue.skip_diverges (by decide) (by decide) (by decide) (by decide)
  · refine DevIdQueue.not_terminates (by decide) ?_
    rintro ⟨id, hid, -, larger, hlarger, hlt⟩
    cases List.mem_singleton.mp hid
    cases List.mem_singleton.mp hlarger
    exact absurd hlt (by decide)

end Hprd.Common

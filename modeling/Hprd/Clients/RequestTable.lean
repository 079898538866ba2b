import Mathlib.Logic.Function.Basic
import Hprd.Core.Machine

/-!
# Pending requests of `clients/pyqt/pyqt_proxy.c`

The table is a singly linked list in the heap, newest request first. A call that
reads a freed node, or that walks for ever, has no value. `get_del_request` unlinks
through a trailing pointer that starts at the head itself, so it unlinks every
node but the first.
-/

namespace Hprd.Clients

open Hprd.Core

/-- `request` stands for `py_self` and `callback`. -/
structure RequestObj where
  id : UInt32
  request : Nat
  next : Option Nat

abbrev Heap := Nat → Option RequestObj

def addRequest (heap : Heap) (head : Option Nat) (node : Nat) : Option (Heap × Option Nat) :=
  match head with
  | none => some (heap, some node)
  | some _ => (heap node).map fun n =>
      (Function.update heap node (some { n with next := head }), some node)

/-- The loop of `get_del_request`: where it stops, with `last` behind it. -/
def findRequest (heap : Heap) (id : UInt32) : Nat → Nat → Option Nat → Option (Option (Nat × Nat))
  | _, _, none => some none
  | 0, _, some _ => none
  | fuel + 1, last, some ret =>
      match heap ret with
      | none => none
      | some n => if n.id = id then some (some (last, ret)) else findRequest heap id fuel ret n.next

def unlink (heap : Heap) (last ret : Nat) : Heap :=
  match heap last, heap ret with
  | some l, some r => Function.update heap last (some { l with next := r.next })
  | _, _ => heap

/-- `get_del_request`; `fuel` is at least the number of nodes. -/
def getDelRequest (heap : Heap) (head : Option Nat) (fuel : Nat) (id : UInt32) :
    Option (Option Nat × Heap) :=
  match head with
  | none => some (none, heap)
  | some h => (findRequest heap id fuel h (some h)).map fun
      | none => (none, heap)
      | some (last, ret) => (some ret, unlink heap last ret)

/-- `free`, which takes a null pointer and no pointer twice. -/
def freeRequest (heap : Heap) : Option Nat → Option Heap
  | none => some heap
  | some p => (heap p).map fun _ => Function.update heap p none

/-! ## The client -/

structure Callback where
  request : Nat
  ret : UInt32
  value : UInt32

/-- `nextId` is the `static uint32_t id`; `sending` is set between the `add_request` and the end
of `_send_request_data`. The pending requests of `table`, newest first, are bookkeeping. -/
structure RequestState where
  heap : Heap
  head : Option Nat
  nextId : UInt32
  sending : Bool
  requests : Nat
  called : List Callback
  table : List (UInt32 × Nat)

/-- `_send_request_data` up to `add_request` with a node from `calloc`, its `send_request_event`
with what follows, and `_on_response` with the fields in host order. -/
inductive RequestAction where
  | request (node : Nat)
  | sent (ok : Bool)
  | response (id : UInt32) (ret : UInt8) (value : UInt32)

def retSuccess : UInt8 := 1

def retFail : UInt8 := 2

/-- The `switch` of `_on_response`. -/
def respond (n : RequestObj) (ret : UInt8) (value : UInt32) : List Callback :=
  if ret = retSuccess then [⟨n.request, 1, value⟩]
  else if ret = retFail then [⟨n.request, 0, value⟩]
  else []

/-- The entries that a `get_del_request` leaves. -/
def remaining (table : List (UInt32 × Nat)) (id : UInt32) : List (UInt32 × Nat) :=
  table.filter fun e => e.1 ≠ id

def requestStep (s : RequestState) : RequestAction → Option RequestState
  | .request node =>
      if s.sending = false ∧ s.heap node = none then
        (addRequest (Function.update s.heap node (some ⟨s.nextId, s.requests, none⟩)) s.head
          node).map fun (heap, head) =>
            { s with
              heap := heap, head := head, sending := true, requests := s.requests + 1,
              table := (s.nextId, s.requests) :: s.table }
      else none
  | .sent ok =>
      if s.sending then
        if ok then some { s with nextId := s.nextId + 1, sending := false }
        else do
          let (req, heap) ← getDelRequest s.heap s.head s.requests s.nextId
          let heap ← freeRequest heap req
          return { s with heap := heap, sending := false, table := remaining s.table s.nextId }
      else none
  | .response id ret value => do
      let (req, heap) ← getDelRequest s.heap s.head s.requests id
      match req with
      | none => return { s with heap := heap, table := remaining s.table id }
      | some p =>
          let n ← heap p
          let heap ← freeRequest heap req
          return { s with
            heap := heap, called := s.called ++ respond n ret value,
            table := remaining s.table id }

def RequestState.start : RequestState := ⟨fun _ => none, none, 0, false, 0, [], []⟩

def requestMachine : Machine RequestState RequestAction where
  init s := s = .start
  step := requestStep

/-! ## The list in the heap -/

/-- A node of the list: where it is, its id and its request. -/
structure Entry where
  node : Nat
  id : UInt32
  request : Nat

/-- From `head` the list leads through these nodes, all of them allocated. -/
def Linked (heap : Heap) : Option Nat → List Entry → Prop
  | head, [] => head = none
  | head, e :: es => head = some e.node ∧ ∃ next, heap e.node = some ⟨e.id, e.request, next⟩ ∧
      Linked heap next es

def HeadIs (s : RequestState) (id : UInt32) : Prop :=
  ∃ p n, s.head = some p ∧ s.heap p = some n ∧ n.id = id

/-- One `get_del_request` returns the pending node with the id, or NULL, and leaves the others in
the list in their order. -/
def GetsRequest (s : RequestState) (id : UInt32) : Prop :=
  ∃ es, Linked s.heap s.head es ∧ ∃ heap,
    getDelRequest s.heap s.head s.requests id =
      some ((es.find? fun e => e.id = id).map Entry.node, heap) ∧
    Linked heap s.head (es.filter fun e => e.id ≠ id)

/-- The nodes in the list are the pending requests, and no request was called back twice. -/
structure Delivers (s : RequestState) : Prop where
  linked : ∃ es, Linked s.heap s.head es ∧ es.map (fun e => (e.id, e.request)) = s.table
  once : (s.called.map Callback.request).Nodup

/-- New ids are not pending, and `get_del_request` is not asked for the id at the head. -/
structure NotHead (s : RequestState) (a : RequestAction) : Prop where
  fresh : ∀ node, a = .request node → ∀ e ∈ s.table, e.1 ≠ s.nextId
  sent : a = .sent false → ¬HeadIs s s.nextId
  response : ∀ id ret value, a = .response id ret value → ¬HeadIs s id

section

variable {heap heap' : Heap} {head : Option Nat} {es es' : List Entry}

theorem Linked.unique (h : Linked heap head es) (h' : Linked heap head es') : es = es' := by
  induction es generalizing head es' with
  | nil =>
      cases es' with
      | nil => rfl
      | cons e' es' =>
          have hnone : head = none := h
          rw [hnone] at h'
          cases h'.1
  | cons e es ih =>
      obtain ⟨rfl, next, hn, htail⟩ := h
      cases es' with
      | nil => cases h'
      | cons e' es' =>
          obtain ⟨he, next', hn', htail'⟩ := h'
          cases he' : e'
          cases he'' : e
          subst he' he''
          simp only [Option.some.injEq] at he
          subst he
          rw [hn, Option.some.injEq, RequestObj.mk.injEq] at hn'
          obtain ⟨rfl, rfl, rfl⟩ := hn'
          rw [ih htail htail']

theorem Linked.frame (h : Linked heap head es)
    (heq : ∀ e ∈ es, heap' e.node = heap e.node) : Linked heap' head es := by
  induction es generalizing head with
  | nil => exact h
  | cons e es ih =>
      obtain ⟨hhead, next, hn, htail⟩ := h
      refine ⟨hhead, next, ?_, ih htail fun e' he' => heq e' (List.mem_cons_of_mem _ he')⟩
      rw [heq e (List.mem_cons_self ..)]
      exact hn

theorem Linked.allocated (h : Linked heap head es) {e : Entry} (he : e ∈ es) :
    ∃ next, heap e.node = some ⟨e.id, e.request, next⟩ := by
  induction es generalizing head with
  | nil => cases he
  | cons e' es ih =>
      obtain ⟨-, next, hn, htail⟩ := h
      rcases List.mem_cons.mp he with rfl | he
      · exact ⟨next, hn⟩
      · exact ih htail he

theorem unlink_of_ne {last ret p : Nat} (h : p ≠ last) : unlink heap last ret p = heap p := by
  cases hl : heap last with
  | none => simp only [unlink, hl]
  | some l =>
      cases hr : heap ret with
      | none => simp only [unlink, hl, hr]
      | some r =>
          simp only [unlink, hl, hr]
          exact Function.update_of_ne h ..

theorem unlink_last {last ret : Nat} {l r : RequestObj} (hl : heap last = some l)
    (hr : heap ret = some r) : unlink heap last ret last = some { l with next := r.next } := by
  rw [unlink, hl, hr]
  exact Function.update_self ..

/-- The ids of a list without the id at its front, when no id comes twice. -/
theorem filter_rest {e : Entry} {id : UInt32} (hid : e.id = id)
    (h : ((e :: es).map Entry.id).Nodup) : es.filter (fun e => e.id ≠ id) = es := by
  rw [List.filter_eq_self]
  intro e' he'
  rw [List.map_cons, List.nodup_cons] at h
  have hne : e'.id ≠ id := by
    intro he
    exact h.1 (List.mem_map.mpr ⟨e', he', he.trans hid.symm⟩)
  simpa using hne

/-- The loop behind a node that does not match. -/
theorem findRequest_spec {id : UInt32} {fuel a : Nat} {ia : UInt32} {ra : Nat}
    {next : Option Nat} (ha : heap a = some ⟨ia, ra, next⟩) (h : Linked heap next es)
    (hfuel : es.length ≤ fuel) (hnodes : (a :: es.map Entry.node).Nodup)
    (hids : (es.map Entry.id).Nodup) :
    (es.find? (fun e => e.id = id) = none ∧ findRequest heap id fuel a next = some none) ∨
    ∃ e last, es.find? (fun e => e.id = id) = some e ∧
      findRequest heap id fuel a next = some (some (last, e.node)) ∧
      (last = a ∨ ∃ e' ∈ es, e'.node = last) ∧ last ≠ e.node ∧
      ∃ next', unlink heap last e.node a = some ⟨ia, ra, next'⟩ ∧
        Linked (unlink heap last e.node) next' (es.filter fun e => e.id ≠ id) := by
  induction es generalizing fuel a ia ra next with
  | nil =>
      have hnone : next = none := h
      subst hnone
      exact Or.inl ⟨rfl, by cases fuel <;> rfl⟩
  | cons e es ih =>
      obtain ⟨rfl, n, hn, htail⟩ := h
      rw [List.length_cons] at hfuel
      obtain ⟨fuel, rfl⟩ : ∃ f, fuel = f + 1 := ⟨fuel - 1, by omega⟩
      rw [List.map_cons] at hnodes
      obtain ⟨haout, hnodes'⟩ := List.nodup_cons.mp hnodes
      have hae : a ≠ e.node := fun he => haout (by rw [he]; exact List.mem_cons_self ..)
      by_cases hid : e.id = id
      · refine Or.inr ⟨e, a, by simp [hid], ?_, Or.inl rfl, hae, n, unlink_last ha hn, ?_⟩
        · rw [findRequest, hn]
          simp [hid]
        · have hfilter : (e :: es).filter (fun e => e.id ≠ id) = es := by
            rw [List.filter_cons_of_neg (by simpa using hid)]
            exact filter_rest hid hids
          rw [hfilter]
          refine htail.frame fun e' he' => unlink_of_ne ?_
          rintro rfl
          exact haout (List.mem_cons_of_mem _ (List.mem_map_of_mem he'))
      · have hstep : findRequest heap id (fuel + 1) a (some e.node) =
            findRequest heap id fuel e.node n := by
          rw [findRequest, hn]
          simp [hid]
        have hfind : (e :: es).find? (fun e => e.id = id) = es.find? (fun e => e.id = id) :=
          List.find?_cons_of_neg (by simpa using hid)
        rw [hstep, hfind]
        rw [List.map_cons, List.nodup_cons] at hids
        have hlen : es.length ≤ fuel := by omega
        rcases ih hn htail hlen hnodes' hids.2 with
          ⟨h₁, h₂⟩ | ⟨e₁, last, h₁, h₂, h₃, h₄, n', h₅, h₆⟩
        · exact Or.inl ⟨h₁, h₂⟩
        · have hlast : a ≠ last := by
            rintro rfl
            rcases h₃ with he | ⟨e', he', he⟩
            · exact hae he
            · exact haout (List.mem_cons_of_mem _ (List.mem_map.mpr ⟨e', he', he⟩))
          refine Or.inr ⟨e₁, last, h₁, h₂, Or.inr ?_, h₄, some e.node, ?_, ?_⟩
          · rcases h₃ with rfl | ⟨e', he', he⟩
            · exact ⟨e, List.mem_cons_self .., rfl⟩
            · exact ⟨e', List.mem_cons_of_mem _ he', he⟩
          · rw [unlink_of_ne hlast]
            exact ha
          · rw [List.filter_cons_of_pos (by simpa using hid)]
            exact ⟨rfl, n', h₅, h₆⟩

theorem getDelRequest_spec {id : UInt32} {fuel : Nat} (h : Linked heap head es)
    (hfuel : es.length ≤ fuel) (hnodes : (es.map Entry.node).Nodup)
    (hids : (es.map Entry.id).Nodup) (hhead : ∀ e ∈ es.head?, e.id ≠ id) :
    ∃ heap', getDelRequest heap head fuel id =
        some ((es.find? fun e => e.id = id).map Entry.node, heap') ∧
      Linked heap' head (es.filter fun e => e.id ≠ id) ∧
      ∀ e, es.find? (fun e => e.id = id) = some e → heap' e.node = heap e.node := by
  cases es with
  | nil =>
      have hnone : head = none := h
      subst hnone
      exact ⟨heap, rfl, rfl, fun e he => by cases he⟩
  | cons e es =>
      obtain ⟨rfl, n, hn, htail⟩ := h
      have hid : e.id ≠ id := hhead e rfl
      rw [List.length_cons] at hfuel
      obtain ⟨fuel, rfl⟩ : ∃ f, fuel = f + 1 := ⟨fuel - 1, by omega⟩
      have hstep : findRequest heap id (fuel + 1) e.node (some e.node) =
          findRequest heap id fuel e.node n := by
        rw [findRequest, hn]
        simp [hid]
      have hfind : (e :: es).find? (fun e => e.id = id) = es.find? (fun e => e.id = id) :=
        List.find?_cons_of_neg (by simpa using hid)
      have hlen : es.length ≤ fuel := by omega
      rw [List.map_cons, List.nodup_cons] at hids
      rw [getDelRequest, hstep, hfind, List.filter_cons_of_pos (by simpa using hid)]
      rcases findRequest_spec hn htail hlen hnodes hids.2 with
        ⟨h₁, h₂⟩ | ⟨e₁, last, h₁, h₂, h₃, h₄, n', h₅, h₆⟩
      · rw [h₁, h₂]
        refine ⟨heap, rfl, ?_, fun e he => by cases he⟩
        have hall : es.filter (fun e => e.id ≠ id) = es := by
          rw [List.filter_eq_self]
          intro e' he'
          have := List.find?_eq_none.mp h₁ e' he'
          simpa using this
        rw [hall]
        exact ⟨rfl, n, hn, htail⟩
      · rw [h₁, h₂]
        refine ⟨unlink heap last e₁.node, rfl, ⟨rfl, n', h₅, h₆⟩, fun e' he' => ?_⟩
        cases he'
        exact unlink_of_ne h₄.symm

theorem getDelRequest_head {e : Entry} {id : UInt32} {fuel : Nat}
    (h : Linked heap head (e :: es)) (hid : e.id = id) (hfuel : 0 < fuel) :
    getDelRequest heap head fuel id = some (some e.node, heap) := by
  obtain ⟨rfl, n, hn, -⟩ := h
  obtain ⟨fuel, rfl⟩ : ∃ f, fuel = f + 1 := ⟨fuel - 1, by omega⟩
  have hsame : unlink heap e.node e.node = heap := by
    simp only [unlink, hn]
    rw [← hn]
    exact Function.update_eq_self _ _
  rw [getDelRequest, findRequest, hn]
  simp [hid, hsame]

theorem addRequest_spec (request : Nat) (id : UInt32) {node : Nat} (h : Linked heap head es)
    (hnode : heap node = none) :
    ∃ heap', addRequest (Function.update heap node (some ⟨id, request, none⟩)) head node =
        some (heap', some node) ∧
      Linked heap' (some node) (⟨node, id, request⟩ :: es) := by
  have hout : ∀ e ∈ es, e.node ≠ node := by
    rintro e he rfl
    obtain ⟨next, hn⟩ := h.allocated he
    rw [hnode] at hn
    cases hn
  cases head with
  | none =>
      refine ⟨_, rfl, rfl, none, Function.update_self .., h.frame fun e he => ?_⟩
      exact Function.update_of_ne (hout e he) ..
  | some p =>
      rw [addRequest, Function.update_self]
      refine ⟨_, rfl, rfl, some p, Function.update_self .., h.frame fun e he => ?_⟩
      rw [Function.update_of_ne (hout e he), Function.update_of_ne (hout e he)]

end

/-! ## The table over a run -/

/-- The invariant: no request is called back and pending at once. -/
structure TableInv (s : RequestState) : Prop where
  linked : ∃ es, Linked s.heap s.head es ∧ es.map (fun e => (e.id, e.request)) = s.table ∧
    (es.map Entry.node).Nodup
  ids : (s.table.map Prod.fst).Nodup
  once : (s.called.map Callback.request ++ s.table.map Prod.snd).Nodup
  numbered : ∀ r ∈ s.called.map Callback.request ++ s.table.map Prod.snd, r < s.requests
  length : s.table.length ≤ s.requests

theorem map_remaining (es : List Entry) (id : UInt32) :
    (es.filter fun e => e.id ≠ id).map (fun e => (e.id, e.request)) =
      remaining (es.map fun e => (e.id, e.request)) id := by
  rw [remaining, List.filter_map]
  rfl

/-- Only requests that were answered here move from the pending ones to the called ones. -/
theorem subperm_called (called : List Nat) {r : List Nat} {table : List (UInt32 × Nat)} {id : UInt32}
    (h : r.Sublist ((table.filter fun e => e.1 = id).map Prod.snd)) :
    (called ++ r ++ (remaining table id).map Prod.snd).Subperm
      (called ++ table.map Prod.snd) := by
  rw [List.append_assoc, List.subperm_append_left]
  have hsub : (r ++ (remaining table id).map Prod.snd).Sublist
      (((table.filter fun e => e.1 = id) ++ remaining table id).map Prod.snd) := by
    rw [List.map_append]
    exact h.append_right _
  have hperm : ((table.filter fun e => e.1 = id) ++ remaining table id).Perm table := by
    have hnot : remaining table id = table.filter fun e => !decide (e.1 = id) :=
      List.filter_congr fun e _ => decide_not
    rw [hnot]
    exact List.filter_append_perm ..
  exact hsub.subperm.trans (hperm.map _).subperm

section

variable {s s' : RequestState} {id : UInt32}

theorem headIs_iff {es : List Entry} (h : Linked s.heap s.head es) :
    HeadIs s id ↔ ∃ e ∈ es.head?, e.id = id := by
  cases es with
  | nil =>
      have hnone : s.head = none := h
      simp [HeadIs, hnone]
  | cons e es =>
      obtain ⟨hhead, n, hn, -⟩ := h
      simp [HeadIs, hhead, hn]

/-- The entries of the list, which one search passes through and whose ids are distinct. -/
theorem TableInv.entries (h : TableInv s) :
    ∃ es, Linked s.heap s.head es ∧ es.map (fun e => (e.id, e.request)) = s.table ∧
      (es.map Entry.node).Nodup ∧ es.length ≤ s.requests ∧ (es.map Entry.id).Nodup := by
  obtain ⟨es, hl, htable, hnodes⟩ := h.linked
  have hlen := h.length
  have hids := h.ids
  rw [← htable, List.length_map] at hlen
  rw [← htable, List.map_map] at hids
  exact ⟨es, hl, htable, hnodes, hlen, hids⟩

/-- What `get_del_request` and the `free` behind it do away from the head. -/
theorem TableInv.get (h : TableInv s) (hhead : ¬HeadIs s id) :
    ∃ heap, (getDelRequest s.heap s.head s.requests id = some (none, heap) ∧
        (∃ es, Linked heap s.head es ∧
          es.map (fun e => (e.id, e.request)) = remaining s.table id ∧
          (es.map Entry.node).Nodup)) ∨
      ∃ p n, getDelRequest s.heap s.head s.requests id = some (some p, heap) ∧
        heap p = some n ∧ (n.id, n.request) ∈ s.table.filter (fun e => e.1 = id) ∧
        ∃ es, Linked (Function.update heap p none) s.head es ∧
          es.map (fun e => (e.id, e.request)) = remaining s.table id ∧
          (es.map Entry.node).Nodup := by
  obtain ⟨es, hl, htable, hnodes, hlen, hids⟩ := h.entries
  have hne : ∀ e ∈ es.head?, e.id ≠ id := fun e he hid =>
    hhead ((headIs_iff hl).mpr ⟨e, he, hid⟩)
  obtain ⟨heap, hget, hl', hsame⟩ := getDelRequest_spec hl hlen hnodes hids hne
  have hrest : (es.filter fun e => e.id ≠ id).map (fun e => (e.id, e.request)) =
      remaining s.table id := by rw [map_remaining, htable]
  have hnodes' : ((es.filter fun e => e.id ≠ id).map Entry.node).Nodup :=
    hnodes.sublist (List.filter_sublist.map _)
  refine ⟨heap, ?_⟩
  cases hf : es.find? (fun e => e.id = id) with
  | none =>
      rw [hf] at hget
      exact Or.inl ⟨hget, _, hl', hrest, hnodes'⟩
  | some e =>
      rw [hf] at hget
      have he : e ∈ es := List.mem_of_find?_eq_some hf
      have hid : e.id = id := by simpa using List.find?_some hf
      obtain ⟨next, hn⟩ := hl.allocated he
      refine Or.inr ⟨e.node, _, hget, (hsame e hf).trans hn, ?_, _, hl'.frame ?_, hrest, hnodes'⟩
      · rw [List.mem_filter, ← htable]
        exact ⟨List.mem_map_of_mem he, by simpa using hid⟩
      · intro e' he'
        rw [List.mem_filter] at he'
        refine Function.update_of_ne (fun hnode => ?_) ..
        have heq : e' = e := List.inj_on_of_nodup_map hnodes he'.1 he hnode
        simp [heq, hid] at he'

/-- Dropping the entries with one id and calling back some of them keeps the bookkeeping. -/
theorem TableInv.drop (h : TableInv s) (sending : Bool) (cs : List Callback) {heap : Heap}
    (hl : ∃ es, Linked heap s.head es ∧
      es.map (fun e => (e.id, e.request)) = remaining s.table id ∧ (es.map Entry.node).Nodup)
    (hcs : (cs.map Callback.request).Sublist
      ((s.table.filter fun e => e.1 = id).map Prod.snd)) :
    TableInv { s with
      heap := heap, sending := sending, called := s.called ++ cs, table := remaining s.table id } := by
  have hsub := subperm_called (s.called.map Callback.request) hcs
  have hmap : (s.called ++ cs).map Callback.request =
      s.called.map Callback.request ++ cs.map Callback.request := List.map_append ..
  have hrest : (remaining s.table id).Sublist s.table := List.filter_sublist
  constructor
  · exact hl
  · exact h.ids.sublist (hrest.map _)
  · show ((s.called ++ cs).map Callback.request ++ _).Nodup
    rw [hmap]
    obtain ⟨l, hperm, hl⟩ := hsub
    exact hperm.nodup_iff.mp (h.once.sublist hl)
  · show ∀ r ∈ (s.called ++ cs).map Callback.request ++ _, r < s.requests
    rw [hmap]
    exact fun r hr => h.numbered r (hsub.subset hr)
  · exact hrest.length_le.trans h.length

theorem respond_request (n : RequestObj) (ret : UInt8) (value : UInt32) :
    ((respond n ret value).map Callback.request).Sublist [n.request] := by
  unfold respond
  split
  · exact List.Sublist.refl _
  · split
    · exact List.Sublist.refl _
    · exact List.nil_sublist _

theorem TableInv.step {a : RequestAction} (h : TableInv s) (ha : NotHead s a)
    (hs : requestStep s a = some s') : TableInv s' := by
  cases a with
  | request node =>
      simp only [requestStep] at hs
      split at hs
      next hcond =>
        obtain ⟨es, hl, htable, hnodes⟩ := h.linked
        obtain ⟨heap', hadd, hl'⟩ :=
          addRequest_spec s.requests s.nextId hl hcond.2
        rw [hadd, Option.map_some, Option.some.injEq] at hs
        subst hs
        have hout : node ∉ es.map Entry.node := by
          intro hmem
          obtain ⟨e, he, hnode⟩ := List.mem_map.mp hmem
          obtain ⟨next, hn⟩ := hl.allocated he
          rw [hnode, hcond.2] at hn
          cases hn
        constructor
        · exact ⟨_, hl', by rw [List.map_cons, htable], List.nodup_cons.mpr ⟨hout, hnodes⟩⟩
        · refine List.nodup_cons.mpr ⟨fun hmem => ?_, h.ids⟩
          obtain ⟨e, he, hid⟩ := List.mem_map.mp hmem
          exact ha.fresh node rfl e he hid
        · refine List.nodup_middle.mpr (List.nodup_cons.mpr ⟨fun hmem => ?_, h.once⟩)
          exact lt_irrefl _ (h.numbered _ hmem)
        · intro r hr
          rcases List.mem_cons.mp (List.perm_middle.subset hr) with rfl | hr
          · exact Nat.lt_succ_self _
          · exact (h.numbered r hr).trans (Nat.lt_succ_self _)
        · exact Nat.succ_le_succ h.length
      next => cases hs
  | sent ok =>
      simp only [requestStep] at hs
      split at hs
      next =>
        cases ok with
        | true =>
            cases hs
            exact ⟨h.linked, h.ids, h.once, h.numbered, h.length⟩
        | false =>
            have hkeep : ∀ heap, (∃ es, Linked heap s.head es ∧
                es.map (fun e => (e.id, e.request)) = remaining s.table s.nextId ∧
                (es.map Entry.node).Nodup) →
                TableInv { s with
                  heap := heap, sending := false, table := remaining s.table s.nextId } := by
              intro heap hl
              have := h.drop false [] hl (List.nil_sublist _)
              rwa [List.append_nil] at this
            obtain ⟨heap, ⟨hget, hl⟩ | ⟨p, n, hget, hp, -, hl⟩⟩ := h.get (ha.sent rfl)
            · simp [hget, freeRequest] at hs
              subst hs
              exact hkeep _ hl
            · simp [hget, freeRequest, hp] at hs
              subst hs
              exact hkeep _ hl
      next => cases hs
  | response id ret value =>
      obtain ⟨heap, ⟨hget, hl⟩ | ⟨p, n, hget, hp, hn, hl⟩⟩ := h.get (ha.response _ _ _ rfl)
      · simp [requestStep, hget] at hs
        subst hs
        have := h.drop s.sending [] hl (List.nil_sublist _)
        rwa [List.append_nil] at this
      · simp [requestStep, hget, freeRequest, hp] at hs
        subst hs
        refine h.drop s.sending _ hl ((respond_request n ret value).trans ?_)
        exact List.singleton_sublist.mpr (List.mem_map_of_mem hn)

theorem TableInv.start : TableInv .start :=
  ⟨⟨[], rfl, rfl, List.nodup_nil⟩, List.nodup_nil, List.nodup_nil, (fun _ hr => by cases hr),
    Nat.zero_le _⟩

theorem TableInv.of_run (h : requestMachine.Run NotHead s) : TableInv s :=
  Machine.Run.invariant (P := TableInv) (fun t (ht : t = .start) => ht ▸ TableInv.start)
    (fun _ _ _ hi ha hs => hi.step ha hs) h

theorem TableInv.gets_iff (h : TableInv s) : GetsRequest s id ↔ ¬HeadIs s id := by
  obtain ⟨es, hl, htable, hnodes, hlen, hids⟩ := h.entries
  constructor
  · rintro ⟨es', hl', heap, hget, hkeep⟩ hhead
    obtain rfl := hl'.unique hl
    obtain ⟨e, he, hid⟩ := (headIs_iff hl).mp hhead
    cases es' with
    | nil => cases he
    | cons e' es' =>
        cases he
        rw [List.length_cons] at hlen
        rw [getDelRequest_head hl hid (by omega), Option.some.injEq, Prod.mk.injEq] at hget
        rw [← hget.2] at hkeep
        have hsame := hkeep.unique hl
        have hmem : e ∈ (e :: es').filter fun e => e.id ≠ id := by
          rw [hsame]
          exact List.mem_cons_self ..
        simp [hid] at hmem
  · intro hhead
    have hne : ∀ e ∈ es.head?, e.id ≠ id := fun e he hid =>
      hhead ((headIs_iff hl).mpr ⟨e, he, hid⟩)
    obtain ⟨heap, hget, hl', -⟩ := getDelRequest_spec hl hlen hnodes hids hne
    exact ⟨es, hl, heap, hget, hl'⟩

/-- While `get_del_request` is not asked for the id at the head, every state keeps the table, and
a further call works exactly for the other ids. -/
theorem delivers_of_notHead (h : requestMachine.Run NotHead s) :
    Delivers s ∧ ∀ id, GetsRequest s id ↔ ¬HeadIs s id := by
  have hi := TableInv.of_run h
  obtain ⟨es, hl, htable, -⟩ := hi.linked
  exact ⟨⟨⟨es, hl, htable⟩, (List.nodup_append.mp hi.once).1⟩, fun id => hi.gets_iff⟩

end

def RequestState.headId (s : RequestState) : Option UInt32 :=
  (s.head.bind s.heap).map RequestObj.id

theorem headId_of_headIs {s : RequestState} {id : UInt32} (h : HeadIs s id) : s.headId = some id := by
  obtain ⟨p, n, hhead, hn, rfl⟩ := h
  rw [RequestState.headId, hhead, Option.bind_some, hn]
  rfl

/-- `NotHead`, read off the action. -/
def AwayFromHead (s : RequestState) : RequestAction → Prop
  | .request _ => ∀ e ∈ s.table, e.1 ≠ s.nextId
  | .sent ok => ok = false → s.headId ≠ some s.nextId
  | .response id _ _ => s.headId ≠ some id

instance (s : RequestState) : (a : RequestAction) → Decidable (AwayFromHead s a)
  | .request _ => inferInstanceAs (Decidable (∀ e ∈ s.table, e.1 ≠ s.nextId))
  | .sent ok => inferInstanceAs (Decidable (ok = false → s.headId ≠ some s.nextId))
  | .response id _ _ => inferInstanceAs (Decidable (s.headId ≠ some id))

theorem notHead_of_awayFromHead (s : RequestState) (a : RequestAction) (h : AwayFromHead s a) :
    NotHead s a where
  fresh := by
    rintro node rfl
    exact h
  sent := by
    rintro rfl hid
    exact h rfl (headId_of_headIs hid)
  response := by
    rintro id ret value rfl hid
    exact h (headId_of_headIs hid)

/-- Of three pending requests the middle one and the oldest are answered, one with success and one
without, and an answer to none of them comes. A fourth request reuses a freed node. -/
def threePending : List RequestAction :=
  [.request 0, .sent true, .request 1, .sent true, .request 2, .sent true,
    .response 1 retSuccess 42, .response 9 retSuccess 0, .request 1, .sent true,
    .response 0 retFail 7]

theorem delivers_threePending : ∃ s, requestMachine.Run NotHead s ∧
    s.called.map (fun c => (c.request, c.ret, c.value)) = [(1, 1, 42), (0, 0, 7)] ∧
    s.table = [(3, 3), (2, 2)] ∧ Delivers s ∧ GetsRequest s 2 ∧ ¬GetsRequest s 3 := by
  obtain ⟨s, hs, hview⟩ := Option.map_eq_some_iff.mp (by decide +kernel :
    ((requestMachine.guarded AwayFromHead).exec .start threePending).map (fun s =>
      (s.called.map fun c => (c.request, c.ret, c.value), s.table, s.head,
        (s.heap 1).map RequestObj.id)) =
      some ([(1, 1, 42), (0, 0, 7)], [(3, 3), (2, 2)], some 1, some 3))
  simp only [Prod.mk.injEq] at hview
  obtain ⟨hcalled, htable, hhead, hid⟩ := hview
  have hrun := (Machine.run_of_exec hs rfl).mono notHead_of_awayFromHead
  obtain ⟨hd, hget⟩ := delivers_of_notHead hrun
  refine ⟨s, hrun, hcalled, htable, hd, (hget 2).mpr ?_, ?_⟩
  · rintro hid'
    have hsome := headId_of_headIs hid'
    rw [RequestState.headId, hhead, Option.bind_some, hid] at hsome
    cases hsome
  · obtain ⟨n, hn, hid'⟩ := Option.map_eq_some_iff.mp hid
    exact fun h => (hget 3).mp h ⟨1, n, hhead, hn, hid'⟩

/-- One request and its answer leave the head at a freed node. -/
theorem freed_head :
    ∃ s, requestMachine.Reachable s ∧ (∃ p, s.head = some p ∧ s.heap p = none) ∧ ¬Delivers s := by
  obtain ⟨s, hs, hhead, hheap⟩ : ∃ s,
      requestMachine.exec .start [.request 0, .sent true, .response 0 retSuccess 7] = some s ∧
        s.head = some 0 ∧ s.heap 0 = none := ⟨_, rfl, rfl, rfl⟩
  refine ⟨s, Machine.Reachable.exec (.start rfl) hs, ⟨0, hhead, hheap⟩, fun hd => ?_⟩
  obtain ⟨es, hl, -⟩ := hd.linked
  rw [hhead] at hl
  cases es with
  | nil => cases hl
  | cons e es =>
      obtain ⟨he, next, hn, -⟩ := hl
      rw [← Option.some.inj he, hheap] at hn
      cases hn

end Hprd.Clients

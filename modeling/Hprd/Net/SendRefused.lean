import Hprd.Net.SendFrames

/-!
# Calls that return -1

The check of `tcp_send_data_unsafe` returns before anything is done. `enqueue_data` refuses a
payload longer than the ring only behind the length field, and with the lock taken. Runs start
from any queues here.
-/

namespace Hprd.Net

open Hprd.Core Common

/-- Nobody is inside a call, and a queue accounts for at most a full ring. -/
structure Untouched (s : SendState) : Prop where
  idle : ∀ t, s.pc t = .idle
  netIdle : s.net = .idle
  free : ∀ c, (s.client c).owner = none ∧ (s.client c).waiters = []
  entered : ∀ c, (s.client c).entered = []
  used : ∀ c, (s.client c).queue.used ≤ capacity

def callsMachine : Machine SendState SendAction where
  init := Untouched
  step := step

/-- Call `k` of thread `t` returns, and it is not among those that returned 0. -/
def Refused (s s' : SendState) (t : Nat) (k : SendCall) : Prop :=
  (s.pc t).call = some k ∧ s'.pc t = .idle ∧ (s'.client k.client).sent = (s.client k.client).sent

/-- A call that returns -1 has put nothing into the queue and leaves without the lock, and the
check lets only a frame through that fits. -/
structure LeavesNothing (s s' : SendState) : Prop where
  entered : ∀ t k, Refused s s' t k → ∀ y ∈ (s'.client k.client).entered, y.1 ≠ k.id
  unlocked : ∀ t k, Refused s s' t k → (s'.client k.client).owner ≠ some (.sender t)
  fits : ∀ t k, s.pc t = .check k → s'.pc t = .lock k →
    k.buf.length + 4 ≤ (s.client k.client).queue.free

/-- The sum of the check has not wrapped to what is free, and no payload that is enqueued is
longer than the ring. -/
def Measured (s : SendState) : SendAction → Prop
  | .run t => match s.pc t with
      | .check k => k.buf.length + 4 < 2 ^ 32 ∨
          (s.client k.client).queue.free + 2 ^ 32 < k.buf.length + 4
      | .put k .payload => k.buf.length ≤ capacity
      | _ => True
  | _ => True

/-! ## Whose bytes are in the queues -/

/-- The calls have numbers of their own, and only those inside their frame have bytes in the
queue. -/
structure OwnBytes (s : SendState) : Prop where
  call : ∀ t k, (s.pc t).call = some k → k.id < s.calls ∧ k.buf.length < 2 ^ 32
  entered : ∀ c, ∀ y ∈ (s.client c).entered, y.1 < s.calls
  distinct : ∀ t u k l, (s.pc t).call = some k → (s.pc u).call = some l → k.id = l.id → t = u
  before : ∀ t k, (s.pc t).call = some k → (s.pc t).midFrame = none →
    ∀ y ∈ (s.client k.client).entered, y.1 ≠ k.id
  inside : ∀ t k, (s.pc t).midFrame = some k → ∃ y ∈ (s.client k.client).entered, y.1 = k.id

section

variable {s s' : SendState} {t : Nat} {k : SendCall}

/-- A thread moves inside its call or leaves it, and no byte enters a queue. -/
theorem OwnBytes.move (h : OwnBytes s) (hcalls : s'.calls = s.calls)
    (hpc : ∀ u, u ≠ t → s'.pc u = s.pc u)
    (hcall : (s'.pc t).call = (s.pc t).call ∧ (s'.pc t).midFrame = (s.pc t).midFrame ∨
      s'.pc t = .idle)
    (hentered : ∀ c, (s'.client c).entered = (s.client c).entered) : OwnBytes s' := by
  have hold : ∀ u l, (s'.pc u).call = some l → (s.pc u).call = some l := by
    intro u l hl
    rcases eq_or_ne u t with rfl | hu
    · rcases hcall with ⟨hc, -⟩ | hidle
      · rwa [← hc]
      · rw [hidle] at hl
        cases hl
    · rwa [hpc u hu] at hl
  have hmid : ∀ u, s'.pc u ≠ .idle → (s'.pc u).midFrame = (s.pc u).midFrame := by
    intro u hne
    rcases eq_or_ne u t with rfl | hu
    · rcases hcall with ⟨-, hm⟩ | hidle
      · exact hm
      · exact absurd hidle hne
    · rw [hpc u hu]
  have hbusy : ∀ u l, (s'.pc u).call = some l → s'.pc u ≠ .idle := by
    intro u l hl hidle
    rw [hidle] at hl
    cases hl
  constructor
  · intro u l hl
    rw [hcalls]
    exact h.call u l (hold u l hl)
  · intro c y hy
    rw [hcalls]
    rw [hentered] at hy
    exact h.entered c y hy
  · intro u v l m hl hm
    exact h.distinct u v l m (hold u l hl) (hold v m hm)
  · intro u l hl hnone
    rw [hentered]
    rw [hmid u (hbusy u l hl)] at hnone
    exact h.before u l (hold u l hl) hnone
  · intro u l hl
    rw [hentered]
    rw [hmid u (hbusy u l (call_of_midFrame hl))] at hl
    exact h.inside u l hl

theorem OwnBytes.begin (h : OwnBytes s) {c : Nat} {buf : Bytes} {p : SendPc}
    (hidle : s.pc t = .idle) (hlen : buf.length < 2 ^ 32)
    (hp : p.call = some ⟨s.calls, c, buf⟩) (hmid : p.midFrame = none) :
    OwnBytes ({ s with calls := s.calls + 1 }.setPc t p) := by
  have hnew : ∀ u l, (Function.update s.pc t p u).call = some l →
      u = t ∧ l = ⟨s.calls, c, buf⟩ ∨ u ≠ t ∧ (s.pc u).call = some l := by
    intro u l hl
    rcases eq_or_ne u t with rfl | hu
    · rw [Function.update_self, hp] at hl
      cases hl
      exact .inl ⟨rfl, rfl⟩
    · rw [Function.update_of_ne hu] at hl
      exact .inr ⟨hu, hl⟩
  constructor
  · intro u l hl
    rcases hnew u l hl with ⟨-, rfl⟩ | ⟨-, hl⟩
    · exact ⟨Nat.lt_succ_self _, hlen⟩
    · obtain ⟨hid, hbuf⟩ := h.call u l hl
      exact ⟨Nat.lt_succ_of_lt hid, hbuf⟩
  · intro d y hy
    exact Nat.lt_succ_of_lt (h.entered d y hy)
  · intro u v l m hl hm hid
    rcases hnew u l hl with ⟨hu, hl'⟩ | ⟨-, hl'⟩
    · rcases hnew v m hm with ⟨hv, -⟩ | ⟨-, hm'⟩
      · exact hu.trans hv.symm
      · rw [hl'] at hid
        exact absurd hid (Nat.ne_of_gt (h.call v m hm').1)
    · rcases hnew v m hm with ⟨-, hm'⟩ | ⟨-, hm'⟩
      · rw [hm'] at hid
        exact absurd hid (Nat.ne_of_lt (h.call u l hl').1)
      · exact h.distinct u v l m hl' hm' hid
  · intro u l hl hnone y hy
    rcases hnew u l hl with ⟨rfl, rfl⟩ | ⟨hu, hl⟩
    · exact Nat.ne_of_lt (h.entered c y hy)
    · have hnone' : (Function.update s.pc t p u).midFrame = none := hnone
      rw [Function.update_of_ne hu] at hnone'
      exact h.before u l hl hnone' y hy
  · intro u l hl
    have hl' : (Function.update s.pc t p u).midFrame = some l := hl
    rcases eq_or_ne u t with rfl | hu
    · rw [Function.update_self, hmid] at hl'
      cases hl'
    · rw [Function.update_of_ne hu] at hl'
      exact h.inside u l hl'

theorem OwnBytes.put (h : OwnBytes s) {p : SendPc} {part : Part} (hk : (s.pc t).call = some k)
    (hcalls : s'.calls = s.calls) (hpc : s'.pc = Function.update s.pc t p)
    (hp : p = .idle ∨ p = .put k .payload) (hne : k.bytes part ≠ [])
    (hentered : ∀ c, (s'.client c).entered =
      if c = k.client then (s.client c).entered ++ k.marked part else (s.client c).entered) :
    OwnBytes s' := by
  have hmem : ∀ c, ∀ y ∈ (s'.client c).entered, y ∈ (s.client c).entered ∨ y.1 = k.id := by
    intro c y hy
    rw [hentered] at hy
    split at hy
    · rcases List.mem_append.mp hy with hy | hy
      · exact .inl hy
      · exact .inr (marked_id hy)
    · exact .inl hy
  have hold : ∀ u l, (s'.pc u).call = some l → (s.pc u).call = some l := by
    intro u l hl
    rw [hpc] at hl
    rcases eq_or_ne u t with rfl | hu
    · rw [Function.update_self] at hl
      rcases hp with rfl | rfl
      · cases hl
      · cases hl
        exact hk
    · rwa [Function.update_of_ne hu] at hl
  have hgrown : ∀ c, ∀ y ∈ (s.client c).entered, y ∈ (s'.client c).entered := by
    intro c y hy
    rw [hentered]
    split
    · exact List.mem_append_left _ hy
    · exact hy
  constructor
  · intro u l hl
    rw [hcalls]
    exact h.call u l (hold u l hl)
  · intro c y hy
    rw [hcalls]
    rcases hmem c y hy with hy | hy
    · exact h.entered c y hy
    · rw [hy]
      exact (h.call t k hk).1
  · intro u v l m hl hm
    exact h.distinct u v l m (hold u l hl) (hold v m hm)
  · intro u l hl hnone y hy
    have hu : u ≠ t := by
      rintro rfl
      rw [hpc, Function.update_self] at hl hnone
      rcases hp with rfl | rfl
      · cases hl
      · cases hnone
    have hl' := hold u l hl
    rw [hpc, Function.update_of_ne hu] at hnone
    rcases hmem _ y hy with hy | hy
    · exact h.before u l hl' hnone y hy
    · rw [hy]
      exact fun hid => hu (h.distinct u t l k hl' hk hid.symm)
  · intro u l hl
    rw [hpc] at hl
    rcases eq_or_ne u t with rfl | hu
    · rw [Function.update_self] at hl
      rcases hp with rfl | rfl
      · cases hl
      · cases hl
        obtain ⟨y, hy⟩ := List.exists_mem_of_ne_nil _ hne
        refine ⟨(k.id, y), ?_, rfl⟩
        rw [hentered, if_pos rfl]
        exact List.mem_append_right _ (List.mem_map_of_mem hy)
    · rw [Function.update_of_ne hu] at hl
      obtain ⟨y, hy, hid⟩ := h.inside u l hl
      exact ⟨y, hgrown _ y hy, hid⟩

/-! ## Who has the lock -/

/-- A thread that has a lock is at an `enqueue_data` on that client. -/
def Holding (s : SendState) : Prop :=
  ∀ c t, (s.client c).owner = some (.sender t) → ∃ k part, s.pc t = .put k part ∧ k.client = c

theorem Holding.owner_ne (h : Holding s) (hpc : ∀ k part, s.pc t ≠ .put k part) (c : Nat) :
    (s.client c).owner ≠ some (.sender t) := by
  intro ho
  obtain ⟨k, part, hk, -⟩ := h c t ho
  exact hpc k part hk

/-- What every step keeps. -/
structure CallsInv (s : SendState) : Prop where
  locks : SendInv s
  own : OwnBytes s
  holding : Holding s
  used : ∀ c, (s.client c).queue.used ≤ capacity

theorem callsInv_untouched (h : Untouched s) : CallsInv s := by
  have hno : ∀ (P : SendPc → Option SendCall) t k, P .idle = none → P (s.pc t) ≠ some k := by
    intro P t k hP hk
    rw [h.idle, hP] at hk
    cases hk
  refine ⟨⟨?_, ?_, ?_, ?_⟩, ⟨?_, ?_, ?_, ?_, ?_⟩, ?_, h.used⟩
  · intro t k part hpc
    rw [h.idle] at hpc
    cases hpc
  · intro c hnet
    rw [h.netIdle] at hnet
    cases hnet
  · intro c t
    rw [(h.free c).2]
    refine iff_of_false List.not_mem_nil ?_
    rintro ⟨k, part, hpc, -⟩
    rw [h.idle] at hpc
    cases hpc
  · intro c
    rw [(h.free c).2]
    exact List.nodup_nil
  · exact fun t k hk => absurd hk (hno _ t k rfl)
  · intro c y hy
    rw [h.entered] at hy
    cases hy
  · exact fun t u k l hk => absurd hk (hno _ t k rfl)
  · exact fun t k hk => absurd hk (hno _ t k rfl)
  · exact fun t k hk => absurd hk (hno _ t k rfl)
  · intro c t ho
    rw [(h.free c).1] at ho
    cases ho

/-! ## One step -/

theorem refuse_part {part : Part} (h : capacity < (k.bytes part).length) : part = .payload := by
  cases part with
  | payload => rfl
  | length =>
      have h4 : (k.bytes .length).length = 4 := be32_length _
      have hcap := capacity_eq
      omega

theorem ownBytes_step {a : SendAction} (h : OwnBytes s) (hs : Stepped s a s') : OwnBytes s' := by
  -- the network thread is in no call
  have hnet : s'.calls = s.calls → s'.pc = s.pc →
      (∀ c, (s'.client c).entered = (s.client c).entered) → OwnBytes s' := by
    intro hcalls hpc hentered
    exact @OwnBytes.move s s' 0 h hcalls (fun u _ => congrFun hpc u)
      (.inl ⟨by rw [hpc], by rw [hpc]⟩) hentered
  have hinside : ∀ {u : SendState} {t : Nat} {p : SendPc}, u.calls = s.calls → u.pc = s.pc →
      (∀ c, (u.client c).entered = (s.client c).entered) →
      (p.call = (s.pc t).call ∧ p.midFrame = (s.pc t).midFrame ∨ p = .idle) →
      OwnBytes (u.setPc t p) := by
    intro u t p hcalls hpc hentered hp
    have hset : (u.setPc t p).pc = Function.update s.pc t p := by rw [SendState.setPc_pc, hpc]
    refine @OwnBytes.move s (u.setPc t p) t h hcalls ?_ ?_ hentered
    · intro v hv
      rw [hset, Function.update_of_ne hv]
    · rw [hset, Function.update_self]
      exact hp
  cases hs with
  | @call t c buf safe hpc hlen hr =>
      apply h.begin hpc hlen
      · cases safe <;> rfl
      · cases safe <;> rfl
  | @skip t k hpc => exact hinside rfl rfl (fun _ => rfl) (.inr rfl)
  | @checked t k hpc =>
      refine hinside rfl rfl (fun _ => rfl) (.inl ?_)
      rw [hpc]
      exact ⟨rfl, rfl⟩
  | @acquire t k part hpc ho =>
      refine hinside rfl rfl (member_update_same SendClient.entered (by rfl)) (.inl ?_)
      rcases hpc with ⟨hpc, rfl⟩ | hpc
      · rw [hpc]
        exact ⟨rfl, rfl⟩
      · rw [hpc]
        cases part <;> exact ⟨rfl, rfl⟩
  | @park t k part hpc hr =>
      refine hinside rfl rfl (member_update_same SendClient.entered (by rfl)) (.inl ?_)
      rw [hpc]
      cases part <;> exact ⟨rfl, rfl⟩
  | @refuse t k part hpc hr => exact hinside rfl rfl (fun _ => rfl) (.inr rfl)
  | @putLength t k q hpc hq =>
      refine @OwnBytes.put s (s.putLength t k q) t k h _ .length (by rw [hpc]; rfl) rfl rfl
        (.inr rfl) hq.nonempty ?_
      intro c
      rw [SendState.putLength, SendState.setPc_client, SendState.setClient_client]
      split
      next hc => rw [hc, Function.update_self]
      next hc => rw [Function.update_of_ne hc]
  | @putPayload t k q hpc hq =>
      refine @OwnBytes.put s (s.putPayload t k q) t k h _ .payload (by rw [hpc]; rfl) rfl rfl
        (.inl rfl) hq.nonempty ?_
      intro c
      rw [SendState.putPayload, SendState.setPc_client, SendState.setClient_client]
      split
      next hc => rw [hc, Function.update_self]
      next hc => rw [Function.update_of_ne hc]
  | @wake t k part hpc =>
      refine hinside rfl rfl (member_update_same SendClient.entered (by rfl)) (.inl ?_)
      rw [hpc]
      cases part <;> exact ⟨rfl, rfl⟩
  | drain hidle hcount hr => exact hnet rfl rfl (fun _ => rfl)
  | netLock hidle ho => exact hnet rfl rfl (member_update_same SendClient.entered (by rfl))
  | sendFail hsend => exact hnet rfl rfl (member_update_same SendClient.entered (by rfl))
  | sendZero hsend => exact hnet rfl rfl (member_update_same SendClient.entered (by rfl))
  | sendSome hsend hpos hle hbs => exact hnet rfl rfl (member_update_same SendClient.entered (by rfl))
  | quiet hsignal hno => exact hnet rfl rfl (fun _ => rfl)
  | @signal c ret t k part hsignal hret ht hmem hpc =>
      refine hinside rfl rfl (member_update_same SendClient.entered (by rfl)) (.inl ?_)
      rw [hpc]
      cases part <;> exact ⟨rfl, rfl⟩

/-- No step but the refusal of a payload leaves a call with the lock. -/
theorem holding_step {a : SendAction} (h : Holding s) (hm : Measured s a) (hs : Stepped s a s') :
    Holding s' := by
  refine fun c => holdsAt_step (h c) ?_ hs
  rintro t k part hpc rfl -
  cases part with
  | length =>
      have h4 : (k.bytes .length).length = 4 := be32_length _
      have hcap := capacity_eq
      omega
  | payload =>
      unfold Measured at hm
      have hle : k.buf.length ≤ capacity := by simpa only [hpc] using hm
      exact hle

theorem used_step {a : SendAction} (h : ∀ c, (s.client c).queue.used ≤ capacity)
    (hs : Stepped s a s') (c : Nat) : (s'.client c).queue.used ≤ capacity := by
  have hset : ∀ {d} (x : SendClient), x.queue.used ≤ capacity →
      ((s.setClient d x).client c).queue.used ≤ capacity := by
    intro d x hx
    rw [SendState.setClient_client, Function.update_apply]
    split
    next => exact hx
    next => exact h c
  cases hs with
  | call hpc hlen hr => exact h c
  | skip hpc => exact h c
  | checked hpc => exact h c
  | acquire hpc ho => exact hset _ (h _)
  | park hpc hr => exact hset _ (h _)
  | refuse hpc hr => exact h c
  | putLength hpc hq => exact hset _ (hq.used_le (h _)).2
  | putPayload hpc hq => exact hset _ (hq.used_le (h _)).2
  | wake hpc => exact hset _ (h _)
  | drain hidle hcount hr => exact h c
  | netLock hidle ho => exact hset _ (h _)
  | sendFail hsend => exact hset _ (h _)
  | sendZero hsend => exact hset _ (h _)
  | sendSome hsend hpos hle hbs =>
      exact hset _ (DataQueue.queueTailPointForward_used_le (h _) _)
  | quiet hsignal hno => exact h c
  | signal hsignal hret ht hmem hpc => exact hset _ (h _)

theorem callsInv_run (h : callsMachine.Run Measured s) : CallsInv s := by
  apply Machine.Run.invariant (P := CallsInv) _ _ h
  · exact fun s hs => callsInv_untouched hs
  · intro s a s' hs hm hstep
    have hstepped := stepped hstep
    exact ⟨sendInv_step hs.locks hstepped, ownBytes_step hs.own hstepped,
      holding_step hs.holding hm hstepped, used_step hs.used hstepped⟩

/-! ## Which calls leave nothing -/

theorem unsafeFails_iff_mod {q : DataQueue} {len : Nat} (h : q.used ≤ capacity) :
    unsafeFails q len = true ↔ q.free < (len + 4) % 2 ^ 32 := by
  have hcap := capacity_eq
  have hfree := DataQueue.free_eq h
  have hcount : q.queueGetFreeCount.toUInt32.toNat = q.free := by
    have hadd : queueDataSize + q.bufferTail - q.bufferHead
        = q.bufferTail + queueDataSize - q.bufferHead := by rw [UInt64.add_comm]
    rw [DataQueue.queueGetFreeCount, toCInt, UInt32.toUInt32_toInt32, hadd, UInt64.toNat_toUInt32]
    exact Nat.mod_eq_of_lt (show q.free < 2 ^ 32 by omega)
  have hneed : (UInt32.ofNat len + 4).toNat = (len + 4) % 2 ^ 32 := by
    rw [UInt32.toNat_add, UInt32.toNat_ofNat']
    show (len % 2 ^ 32 + 4) % 2 ^ 32 = (len + 4) % 2 ^ 32
    omega
  rw [unsafeFails, decide_eq_true_iff, UInt32.lt_iff_toNat_lt, hcount, hneed]

/-- Only its own step takes a thread out of a call. -/
theorem run_of_moved {a : SendAction} (hs : Stepped s a s') (hne : s'.pc t ≠ s.pc t)
    (hbusy : s.pc t ≠ .idle) (hout : ∀ l part, s'.pc t ≠ .relock l part) : a = .run t := by
  have hown : ∀ {v : SendState} {u : Nat} {p : SendPc}, v.pc = s.pc →
      (v.setPc u p).pc t ≠ s.pc t → u = t := by
    intro v u p hv hp
    by_contra hu
    rw [SendState.setPc_pc, hv, Function.update_of_ne (Ne.symm hu)] at hp
    exact hp rfl
  cases hs with
  | call hpc hlen hr =>
      cases hown rfl hne
      exact absurd hpc hbusy
  | skip hpc => rw [hown rfl hne]
  | checked hpc => rw [hown rfl hne]
  | acquire hpc ho => rw [hown (by rfl) hne]
  | park hpc hr => rw [hown (by rfl) hne]
  | refuse hpc hr => rw [hown rfl hne]
  | putLength hpc hq => rw [hown (by rfl) hne]
  | putPayload hpc hq => rw [hown (by rfl) hne]
  | wake hpc =>
      cases hown (by rfl) hne
      exact absurd (Function.update_self ..) (hout _ _)
  | signal hsignal hret ht hmem hpc =>
      cases hown (by rfl) hne
      exact absurd (Function.update_self ..) (hout _ _)
  | drain hidle hcount hr => exact absurd rfl hne
  | netLock hidle ho => exact absurd rfl hne
  | sendFail hsend => exact absurd rfl hne
  | sendZero hsend => exact absurd rfl hne
  | sendSome hsend hpos hle hbs => exact absurd rfl hne
  | quiet hsignal hno => exact absurd rfl hne

theorem refused_cases {a : SendAction} (hs : Stepped s a s') (h : Refused s s' t k) :
    a = .run t ∧ s' = s.setPc t .idle ∧
      (s.pc t = .check k ∨ s.pc t = .put k .payload ∧ capacity < k.buf.length) := by
  obtain ⟨hk, hidle, hsent⟩ := h
  have hbusy : s.pc t ≠ .idle := by
    intro hi
    rw [hi] at hk
    cases hk
  obtain rfl : a = .run t := by
    refine run_of_moved hs ?_ hbusy ?_
    · rw [hidle]
      exact hbusy.symm
    · intro l part hl
      rw [hidle] at hl
      cases hl
  have hin : ∀ {v : SendState} {p : SendPc}, (v.setPc t p).pc t = .idle → p = .idle := by
    intro v p hp
    rwa [SendState.setPc_pc, Function.update_self] at hp
  cases hs with
  | @skip t l hpc =>
      rw [hpc] at hk
      cases hk
      exact ⟨rfl, rfl, .inl hpc⟩
  | checked hpc => cases hin hidle
  | acquire hpc ho => cases hin hidle
  | park hpc hr => cases hin hidle
  | @refuse t l part hpc hr =>
      rw [hpc] at hk
      cases hk
      cases refuse_part hr
      exact ⟨rfl, rfl, .inr ⟨hpc, hr⟩⟩
  | putLength hpc hq => cases hin hidle
  | @putPayload t l q hpc hq =>
      rw [hpc] at hk
      cases hk
      rw [SendState.putPayload, SendState.setPc_client, SendState.setClient_client,
        Function.update_self] at hsent
      exact absurd (congrArg List.length hsent) (by simp)

theorem step_refuse (hpc : s.pc t = .put k .payload) (hlong : capacity < k.buf.length) :
    step s (.run t) = some (s.setPc t .idle) := by
  have hret : (s.client k.client).queue.enqueueData (k.bytes .payload) =
    some (-1, (s.client k.client).queue) := DataQueue.enqueueData_too_long hlong
  have hback : s.setClient k.client (s.client k.client) = s := by
    rw [SendState.setClient, Function.update_eq_self]
  simp only [step, runStep, hpc, putStep, hret, Option.map_some]
  rw [if_neg (by decide), if_pos trivial]
  exact congrArg (fun u => some (u.setPc t .idle)) hback

theorem passed {a : SendAction} (hstep : step s a = some s') (hpc : s.pc t = .check k)
    (hlock : s'.pc t = .lock k) :
    a = .run t ∧ unsafeFails (s.client k.client).queue k.buf.length = false := by
  obtain rfl : a = .run t := by
    refine run_of_moved (stepped hstep) ?_ ?_ ?_
    · rw [hpc, hlock]
      exact fun h => nomatch h
    · rw [hpc]
      exact fun h => nomatch h
    · rw [hlock]
      exact fun l part h => nomatch h
  refine ⟨rfl, ?_⟩
  by_contra hfails
  have hskip : some (s.setPc t .idle) = some s' := by
    rw [← hstep]
    simp only [step, runStep, hpc, Bool.of_not_eq_false hfails, if_true]
  cases hskip
  rw [SendState.setPc_pc, Function.update_self] at hlock
  cases hlock

theorem leavesNothing_iff {a : SendAction} (h : callsMachine.Run Measured s)
    (hstep : step s a = some s') : LeavesNothing s s' ↔ Measured s a := by
  obtain ⟨hlocks, hnum, hhold, hused⟩ := callsInv_run h
  have hs := stepped hstep
  have hcap := capacity_eq
  constructor
  · intro hl
    cases a with
    | run t =>
        show match s.pc t with
          | .check k => k.buf.length + 4 < 2 ^ 32 ∨
              (s.client k.client).queue.free + 2 ^ 32 < k.buf.length + 4
          | .put k .payload => k.buf.length ≤ capacity
          | _ => True
        split
        next k hpc =>
          by_contra hwrap
          have hlen : k.buf.length < 2 ^ 32 := (hnum.call t k (by rw [hpc]; rfl)).2
          have hfree := DataQueue.free_eq (hused k.client)
          have hmod : (k.buf.length + 4) % 2 ^ 32 = k.buf.length + 4 - 2 ^ 32 := by omega
          have hpass : unsafeFails (s.client k.client).queue k.buf.length = false := by
            rw [← Bool.not_eq_true, unsafeFails_iff_mod (hused _), hmod]
            omega
          have hmoved : step s (.run t) = some (s.setPc t (.lock k)) := by
            simp only [step, runStep, hpc, hpass, Bool.false_eq_true, if_false]
          rw [hmoved] at hstep
          cases hstep
          have hfits := hl.fits t k hpc (Function.update_self ..)
          omega
        next k hpc =>
          by_contra hlong
          rw [step_refuse hpc (Nat.lt_of_not_le hlong)] at hstep
          cases hstep
          obtain ⟨y, hy, hid⟩ := hnum.inside t k (by rw [hpc]; rfl)
          exact hl.entered t k ⟨by rw [hpc]; rfl, Function.update_self .., rfl⟩ y hy hid
        next => trivial
    | _ => trivial
  · intro hm
    have hcheck : ∀ t k, Refused s s' t k → s' = s.setPc t .idle ∧ s.pc t = .check k := by
      intro t k hr
      obtain ⟨rfl, hs', hpc | ⟨hpc, hlong⟩⟩ := refused_cases hs hr
      · exact ⟨hs', hpc⟩
      · have hle : k.buf.length ≤ capacity := by
          unfold Measured at hm
          simpa only [hpc] using hm
        exact absurd hlong (Nat.not_lt.mpr hle)
    constructor
    · intro t k hr
      obtain ⟨rfl, hpc⟩ := hcheck t k hr
      exact hnum.before t k hr.1 (by rw [hpc]; rfl)
    · intro t k hr
      obtain ⟨rfl, hpc⟩ := hcheck t k hr
      apply hhold.owner_ne
      intro l part hl
      rw [hpc] at hl
      cases hl
    · intro t k hpc hlock
      obtain ⟨rfl, hpass⟩ := passed hstep hpc hlock
      have hno : ¬(s.client k.client).queue.free < (k.buf.length + 4) % 2 ^ 32 := by
        rw [← unsafeFails_iff_mod (hused _), hpass]
        exact Bool.false_ne_true
      have hlen : k.buf.length < 2 ^ 32 := (hnum.call t k (by rw [hpc]; rfl)).2
      have hsum : k.buf.length + 4 < 2 ^ 32 ∨
          (s.client k.client).queue.free + 2 ^ 32 < k.buf.length + 4 := by
        unfold Measured at hm
        simpa only [hpc] using hm
      omega

end

theorem fresh_untouched : Untouched .fresh where
  idle := fun _ => rfl
  netIdle := rfl
  free := fun _ => ⟨rfl, rfl⟩
  entered := fun _ => rfl
  used := fun _ => DataQueue.used_le_capacity DataQueue.empty_wellFormed

theorem callsMachine_reachable (h : sendMachine.Reachable s) : callsMachine.Reachable s := by
  induction h with
  | start hs =>
      cases hs
      exact .start fresh_untouched
  | next _ _ hstep ih => exact .next ih trivial hstep

/-- A frame of ten megabytes and four bytes is refused by the check and leaves nothing. -/
theorem leavesNothing_full_ring : ∃ s s' k, callsMachine.Run Measured s ∧
    step s (.run 0) = some s' ∧ Refused s s' 0 k ∧
    (LeavesNothing s s' ↔ Measured s (.run 0)) := by
  obtain ⟨buf, hlen⟩ : ∃ buf : Bytes, buf.length = 10485760 :=
    ⟨List.replicate 10485760 0, List.length_replicate⟩
  have hcall : step .fresh (.call 0 0 buf false) =
      some ({ SendState.fresh with calls := 1 }.setPc 0 (.check ⟨0, 0, buf⟩)) := by
    have hshort : buf.length < 2 ^ 32 := by omega
    simp only [step, SendState.fresh, SendState.startAt, hshort]
    rfl
  have hrun : callsMachine.Run Measured
      ({ SendState.fresh with calls := 1 }.setPc 0 (.check ⟨0, 0, buf⟩)) :=
    .next (.start fresh_untouched) (show Measured _ (.call 0 0 buf false) from trivial) hcall
  have hfails : unsafeFails (SendState.fresh.client 0).queue buf.length = true := by
    rw [hlen]
    decide
  have hskip : step ({ SendState.fresh with calls := 1 }.setPc 0 (.check ⟨0, 0, buf⟩)) (.run 0) =
      some (({ SendState.fresh with calls := 1 }.setPc 0 (.check ⟨0, 0, buf⟩)).setPc 0 .idle) := by
    simp only [step, runStep, SendState.setPc_pc, Function.update_self, SendState.setPc_client,
      hfails, if_true]
  exact ⟨_, _, ⟨0, 0, buf⟩, hrun, hskip,
    ⟨rfl, rfl, rfl⟩, leavesNothing_iff hrun hskip⟩

/-- The length of a payload one byte longer than the ring stays in the queue, and the lock
stays taken. -/
theorem long_payload_leaves_length : ∃ s s' k, callsMachine.Reachable s ∧
    step s (.run 0) = some s' ∧ Refused s s' 0 k ∧ k.buf.length = 10485761 ∧
    (s'.client k.client).entered = k.marked .length ∧
    (s'.client k.client).queue.contents = be32 10485761 ∧
    (s'.client k.client).owner = some (.sender 0) ∧ ¬LeavesNothing s s' := by
  obtain ⟨buf, hlen⟩ : ∃ buf : Bytes, buf.length = 10485761 :=
    ⟨List.replicate 10485761 0, List.length_replicate⟩
  have hcap := capacity_eq
  obtain ⟨q, he, -, -, hc, -⟩ := @exec_length .fresh 0 0 buf
    rfl rfl rfl DataQueue.empty_wellFormed (by omega) (by decide) (by decide)
  have hreach : callsMachine.Reachable (SendState.fresh.begun 0 ⟨0, 0, buf⟩ q) :=
    callsMachine_reachable (Machine.Reachable.exec (.start rfl) he)
  have hpc : (SendState.fresh.begun 0 ⟨0, 0, buf⟩ q).pc 0 = .put ⟨0, 0, buf⟩ .payload := by simp
  have hstep := step_refuse hpc (show capacity < buf.length by omega)
  have hrefused : Refused (SendState.fresh.begun 0 ⟨0, 0, buf⟩ q)
      ((SendState.fresh.begun 0 ⟨0, 0, buf⟩ q).setPc 0 .idle) 0 ⟨0, 0, buf⟩ :=
    ⟨by rw [hpc]; rfl, by simp, rfl⟩
  have howner : (((SendState.fresh.begun 0 ⟨0, 0, buf⟩ q).setPc 0 .idle).client 0).owner =
      some (.sender 0) := by simp
  refine ⟨_, _, ⟨0, 0, buf⟩, hreach, hstep, hrefused, hlen, by simp; rfl, ?_, howner, ?_⟩
  · simp [hc, hlen]
    rfl
  · intro hl
    exact hl.unlocked 0 _ hrefused howner

end Hprd.Net

import Hprd.Net.SendFrames

/-!
# Waking a blocked sender

`_callback_senddata` signals only while its process-wide `time` is below ten, and
one signal wakes one thread. A sender is left waiting beside free space in no
state of a run whose signals after a drain are sent and find at most one waiter.
-/

namespace Hprd.Net

open Hprd.Core Common

/-- The network thread has drained a client's queue and not yet come to the signal. -/
def Draining (s : SendState) (c : Nat) : Prop := ∃ ret, s.net = .signal c ret ∧ 0 < ret

/-- No parked sender could enqueue what it waits for, outside the gap of a running drain. -/
def NobodyForgotten (s : SendState) : Prop :=
  ∀ t k part, s.pc t = .wait k part → ¬Draining s k.client →
    (s.client k.client).queue.free < (k.bytes part).length

/-- Buffers are not empty, and a signal step after a drain that removed bytes is below the
limit when somebody waits and has one waiter at most. -/
def SignalReaches (s : SendState) (a : SendAction) : Prop :=
  (∀ t c buf safe, a = .call t c buf safe → buf ≠ []) ∧
  (∀ woken c ret, a = .netSignal woken → s.net = .signal c ret → 0 < ret →
    (s.client c).waiters.length ≤ 1 ∧ ((s.client c).waiters ≠ [] → s.time < 10))

structure WakeInv (s : SendState) : Prop where
  inv : SendInv s
  filled : ∀ t k, (s.pc t).call = some k → k.buf ≠ []
  served : NobodyForgotten s

theorem ofNat_pos {n : Nat} (hpos : 0 < n) (hle : n ≤ capacity) : 0 < Int32.ofNat n := by
  rw [capacity_eq] at hle
  rw [Int32.lt_iff_toInt_lt, Int32.toInt_ofNat_of_lt (by omega)]
  have h0 : (0 : Int32).toInt = 0 := rfl
  omega

section

variable {s s' : SendState} {a : SendAction} {t : Nat} {k : SendCall} {part : Part}

theorem filled_step
    (h : ∀ t k, (s.pc t).call = some k → k.buf ≠ []) (hok : SignalReaches s a)
    (hs : Stepped s a s') : ∀ t k, (s'.pc t).call = some k → k.buf ≠ [] := by
  have hset : ∀ (s₀ : SendState) (t : Nat) (p : SendPc), s₀.pc = s.pc →
      (∀ k, p.call = some k → k.buf ≠ []) →
      ∀ u k, ((s₀.setPc t p).pc u).call = some k → k.buf ≠ [] := by
    intro s₀ t p hpc hp u k hk
    by_cases hu : u = t
    · subst hu
      simp at hk
      exact hp k hk
    · simp [hu, hpc] at hk
      exact h u k hk
  cases hs with
  | @call t c buf safe hpc hlen hr =>
      refine hset _ t _ rfl fun k hk => ?_
      have hb := hok.1 t c buf safe rfl
      cases safe <;> cases hk <;> exact hb
  | skip hpc => exact hset _ _ _ rfl fun k hk => by cases hk
  | @checked t k hpc => exact hset _ _ _ rfl fun l hl => by cases hl; exact h t k (by rw [hpc]; rfl)
  | @acquire t k part hpc ho =>
      refine hset _ _ _ rfl fun l hl => ?_
      cases hl
      rcases hpc with ⟨hpc, -⟩ | hpc
      · exact h t k (by rw [hpc]; rfl)
      · exact h t k (by rw [hpc]; rfl)
  | @park t k part hpc hr =>
      exact hset _ _ _ rfl fun l hl => by cases hl; exact h t k (by rw [hpc]; rfl)
  | refuse hpc hlong => exact hset _ _ _ rfl fun k hk => by cases hk
  | @putLength t k q hpc hq =>
      exact hset _ _ _ rfl fun l hl => by cases hl; exact h t k (by rw [hpc]; rfl)
  | putPayload hpc hq => exact hset _ _ _ rfl fun k hk => by cases hk
  | @wake t k part hpc =>
      exact hset _ _ _ rfl fun l hl => by cases hl; exact h t k (by rw [hpc]; rfl)
  | drain hnet hc hr => exact h
  | netLock hnet ho => exact h
  | sendFail hnet => exact h
  | sendZero hnet => exact h
  | sendSome hnet hpos hn hbs => exact h
  | quiet hnet hno => exact h
  | @signal c ret t k part hnet hret ht hmem hpc =>
      exact hset _ _ _ rfl fun l hl => by cases hl; exact h t k (by rw [hpc]; rfl)

theorem wait_of_update {pc : Nat → SendPc} {u : Nat} {p : SendPc}
    (hp : ∀ k part, p ≠ .wait k part) (hw : Function.update pc u p t = .wait k part) :
    t ≠ u ∧ pc t = .wait k part := by
  by_cases ht : t = u
  · rw [ht, Function.update_self] at hw
    exact absurd hw (hp k part)
  · rw [Function.update_of_ne ht] at hw
    exact ⟨ht, hw⟩

/-- A thread waits after a step where it waited before or has just found the queue too full. -/
theorem wait_step (hs : Stepped s a s') (hw : s'.pc t = .wait k part) :
    s.pc t = .wait k part ∨ s' = s.park t k part ∧ s.pc t = .put k part ∧
      (k.bytes part = [] ∨ (s.client k.client).queue.free < (k.bytes part).length) := by
  cases hs with
  | @call u c buf safe hpc hlen hr =>
      refine .inl (wait_of_update ?_ hw).2
      cases safe <;> rintro _ _ ⟨⟩
  | skip hpc => exact .inl (wait_of_update (by rintro _ _ ⟨⟩) hw).2
  | checked hpc => exact .inl (wait_of_update (by rintro _ _ ⟨⟩) hw).2
  | acquire hpc ho => exact .inl (wait_of_update (by rintro _ _ ⟨⟩) hw).2
  | @park u l part' hpc hr =>
      by_cases ht : t = u
      · subst ht
        rw [SendState.park, SendState.setPc_pc, Function.update_self] at hw
        cases hw
        exact .inr ⟨rfl, hpc, hr.imp_right And.right⟩
      · rw [SendState.park, SendState.setPc_pc, Function.update_of_ne ht] at hw
        exact .inl hw
  | refuse hpc hlong => exact .inl (wait_of_update (by rintro _ _ ⟨⟩) hw).2
  | putLength hpc hq => exact .inl (wait_of_update (by rintro _ _ ⟨⟩) hw).2
  | putPayload hpc hq => exact .inl (wait_of_update (by rintro _ _ ⟨⟩) hw).2
  | wake hpc => exact .inl (wait_of_update (by rintro _ _ ⟨⟩) hw).2
  | drain hnet hc hr => exact .inl hw
  | netLock hnet ho => exact .inl hw
  | sendFail hnet => exact .inl hw
  | sendZero hnet => exact .inl hw
  | sendSome hnet hpos hn hbs => exact .inl hw
  | quiet hnet hno => exact .inl hw
  | signal hnet hret ht hmem hpc => exact .inl (wait_of_update (by rintro _ _ ⟨⟩) hw).2

/-- Only a drain frees space. -/
theorem free_step (hs : Stepped s a s') (c : Nat) :
    (s'.client c).queue.free ≤ (s.client c).queue.free ∨ Draining s' c := by
  have hset : ∀ {d} (x : SendClient), x.queue.free ≤ (s.client d).queue.free →
      ((s.setClient d x).client c).queue.free ≤ (s.client c).queue.free := by
    intro d x hx
    rw [SendState.setClient_client, Function.update_apply]
    split
    next hc => rw [hc]; exact hx
    next => exact Nat.le_refl _
  cases hs with
  | call hpc hlen hr => exact .inl (Nat.le_refl _)
  | skip hpc => exact .inl (Nat.le_refl _)
  | checked hpc => exact .inl (Nat.le_refl _)
  | acquire hpc ho => exact .inl (hset _ (Nat.le_refl _))
  | park hpc hr => exact .inl (hset _ (Nat.le_refl _))
  | refuse hpc hlong => exact .inl (Nat.le_refl _)
  | putLength hpc hq => exact .inl (hset _ (by rw [hq.free]; exact Nat.sub_le ..))
  | putPayload hpc hq => exact .inl (hset _ (by rw [hq.free]; exact Nat.sub_le ..))
  | wake hpc => exact .inl (hset _ (Nat.le_refl _))
  | drain hnet hc hr => exact .inl (Nat.le_refl _)
  | netLock hnet ho => exact .inl (hset _ (Nat.le_refl _))
  | sendFail hnet => exact .inl (hset _ (Nat.le_refl _))
  | sendZero hnet => exact .inl (hset _ (Nat.le_refl _))
  | @sendSome d n bs hnet hpos hn hbs =>
      by_cases hc : c = d
      · have hin := (DataQueue.copyOut_length hbs).2
        subst hc
        exact .inr ⟨_, rfl, ofNat_pos hpos (by omega)⟩
      · rw [SendState.drained, SendState.setClient_client, Function.update_of_ne hc]
        exact .inl (Nat.le_refl _)
  | quiet hnet hno => exact .inl (Nat.le_refl _)
  | signal hnet hret ht hmem hpc => exact .inl (hset _ (Nat.le_refl _))

/-- Only the signal ends the gap of a drain. -/
theorem draining_step (hs : Stepped s a s') {c : Nat} (h : Draining s c) :
    Draining s' c ∨ ∃ woken, a = .netSignal woken := by
  obtain ⟨ret, hnet, hret⟩ := h
  cases hs with
  | call hpc hlen hr => exact .inl ⟨ret, hnet, hret⟩
  | skip hpc => exact .inl ⟨ret, hnet, hret⟩
  | checked hpc => exact .inl ⟨ret, hnet, hret⟩
  | acquire hpc ho => exact .inl ⟨ret, hnet, hret⟩
  | park hpc hr => exact .inl ⟨ret, hnet, hret⟩
  | refuse hpc hlong => exact .inl ⟨ret, hnet, hret⟩
  | putLength hpc hq => exact .inl ⟨ret, hnet, hret⟩
  | putPayload hpc hq => exact .inl ⟨ret, hnet, hret⟩
  | wake hpc => exact .inl ⟨ret, hnet, hret⟩
  | drain hidle hc hr => cases hnet.symm.trans hidle
  | netLock hlock ho => cases hnet.symm.trans hlock
  | sendFail hsend => cases hnet.symm.trans hsend
  | sendZero hsend => cases hnet.symm.trans hsend
  | sendSome hsend hpos hn hbs => cases hnet.symm.trans hsend
  | quiet hsignal hno => exact .inr ⟨_, rfl⟩
  | signal hsignal hret ht hmem hpc => exact .inr ⟨_, rfl⟩

/-- After a drain, a signal that reaches its only waiter leaves nobody parked on the client. -/
theorem signal_reaches {woken : Option Nat} {c : Nat} (hi : SendInv s)
    (hok : SignalReaches s (.netSignal woken)) (hgap : Draining s c)
    (hs : Stepped s (.netSignal woken) s') (hw : s'.pc t = .wait k part) : k.client ≠ c := by
  obtain ⟨ret, hnet, hret⟩ := hgap
  rintro rfl
  have hmem : ∀ {u l q}, s.pc u = .wait l q → u ∈ (s.client l.client).waiters :=
    fun hu => (hi.parked _ _).mpr ⟨_, _, hu, rfl⟩
  obtain ⟨hone, htime⟩ := hok.2 woken _ ret rfl hnet hret
  cases hs with
  | quiet hsignal hno =>
      cases hnet.symm.trans hsignal
      have hne := List.ne_nil_of_mem (hmem hw)
      exact hno ⟨hret, htime hne, hne⟩
  | @signal c ret u l part' hsignal hpos ht hwoken hpc =>
      cases hnet.symm.trans hsignal
      obtain ⟨htu, hwas⟩ := wait_of_update (by rintro _ _ ⟨⟩) hw
      obtain ⟨w, honly⟩ := List.length_eq_one_iff.mp
        (Nat.le_antisymm hone (List.length_pos_of_mem hwoken))
      have ht' := hmem hwas
      rw [honly, List.mem_singleton] at hwoken ht'
      exact htu (ht'.trans hwoken.symm)

theorem served_step (h : WakeInv s) (hok : SignalReaches s a) (hs : Stepped s a s') :
    NobodyForgotten s' := by
  intro t k part hw hd
  rcases wait_step hs hw with hwas | ⟨rfl, hpc, hfull⟩
  · refine Nat.lt_of_le_of_lt ((free_step hs k.client).resolve_right hd) ?_
    refine h.served t k part hwas fun hgap => ?_
    rcases draining_step hs hgap with hgap' | ⟨woken, rfl⟩
    · exact hd hgap'
    · exact signal_reaches h.inv hok hgap hs hw rfl
  · have hne := bytes_ne_nil (h.filled t k (by rw [hpc]; rfl)) part
    rw [SendState.park, SendState.setPc_client, SendState.setClient_client, Function.update_self]
    exact hfull.resolve_left hne

theorem wakeInv_step (h : WakeInv s) (hok : SignalReaches s a) (hs : Stepped s a s') :
    WakeInv s' where
  inv := sendInv_step h.inv hs
  filled := filled_step h.filled hok hs
  served := served_step h hok hs

end

/-! ## Whole runs -/

theorem wakeInv_fresh : WakeInv .fresh where
  inv := sendInv_fresh
  filled := fun _ _ hk => by cases hk
  served := fun _ _ _ hw => by cases hw

/-- Nobody is forgotten in a run whose signals after a drain reach their only waiter. -/
theorem nobodyForgotten_of_signalReaches {s : SendState} (h : sendMachine.Run SignalReaches s) :
    NobodyForgotten s := by
  have hinv : WakeInv s := by
    refine Machine.Run.invariant ?_ ?_ h
    · rintro s rfl
      exact wakeInv_fresh
    · intro s a t hs hok hstep
      exact wakeInv_step hs hok (stepped hstep)
  exact hinv.served

/-! ## A woken and a forgotten sender -/

/-- The queue beside which a thread is parked gives a thousand bytes to a `send`. -/
theorem parked_drain {q : DataQueue} (hwf : q.WellFormed) (hu : q.used = 10485756)
    (hh : q.bufferHead.toNat = 10485756) :
    0 < q.getQueueDataCount ∧ ((1000 : Nat) : Int) ≤ q.queueGetEndDataCount.toInt ∧
      q.queueGetReadPtr + 1000 ≤ capacity ∧
      ∃ q', (q.queueTailPointForward (UInt64.ofNat 1000)).2 = q' ∧ q'.WellFormed ∧
        q'.free = 1004 ∧ q'.bufferHead = q.bufferHead := by
  have hcap := capacity_eq
  have htail : q.bufferTail.toNat = 0 := by
    have hused := DataQueue.used_eq hwf
    have hord := hwf.ordered
    omega
  have hthousand : (UInt64.ofNat 1000).toNat = 1000 := rfl
  have h0 : (0 : Int32).toInt = 0 := rfl
  refine ⟨?_, ?_, ?_, ?_⟩
  · have hcount : q.getQueueDataCount.toInt = q.used :=
      DataQueue.getQueueDataCount_toInt (by omega)
    rw [Int32.lt_iff_toInt_lt, hcount]
    omega
  · rw [DataQueue.queueGetEndDataCount_toInt (by omega), htail, Nat.zero_mod]
    omega
  · rw [DataQueue.queueGetReadPtr_eq, htail, Nat.zero_mod]
    omega
  · have hskip := (@DataQueue.contents_skip q (UInt64.ofNat 1000) (by omega)).2
    rw [DataQueue.queueTailPointForward_used (by omega) (by omega)]
    have hwf' := (@DataQueue.wellFormed_skip q hwf (UInt64.ofNat 1000) (by omega)).1
    generalize UInt64.ofNat 1000 = len at *
    refine ⟨q.skip len, rfl, hwf', ?_, rfl⟩
    rw [DataQueue.free_eq (by omega)]
    omega

/-- One `_callback_senddata` whose `send` would block. -/
def failingDrain (c : Nat) : List SendAction :=
  [.drain c, .netLock, .netSend .fail, .netSignal none]

theorem exec_drain_lock {s : SendState} {c : Nat} (hnet : s.net = .idle)
    (ho : (s.client c).owner = none) (hr : (s.client c).removed = false)
    (hdata : 0 < (s.client c).queue.getQueueDataCount) :
    sendMachine.exec s [.drain c, .netLock] =
      some { s.setClient c { s.client c with owner := some .net } with net := .send c } := by
  have e₁ : sendMachine.step s (.drain c) = some { s with net := .lock c } := by
    show step s (.drain c) = _
    simp only [step, hnet, hdata, hr]
    rfl
  have e₂ : sendMachine.step { s with net := .lock c } .netLock =
      some { s.setClient c { s.client c with owner := some .net } with net := .send c } := by
    show step { s with net := .lock c } .netLock = _
    simp only [step, ho]
    rfl
  rw [Machine.exec_cons e₁, Machine.exec_cons e₂, Machine.exec]

theorem exec_failingDrain {s : SendState} {c : Nat} (hnet : s.net = .idle)
    (ho : (s.client c).owner = none) (hr : (s.client c).removed = false)
    (hdata : 0 < (s.client c).queue.getQueueDataCount) :
    sendMachine.exec s (failingDrain c) = some { s with time := s.time + 1 } := by
  have e₃ : sendMachine.step { s.setClient c { s.client c with owner := some .net } with
      net := .send c } (.netSend .fail) = some { s with net := .signal c (-1) } := by
    have hback : Function.update (Function.update s.client c
        { s.client c with owner := some .net }) c { s.client c with owner := none } = s.client := by
      rw [Function.update_idem, ← ho, Function.update_eq_self]
    show some _ = some _
    simp only [SendState.setClient, Function.update_self, hback]
  have e₄ : sendMachine.step { s with net := .signal c (-1) } (.netSignal none) =
      some { s with time := s.time + 1 } := by
    have hneg : ¬(0 < (-1 : Int32) ∧ s.time < 10 ∧ (s.client c).waiters ≠ []) := by
      rintro ⟨hpos, -⟩
      revert hpos
      decide
    show signalStep { s with net := .signal c (-1) } c (-1) none = _
    rw [signalStep, if_neg hneg, if_pos rfl, hnet]
  have hsplit : failingDrain c = [.drain c, .netLock] ++ [.netSend .fail, .netSignal none] := rfl
  rw [hsplit, Machine.exec_append, exec_drain_lock hnet ho hr hdata, Option.bind_some,
    Machine.exec_cons e₃, Machine.exec_cons e₄, Machine.exec]

theorem exec_drained {s : SendState} {c n : Nat} (hnet : s.net = .idle)
    (ho : (s.client c).owner = none) (hr : (s.client c).removed = false) (hpos : 0 < n)
    (hdata : 0 < (s.client c).queue.getQueueDataCount)
    (hn : (n : Int) ≤ (s.client c).queue.queueGetEndDataCount.toInt)
    (hend : (s.client c).queue.queueGetReadPtr + n ≤ capacity) :
    ∃ s' bs, sendMachine.exec s [.drain c, .netLock, .netSend (.some n)] = some s' ∧
      s'.pc = s.pc ∧ s'.net = .signal c (Int32.ofNat n) ∧ s'.time = s.time ∧ bs.length = n ∧
      s'.client c = { s.client c with
        queue := ((s.client c).queue.queueTailPointForward (UInt64.ofNat n)).2,
        wire := (s.client c).wire ++ bs } := by
  let s₂ : SendState :=
    { s.setClient c { s.client c with owner := some .net } with net := .send c }
  have hx : s₂.client c = { s.client c with owner := some .net } := by simp [s₂]
  let bs := Ring.block (s.client c).queue.bufferQueue (s.client c).queue.queueGetReadPtr n
  have e₃ : sendMachine.step s₂ (.netSend (.some n)) = some (s₂.drained c n bs) := by
    show sendStep s₂ c (.some n) = _
    have hn' : (n : Int) ≤ (s₂.client c).queue.queueGetEndDataCount.toInt := by rw [hx]; exact hn
    have hcopy : (s₂.client c).queue.copyOut (s₂.client c).queue.queueGetReadPtr n =
        some bs := by
      rw [hx]
      exact DataQueue.copyOut_eq hend
    simp only [sendStep, hn', if_true, Nat.pos_iff_ne_zero.mp hpos, if_false, hcopy]
    rfl
  have hsplit : [SendAction.drain c, .netLock, .netSend (.some n)] =
      [.drain c, .netLock] ++ [.netSend (.some n)] := rfl
  refine ⟨s₂.drained c n bs, bs, ?_, rfl, rfl, rfl, Ring.block_length .., ?_⟩
  · rw [hsplit, Machine.exec_append, exec_drain_lock hnet ho hr hdata, Option.bind_some,
      Machine.exec_cons e₃, Machine.exec]
  · simp [SendState.drained, hx, ho]

theorem step_signal {s : SendState} {c t : Nat} {ret : Int32} {k : SendCall} {part : Part}
    (hnet : s.net = .signal c ret) (hret : 0 < ret) (htime : s.time < 10)
    (hmem : t ∈ (s.client c).waiters) (hpc : s.pc t = .wait k part) :
    sendMachine.step s (.netSignal (some t)) =
      some ({ s with time := s.time + 1, net := .idle }.unpark t k part) := by
  have hgo : 0 < ret ∧ s.time < 10 ∧ (s.client c).waiters ≠ [] :=
    ⟨hret, htime, List.ne_nil_of_mem hmem⟩
  show step s (.netSignal (some t)) = _
  simp only [step, hnet, signalStep, hgo, not_false_eq_true, ne_eq, and_self, if_true, hmem,
    wakeStep, hpc]
  rfl

theorem step_relock {s : SendState} {t : Nat} {k : SendCall} {part : Part}
    (hpc : s.pc t = .relock k part) (ho : (s.client k.client).owner = none) :
    sendMachine.step s (.run t) = some (s.acquire t k part) := by
  show step s (.run t) = _
  simp only [step, runStep, hpc, lockStep, ho, if_true]
  rfl

/-- Once `time` has reached ten a drain signals nobody. -/
theorem step_silent {s : SendState} {c : Nat} {ret : Int32} (hnet : s.net = .signal c ret)
    (htime : ¬s.time < 10) :
    sendMachine.step s (.netSignal none) = some { s with time := s.time + 1, net := .idle } := by
  have hno : ¬(0 < ret ∧ s.time < 10 ∧ (s.client c).waiters ≠ []) := fun h => htime h.2.1
  show step s (.netSignal none) = _
  simp only [step, hnet]
  exact (if_neg hno).trans (if_pos rfl)

/-- Drains whose `send` would block use up the signals of the whole process. -/
theorem reachable_failingDrains {s : SendState} {c : Nat} (h : sendMachine.Reachable s)
    (hnet : s.net = .idle) (ho : (s.client c).owner = none)
    (hr : (s.client c).removed = false) (hdata : 0 < (s.client c).queue.getQueueDataCount)
    (n : Nat) : sendMachine.Reachable { s with time := s.time + Int32.ofNat n } := by
  induction n with
  | zero =>
      have hzero : s.time + Int32.ofNat 0 = s.time := by simp
      rw [hzero]
      exact h
  | succ n ih =>
      have hnext := ih.exec (exec_failingDrain hnet ho hr hdata)
      simp only [Int32.add_assoc] at hnext
      rw [Int32.ofNat_add]
      exact hnext

theorem signalReaches_of {s : SendState} {a : SendAction}
    (hcall : ∀ t c buf safe, a = .call t c buf safe → buf ≠ [])
    (hsignal : ∀ woken, a ≠ .netSignal woken) : SignalReaches s a :=
  ⟨hcall, fun woken _ _ ha => absurd ha (hsignal woken)⟩

/-- A thread parks behind its length, a drain of a thousand bytes signals it, and it enters its
payload. -/
theorem nobodyForgotten_parkAndWake : ∃ s s' b,
    sendMachine.Run SignalReaches s ∧ s.pc 1 = .wait ⟨1, 0, b⟩ .payload ∧ NobodyForgotten s ∧
    sendMachine.Run SignalReaches s' ∧ s'.pc 1 = .idle ∧ (s'.client 0).wire.length = 1000 ∧
    (s'.client 0).sent.map SendCall.id = [0, 1] ∧ NobodyForgotten s' := by
  obtain ⟨s, buf, b, q, e, hlen, hb, hpc, hnet, htime, -, hx, hwf, hu, hh⟩ := exists_parked
  obtain ⟨hdata, hn, hend, q', hq', hwf', hroom, hhead⟩ := parked_drain hwf hu hh
  have hne : ∀ {bs : Bytes} {n : Nat}, bs.length = n + 1 → bs ≠ [] := by
    rintro bs n hbs rfl
    cases hbs
  have hrun : sendMachine.Run SignalReaches s := by
    refine Machine.Run.exec (.start rfl) (fun a ha s => signalReaches_of ?_ ?_) e
    · rintro t c bs safe rfl
      simp [parkingCalls] at ha
      rcases ha with ⟨-, -, rfl, -⟩ | ⟨-, -, rfl, -⟩
      · exact hne hlen
      · exact hne hb
    · rintro woken rfl
      simp [parkingCalls] at ha
  obtain ⟨s₁, bs, e₁, hpc₁, hnet₁, htime₁, hbs, hx₁⟩ := exec_drained (c := 0) (n := 1000) (s := s)
    hnet (by rw [hx]) (by rw [hx]) (by decide) (by rw [hx]; exact hdata) (by rw [hx]; exact hn)
    (by rw [hx]; exact hend)
  rw [hx, hq'] at hx₁
  have hrun₁ : sendMachine.Run SignalReaches s₁ := by
    refine hrun.exec (fun a ha s => signalReaches_of ?_ ?_) e₁
    · rintro t c bs safe rfl
      simp at ha
    · rintro woken rfl
      simp at ha
  -- the signal finds its only waiter, and `time` is zero
  have hreaches : SignalReaches s₁ (.netSignal (some 1)) := by
    refine ⟨?_, fun _ c ret _ hc _ => ?_⟩
    · rintro t c bs safe ⟨⟩
    cases hnet₁.symm.trans hc
    rw [hx₁, htime₁, htime]
    exact ⟨Nat.le_refl _, fun _ => by decide⟩
  have e₂ := step_signal hnet₁ (by decide) (by rw [htime₁, htime]; decide)
    (show 1 ∈ (s₁.client 0).waiters by rw [hx₁]; exact List.mem_singleton_self 1)
    (show s₁.pc 1 = .wait ⟨1, 0, b⟩ .payload by rw [hpc₁, hpc, Function.update_self])
  generalize hs₂ : SendState.unpark { s₁ with time := s₁.time + 1, net := .idle } 1 ⟨1, 0, b⟩
    .payload = s₂ at e₂
  have hx₂ : s₂.client 0 = { s₁.client 0 with waiters := [] } := by
    rw [← hs₂]
    simp [SendState.unpark, hx₁]
  have e₃ := @step_relock s₂ 1 ⟨1, 0, b⟩ .payload
    (by rw [← hs₂]; simp [SendState.unpark]) (by rw [hx₂, hx₁])
  obtain ⟨q₃, hq₃, -⟩ := DataQueue.Enqueued.of_room hwf' (hne hb) (by omega) (by rw [hhead]; omega)
  have e₄ := step_putPayload (s := s₂.acquire 1 ⟨1, 0, b⟩ .payload) (t := 1) (k := ⟨1, 0, b⟩)
    (q := q₃) (by simp [SendState.acquire]) (by simpa [SendState.acquire, hx₂, hx₁] using hq₃)
  have hturn : ∀ s, SignalReaches s (.run 1) := by
    intro s
    refine signalReaches_of ?_ ?_
    · rintro t c bs safe ⟨⟩
    · rintro woken ⟨⟩
  have hrun₃ := ((hrun₁.next hreaches e₂).next (hturn _) e₃).next (hturn _) e₄
  refine ⟨s, _, b, hrun, by rw [hpc, Function.update_self],
    nobodyForgotten_of_signalReaches hrun, hrun₃, ?_, ?_, ?_, nobodyForgotten_of_signalReaches hrun₃⟩
  · simp [SendState.putPayload]
  · simp [SendState.putPayload, SendState.acquire, hx₂, hx₁, hbs]
  · simp [SendState.putPayload, SendState.acquire, hx₂, hx₁]

/-- After ten drains without progress, one that removes a thousand bytes wakes nobody. -/
theorem sender_forgotten : ∃ s, sendMachine.Reachable s ∧ ¬NobodyForgotten s := by
  obtain ⟨s, buf, b, q, e, -, hb, hpc, hnet, htime, -, hx, hwf, hu, hh⟩ := exists_parked
  obtain ⟨hdata, hn, hend, q', hq', -, hroom, -⟩ := parked_drain hwf hu hh
  have hdata' : 0 < (s.client 0).queue.getQueueDataCount := by rw [hx]; exact hdata
  have hreach := reachable_failingDrains (Machine.Reachable.exec (.start rfl) e) hnet (by rw [hx])
    (by rw [hx]) hdata' 10
  generalize hs₁ : ({ s with time := s.time + Int32.ofNat 10 } : SendState) = s₁ at hreach
  have hx₁ : s₁.client 0 = s.client 0 := by rw [← hs₁]
  rw [hx] at hx₁
  obtain ⟨s₂, bs, e₂, hpc₂, hnet₂, htime₂, -, hx₂⟩ := exec_drained (c := 0) (n := 1000) (s := s₁)
    (by rw [← hs₁]; exact hnet) (by rw [hx₁]) (by rw [hx₁]) (by decide) (by rw [hx₁]; exact hdata)
    (by rw [hx₁]; exact hn) (by rw [hx₁]; exact hend)
  have hlate : ¬s₂.time < 10 := by
    rw [htime₂, ← hs₁, htime]
    show ¬(0 : Int32) + Int32.ofNat 10 < 10
    decide
  refine ⟨_, .next (hreach.exec e₂) trivial (step_silent hnet₂ hlate), fun hall => ?_⟩
  have hforgot := hall 1 ⟨1, 0, b⟩ .payload
    (by show s₂.pc 1 = _; rw [hpc₂, ← hs₁, hpc]; rfl) (by rintro ⟨ret, ⟨⟩, -⟩)
  have hlen : (SendCall.bytes ⟨1, 0, b⟩ .payload).length = 20 := hb
  change (s₂.client 0).queue.free < _ at hforgot
  rw [hx₂, hx₁, hq', hroom, hlen] at hforgot
  omega

end Hprd.Net

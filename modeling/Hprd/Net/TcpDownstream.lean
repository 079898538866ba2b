import Hprd.Net.SendFrames
import Hprd.Net.TcpClient

/-!
# From `tcp_send_data_safe` to the client's callback

Calls on one client that do not overlap, in a ring whose counters start anywhere:
what the network thread has sent and what the queue still holds are together the
frames of the calls. `_tcp_recv_pkt` then calls back with their payloads as far as
the bytes have come, as long as the counters have not gone past 2^64.
-/

namespace Hprd.Net

open Hprd.Core Common

/-- The send path with the ring counters of every queue at `start` and any bytes in the ring. -/
def ringMachine (start : UInt64) : Machine SendState SendAction where
  init s := ∃ mem, s = .startAt mem start
  step := step

/-- A call on client `c` finds no other one there, and its packet has 1 to `BUFLEN` bytes. -/
def OneAtATime (c : Nat) (s : SendState) (a : SendAction) : Prop :=
  ∀ t buf safe, a = .call t c buf safe →
    (∀ u k, (s.pc u).call = some k → k.client ≠ c) ∧ 0 < buf.length ∧ buf.length ≤ bufLen

/-- One thread at most is in a call on `c`, and where a sender has the lock it is at an
`enqueue_data` there. -/
structure Solo (c : Nat) (s : SendState) : Prop where
  single : ∀ t u k l, (s.pc t).call = some k → (s.pc u).call = some l → k.client = c →
    l.client = c → t = u
  size : ∀ t k, (s.pc t).call = some k → k.client = c → 0 < k.buf.length ∧ k.buf.length ≤ bufLen
  held : ∀ t, (s.client c).owner = some (.sender t) →
    ∃ k part, s.pc t = .put k part ∧ k.client = c
  sent : ∀ k ∈ (s.client c).sent, 0 < k.buf.length ∧ k.buf.length ≤ bufLen

/-- What was sent and what is still in the ring are the bytes that were enqueued. -/
structure RingInv (start : UInt64) (c : Nat) (s : SendState) : Prop where
  wellFormed : (s.client c).queue.WellFormed
  bytes : (s.client c).wire ++ (s.client c).queue.contents = (s.client c).entered.map Prod.snd
  head : (s.client c).queue.bufferHead.toNat = start.toNat + (s.client c).entered.length

/-! ## One step -/

section

variable {s s' : SendState} {t c : Nat} {p : SendPc}

theorem Solo.sender_step (h : Solo c s) (hheld : HoldsAt c s')
    (hpc : s'.pc = Function.update s.pc t p)
    (hcall : ∀ k, p.call = some k → k.client = c →
      (∀ u l, u ≠ t → (s.pc u).call = some l → l.client ≠ c) ∧
        0 < k.buf.length ∧ k.buf.length ≤ bufLen)
    (hsent : ∀ k ∈ (s'.client c).sent, 0 < k.buf.length ∧ k.buf.length ≤ bufLen) : Solo c s' := by
  have hself : ∀ {u k}, u = t → (s'.pc u).call = some k → p.call = some k := by
    rintro u k rfl hu
    rwa [hpc, Function.update_self] at hu
  have hother : ∀ {u}, u ≠ t → s'.pc u = s.pc u := fun hu => by
    rw [hpc, Function.update_of_ne hu]
  constructor
  case single =>
    intro u v k l hu hv hk hl
    by_cases hut : u = t
    · by_cases hvt : v = t
      · rw [hut, hvt]
      · rw [hother hvt] at hv
        exact absurd hl ((hcall k (hself hut hu) hk).1 v l hvt hv)
    · rw [hother hut] at hu
      by_cases hvt : v = t
      · exact absurd hk ((hcall l (hself hvt hv) hl).1 u k hut hu)
      · rw [hother hvt] at hv
        exact h.single u v k l hu hv hk hl
  case size =>
    intro u k hu hk
    by_cases hut : u = t
    · exact (hcall k (hself hut hu) hk).2
    · rw [hother hut] at hu
      exact h.size u k hu hk
  case held => exact hheld
  case sent => exact hsent

theorem Solo.move (h : Solo c s) (hheld : HoldsAt c s') (hpc : s'.pc = Function.update s.pc t p)
    (hcall : ∀ k, p.call = some k → (s.pc t).call = some k)
    (hsent : (s'.client c).sent = (s.client c).sent) : Solo c s' := by
  refine h.sender_step hheld hpc (fun k hk hc => ⟨?_, h.size t k (hcall k hk) hc⟩) ?_
  · exact fun u l hut hl hlc => hut (h.single u t l k hl (hcall k hk) hlc hc)
  · rw [hsent]
    exact h.sent

theorem Solo.net_step (h : Solo c s) (hheld : HoldsAt c s') (hpc : s'.pc = s.pc)
    (hsent : (s'.client c).sent = (s.client c).sent) : Solo c s' := by
  constructor
  case single =>
    rw [hpc]
    exact h.single
  case size =>
    rw [hpc]
    exact h.size
  case held => exact hheld
  case sent =>
    rw [hsent]
    exact h.sent

theorem solo_step {a : SendAction} (h : Solo c s) (hok : OneAtATime c s a)
    (hs : Stepped s a s') : Solo c s' := by
  have hheld : HoldsAt c s' := by
    refine holdsAt_step h.held ?_ hs
    intro t k part hpc _ hc
    have hmax := (h.size t k (by rw [hpc]; rfl) hc).2
    have hcap := capacity_eq
    have hbuf := bufLen_eq
    exact bytes_length_le (by omega) part
  have hcalling : ∀ {t k} {p : SendPc}, s.pc t = p → p.call = some k →
      ∀ l, some k = some l → (s.pc t).call = some l := by
    rintro t k p rfl hk l hl
    exact hk.trans hl
  cases hs with
  | @call t d buf safe hpc hlen hr =>
      refine h.sender_step hheld rfl ?_ h.sent
      intro l hl hlc
      have hnew : l = ⟨s.calls, d, buf⟩ := by
        cases safe <;> exact (Option.some.inj hl).symm
      rw [hnew] at hlc ⊢
      obtain ⟨hone, hsize⟩ := hok t buf safe (congrArg (SendAction.call t · buf safe) hlc)
      exact ⟨fun u k _ => hone u k, hsize⟩
  | skip hpc => exact h.move hheld rfl nofun rfl
  | checked hpc => exact h.move hheld rfl (hcalling hpc rfl) rfl
  | acquire hpc ho =>
      refine h.move hheld rfl ?_ (member_update_same SendClient.sent (by rfl) c)
      rcases hpc with ⟨hpc, -⟩ | hpc
      · exact hcalling hpc rfl
      · exact hcalling hpc rfl
  | park hpc hr =>
      exact h.move hheld rfl (hcalling hpc rfl) (member_update_same SendClient.sent (by rfl) c)
  | refuse hpc hlong => exact h.move hheld rfl nofun rfl
  | putLength hpc hq =>
      exact h.move hheld rfl (hcalling hpc rfl) (member_update_same SendClient.sent (by rfl) c)
  | @putPayload t k q hpc hq =>
      refine h.sender_step hheld rfl nofun ?_
      intro l hl
      by_cases hc : c = k.client
      · have hsame : ((s.putPayload t k q).client k.client).sent =
            (s.client k.client).sent ++ [k] := member_update SendClient.sent
        rw [hc, hsame] at hl
        rcases List.mem_append.mp hl with hl | hl
        · exact h.sent l (hc ▸ hl)
        · cases List.mem_singleton.mp hl
          exact h.size t k (by rw [hpc]; rfl) hc.symm
      · have hsame : (s.putPayload t k q).client c = s.client c := Function.update_of_ne hc ..
        exact h.sent l (hsame ▸ hl)
  | wake hpc =>
      exact h.move hheld rfl (hcalling hpc rfl) (member_update_same SendClient.sent (by rfl) c)
  | drain hnet hc hr => exact h.net_step hheld rfl rfl
  | netLock hnet ho => exact h.net_step hheld rfl (member_update_same SendClient.sent (by rfl) c)
  | sendFail hnet => exact h.net_step hheld rfl (member_update_same SendClient.sent (by rfl) c)
  | sendZero hnet => exact h.net_step hheld rfl (member_update_same SendClient.sent (by rfl) c)
  | sendSome hnet hpos hn hbs =>
      exact h.net_step hheld rfl (member_update_same SendClient.sent (by rfl) c)
  | quiet hnet hno => exact h.net_step hheld rfl rfl
  | signal hnet hret ht hmem hpc =>
      exact h.move hheld rfl (hcalling hpc rfl) (member_update_same SendClient.sent (by rfl) c)

end

/-- One call at a time leaves no other call in the middle of its frame. -/
theorem Solo.lengthAlone {s : SendState} {c : Nat} (h : Solo c s) (a : SendAction) :
    LengthAloneOn c s a := by
  intro t k _ hpc hk _ u l hl hlc
  cases h.single t u k l (by rw [hpc]; rfl) (call_of_midFrame hl) hk hlc
  rw [hpc] at hl
  cases hl

theorem RingInv.congr {start : UInt64} {c : Nat} {s s' : SendState} (h : RingInv start c s)
    (hq : (s'.client c).queue = (s.client c).queue) (hw : (s'.client c).wire = (s.client c).wire)
    (he : (s'.client c).entered = (s.client c).entered) : RingInv start c s' := by
  obtain ⟨hwf, hb, hh⟩ := h
  rw [← hq] at hwf hb hh
  rw [← hw, ← he] at hb
  rw [← he] at hh
  exact ⟨hwf, hb, hh⟩

theorem RingInv.update {start : UInt64} {c d : Nat} {s s' : SendState} {x : SendClient}
    (h : RingInv start c s) (hclient : s'.client = Function.update s.client d x)
    (hq : x.queue = (s.client d).queue) (hw : x.wire = (s.client d).wire)
    (he : x.entered = (s.client d).entered) : RingInv start c s' := by
  refine h.congr ?_ ?_ ?_
  · rw [hclient]
    exact member_update_same SendClient.queue hq c
  · rw [hclient]
    exact member_update_same SendClient.wire hw c
  · rw [hclient]
    exact member_update_same SendClient.entered he c

theorem marked_length (k : SendCall) (part : Part) :
    (k.marked part).length = (k.bytes part).length := List.length_map _

theorem marked_map_snd (k : SendCall) (part : Part) :
    (k.marked part).map Prod.snd = k.bytes part := by
  simp [SendCall.marked, Function.comp_def]

theorem ringInv_put {start : UInt64} {s s' : SendState} {k : SendCall} (part : Part)
    {q : DataQueue} (h : RingInv start k.client s)
    (hq : (s.client k.client).queue.Enqueued (k.bytes part) q)
    (hqueue : (s'.client k.client).queue = q)
    (hwire : (s'.client k.client).wire = (s.client k.client).wire)
    (hent : (s'.client k.client).entered = (s.client k.client).entered ++ k.marked part)
    (hcount : start.toNat + (s'.client k.client).entered.length < 2 ^ 64) :
    RingInv start k.client s' := by
  obtain ⟨hwf, hb, hh⟩ := h
  rw [hent, List.length_append, marked_length] at hcount
  obtain ⟨hwf', hc', hh'⟩ := hq.contents hwf (by omega)
  refine ⟨by rw [hqueue]; exact hwf', ?_, ?_⟩
  · rw [hwire, hqueue, hent, hc', List.map_append, marked_map_snd, ← hb, List.append_assoc]
  · rw [hqueue, hent, hh', hh, List.length_append, marked_length, Nat.add_assoc]

theorem ringInv_step {start : UInt64} {s s' : SendState} {a : SendAction} {c : Nat}
    (h : RingInv start c s) (hcount : start.toNat + (s'.client c).entered.length < 2 ^ 64)
    (hs : Stepped s a s') : RingInv start c s' := by
  cases hs with
  | call hpc hlen hr => exact h.congr rfl rfl rfl
  | skip hpc => exact h.congr rfl rfl rfl
  | checked hpc => exact h.congr rfl rfl rfl
  | acquire hpc ho => exact h.update rfl rfl rfl rfl
  | park hpc hr => exact h.update rfl rfl rfl rfl
  | refuse hpc hlong => exact h.congr rfl rfl rfl
  | @putLength t k q hpc hq =>
      by_cases hc : c = k.client
      · subst hc
        exact ringInv_put .length h hq (by simp [SendState.putLength]) (by simp [SendState.putLength])
          (by simp [SendState.putLength]) hcount
      · exact h.congr (by simp [SendState.putLength, hc]) (by simp [SendState.putLength, hc])
          (by simp [SendState.putLength, hc])
  | @putPayload t k q hpc hq =>
      by_cases hc : c = k.client
      · subst hc
        exact ringInv_put .payload h hq (by simp [SendState.putPayload])
          (by simp [SendState.putPayload]) (by simp [SendState.putPayload]) hcount
      · exact h.congr (by simp [SendState.putPayload, hc]) (by simp [SendState.putPayload, hc])
          (by simp [SendState.putPayload, hc])
  | wake hpc => exact h.update rfl rfl rfl rfl
  | drain hnet hc hr => exact h.congr rfl rfl rfl
  | netLock hnet ho => exact h.update rfl rfl rfl rfl
  | sendFail hnet => exact h.update rfl rfl rfl rfl
  | sendZero hnet => exact h.update rfl rfl rfl rfl
  | @sendSome d n bs hnet hpos hn hbs =>
      by_cases hc : c = d
      · subst hc
        obtain ⟨hwf, hb, hh⟩ := h
        obtain ⟨hwf', hc', hh'⟩ := DataQueue.drain_contents hwf hn hbs
        refine ⟨?_, ?_, ?_⟩
        · simpa [SendState.drained] using hwf'
        · simp only [SendState.drained, SendState.setClient_client, Function.update_self]
          rw [List.append_assoc, hc', hb]
        · simp only [SendState.drained, SendState.setClient_client, Function.update_self]
          rw [hh', hh]
      · exact h.congr (by simp [SendState.drained, hc]) (by simp [SendState.drained, hc])
          (by simp [SendState.drained, hc])
  | quiet hnet hno => exact h.congr rfl rfl rfl
  | signal hnet hret ht hmem hpc => exact h.update rfl rfl rfl rfl

theorem entered_step {s s' : SendState} {a : SendAction} (hs : Stepped s a s') (c : Nat) :
    (s.client c).entered <+: (s'.client c).entered := by
  cases hs with
  | @acquire t k part hpc ho => by_cases hc : c = k.client <;> simp [SendState.acquire, hc]
  | @park t k part hpc hr => by_cases hc : c = k.client <;> simp [SendState.park, hc]
  | @putLength t k q hpc hq => by_cases hc : c = k.client <;> simp [SendState.putLength, hc]
  | @putPayload t k q hpc hq => by_cases hc : c = k.client <;> simp [SendState.putPayload, hc]
  | @wake t k part hpc => by_cases hc : c = k.client <;> simp [SendState.unpark, hc]
  | @netLock d hnet ho => by_cases hc : c = d <;> simp [hc]
  | @sendFail d hnet => by_cases hc : c = d <;> simp [hc]
  | @sendZero d hnet => by_cases hc : c = d <;> simp [hc]
  | @sendSome d n bs hnet hpos hn hbs => by_cases hc : c = d <;> simp [SendState.drained, hc]
  | @signal d ret t k part hnet hret ht hmem hpc =>
      by_cases hc : c = k.client <;> simp [SendState.unpark, hc]
  | call hpc hlen hr => exact List.prefix_rfl
  | skip hpc => exact List.prefix_rfl
  | checked hpc => exact List.prefix_rfl
  | refuse hpc hlong => exact List.prefix_rfl
  | drain hnet hc hr => exact List.prefix_rfl
  | quiet hnet hno => exact List.prefix_rfl

/-! ## Whole runs -/

theorem solo_startAt (mem : Nat → UInt8) (start : UInt64) (c : Nat) :
    Solo c (.startAt mem start) where
  single := by
    intro t u k l h
    cases h
  size := by
    intro t k h
    cases h
  held := by
    intro t h
    cases h
  sent := by
    intro k h
    cases h

theorem ringInv_startAt (mem : Nat → UInt8) (start : UInt64) (c : Nat) :
    RingInv start c (.startAt mem start) where
  wellFormed := ⟨Nat.le_refl _, Nat.le_add_right ..⟩
  bytes := by
    have hused : ((SendState.startAt mem start).client c).queue.used = 0 := by
      show (start - start).toNat = 0
      simp
    rw [DataQueue.contents, hused]
    rfl
  head := rfl

theorem downstream_run {start : UInt64} {c : Nat} {s : SendState}
    (h : (ringMachine start).Run (OneAtATime c) s) :
    SendInv s ∧ Solo c s ∧ FramesInv s c ∧
      (start.toNat + (s.client c).entered.length < 2 ^ 64 → RingInv start c s) := by
  refine Machine.Run.invariant (P := fun s => SendInv s ∧ Solo c s ∧ FramesInv s c ∧
    (start.toNat + (s.client c).entered.length < 2 ^ 64 → RingInv start c s)) ?_ ?_ h
  · rintro s ⟨mem, rfl⟩
    exact ⟨sendInv_startAt mem start, solo_startAt mem start c, framesInv_startAt mem start c,
      fun _ => ringInv_startAt mem start c⟩
  · rintro s a t ⟨hi, hsolo, hf, hring⟩ hok hstep
    have hs : Stepped s a t := stepped hstep
    refine ⟨sendInv_step hi hs, solo_step hsolo hok hs,
      framesInv_step hi hf (hsolo.lengthAlone a) hs, fun hcount => ?_⟩
    have hle := (entered_step hs c).length_le
    exact ringInv_step (hring (by omega)) hcount hs

/-- The frames of the calls that returned and at most the length of one more have entered. -/
theorem entered_frames {s : SendState} {c : Nat} (hsolo : Solo c s) (hf : FramesInv s c) :
    ∃ last, PartialFrame bufLen last ∧
      (s.client c).entered.map Prod.snd =
        frames ((s.client c).sent.map SendCall.buf) ++ last := by
  obtain ⟨last, hent, hm⟩ := hf
  have hsent : ((s.client c).sent.flatMap SendCall.framed).map Prod.snd =
      frames ((s.client c).sent.map SendCall.buf) := by
    simp [frames, List.map_flatMap, List.flatMap_map, framed_map_snd]
  refine ⟨last.map Prod.snd, ?_, by rw [hent, List.map_append, hsent]⟩
  cases hm with
  | between _ => exact partialFrame_nil (by decide)
  | @inside t k hk hkc huniq =>
      obtain ⟨hpos, hmax⟩ := hsolo.size t k (call_of_midFrame hk) hkc
      rw [marked_map_snd]
      refine ⟨k.buf, hpos, hmax, List.prefix_append .., fun he => ?_⟩
      have hlen := congrArg List.length he
      rw [frame_length, SendCall.bytes, be32_length] at hlen
      omega
  | @stuck t k ho hno =>
      obtain ⟨l, part, hpc, hl⟩ := hsolo.held t ho
      exact absurd hl (hno l part hpc)

/-- Calls one at a time reach the client's callback in order and unchanged, and all of them
once the ring is empty and the stream read. -/
theorem downstream_exact {start : UInt64} {c : Nat} {s : SendState}
    (h : (ringMachine start).Run (OneAtATime c) s)
    (hcount : start.toNat + (s.client c).entered.length < 2 ^ 64)
    (fuel : Nat) (cuts : List RecvCut) :
    let r := recvThread fuel cuts (s.client c).wire
    r.calls <+: (s.client c).sent.map SendCall.buf ∧ r.state ≠ .exit ∧
      (cuts.length < fuel → r.state ≠ .running) ∧
      ((s.client c).queue.contents = [] → r.state = .blocked [] →
        r.calls = (s.client c).sent.map SendCall.buf) := by
  obtain ⟨-, hsolo, hf, hring⟩ := downstream_run h
  obtain ⟨last, hlast, hent⟩ := entered_frames hsolo hf
  have hbytes := (hring hcount).bytes
  rw [hent] at hbytes
  have hsize : ∀ p ∈ (s.client c).sent.map SendCall.buf, 0 < p.length ∧ p.length ≤ bufLen := by
    intro p hp
    obtain ⟨k, hk, rfl⟩ := List.mem_map.mp hp
    exact hsolo.sent k hk
  obtain ⟨hcalls, hexit, hrun, hall⟩ :=
    @recvThread_frames _ _ _ fuel cuts hsize hlast ⟨_, hbytes⟩
  refine ⟨hcalls, hexit, hrun, fun hempty hb => hall hb ?_⟩
  rw [← hbytes, hempty, List.append_nil]

/-- A thread that is in no call enters one only by calling. -/
theorem Stepped.idle {s s' : SendState} {a : SendAction} {u : Nat} (h : Stepped s a s')
    (hcall : ∀ c buf safe, a ≠ .call u c buf safe) (hu : s.pc u = .idle) : s'.pc u = .idle := by
  have hstays : ∀ {t p}, s.pc t ≠ .idle → Function.update s.pc t p u = .idle := by
    intro t p ht
    rwa [Function.update_of_ne fun he => ht (by rw [← he, hu])]
  cases h with
  | @call t c buf safe hpc _ _ =>
      have hne : u ≠ t := fun he => hcall c buf safe (he ▸ rfl)
      exact (Function.update_of_ne hne ..).trans hu
  | skip hpc => exact hstays (by simp [hpc])
  | checked hpc => exact hstays (by simp [hpc])
  | acquire hpc ho =>
      refine hstays ?_
      rcases hpc with ⟨hpc, -⟩ | hpc <;> simp [hpc]
  | park hpc _ => exact hstays (by simp [hpc])
  | refuse hpc _ => exact hstays (by simp [hpc])
  | putLength hpc _ => exact hstays (by simp [hpc])
  | putPayload hpc _ => exact hstays (by simp [hpc])
  | wake hpc => exact hstays (by simp [hpc])
  | signal _ _ _ _ hpc => exact hstays (by simp [hpc])
  | drain => exact hu
  | netLock => exact hu
  | sendFail => exact hu
  | sendZero => exact hu
  | sendSome => exact hu
  | quiet => exact hu

/-- Two threads take turns on client 0. -/
def takeTurns (s : SendState) : SendAction → Bool
  | .call t c buf _ =>
      decide (t < 2 ∧ c = 0 ∧ 0 < buf.length ∧ buf.length ≤ bufLen) &&
        (s.pc 0).call.isNone && (s.pc 1).call.isNone
  | _ => true

/-- The counters start ten bytes before the end of the ring. `send` takes two bytes of the first
packet, what is left up to the end, and the rest from the start of the ring. -/
def twoPackages : List SendAction :=
  [.call 0 0 [1, 2, 3] true, .run 0, .run 0, .run 0, .drain 0, .netLock, .netSend (.some 2),
    .call 1 0 [4, 5] false, .netSignal none, .run 1, .run 1, .drain 0, .run 1, .run 1, .netLock,
    .netSend (.some 8), .netSignal none, .drain 0, .netLock, .netSend (.some 3)]

theorem run_takeTurns {start : UInt64} {s : SendState}
    (h : (ringMachine start).Run (fun s a => takeTurns s a = true) s) :
    (ringMachine start).Run (OneAtATime 0) s ∧ ∀ u, 2 ≤ u → s.pc u = .idle := by
  induction h with
  | start hs =>
      refine ⟨.start hs, fun u _ => ?_⟩
      rcases hs with ⟨mem, rfl⟩
      rfl
  | @next s a s' _ hturns hs ih =>
      refine ⟨.next ih.1 ?_ hs, fun u hu => (stepped hs).idle ?_ (ih.2 u hu)⟩
      · rintro t buf safe rfl
        simp only [takeTurns, Bool.and_eq_true, decide_eq_true_eq, Option.isNone_iff_eq_none]
          at hturns
        obtain ⟨⟨⟨-, -, hpos, hmax⟩, hfirst⟩, hsecond⟩ := hturns
        refine ⟨fun u k hk => ?_, hpos, hmax⟩
        have hnone : (s.pc u).call = none := by
          match u with
          | 0 => exact hfirst
          | 1 => exact hsecond
          | u + 2 => rw [ih.2 (u + 2) (Nat.le_add_left 2 u)]; rfl
        exact absurd (hnone.symm.trans hk) (by simp)
      · rintro c buf safe rfl
        simp only [takeTurns, Bool.and_eq_true, decide_eq_true_eq] at hturns
        omega

theorem downstream_exact_twoPackages : ∃ s, (ringMachine 10485750).Run (OneAtATime 0) s ∧
    (s.client 0).wire = [0, 0, 0, 3, 1, 2, 3, 0, 0, 0, 2, 4, 5] ∧
    (recvThread 3 [.upTo 3, .upTo 1, .upTo 2, .upTo 1] ((s.client 0).wire.take 9)).calls =
      [[1, 2, 3]] ∧
    (recvThread 9 [.upTo 3, .upTo 1, .upTo 2, .upTo 1, .upTo 9, .upTo 1, .upTo 4]
      (s.client 0).wire).calls = [[1, 2, 3], [4, 5]] := by
  obtain ⟨s, hs, hview⟩ := Option.map_eq_some_iff.mp (by decide +kernel :
    (((ringMachine 10485750).guarded fun s a => takeTurns s a = true).exec
      (.startAt (fun _ => 0) 10485750) twoPackages).map (fun s =>
      ((s.client 0).wire, (s.client 0).sent.map SendCall.buf, (s.client 0).entered.length,
        (s.client 0).queue.contents)) =
      some ([0, 0, 0, 3, 1, 2, 3, 0, 0, 0, 2, 4, 5], [[1, 2, 3], [4, 5]], 13, []))
  simp only [Prod.mk.injEq] at hview
  obtain ⟨hwire, hsent, hlen, hempty⟩ := hview
  have hrun := (run_takeTurns (Machine.run_of_exec hs ⟨fun _ => 0, rfl⟩)).1
  refine ⟨s, hrun, hwire, by rw [hwire]; decide, ?_⟩
  rw [← hsent]
  refine (downstream_exact hrun (by rw [hlen]; decide) 9 _).2.2.2 hempty ?_
  rw [hwire]
  rfl

def sendOneByte : List SendAction :=
  [.call 0 0 [1] true, .run 0, .run 0, .run 0, .drain 0, .netLock, .netSend (.some 5)]

theorem run_sendOneByte {start : UInt64} {mem : Nat → UInt8} {s : SendState}
    (he : (ringMachine start).exec (.startAt mem start) sendOneByte = some s) :
    (ringMachine start).Run (OneAtATime 0) s := by
  rw [sendOneByte, Machine.exec, Option.bind_eq_some_iff] at he
  obtain ⟨u, hu, he⟩ := he
  refine Machine.Run.exec (.next (.start ⟨mem, rfl⟩) ?_ hu) ?_ he
  · rintro t buf safe hcall
    cases hcall
    exact ⟨fun u k hk => (by cases hk), by decide, by decide⟩
  · rintro a ha s t buf safe rfl
    simp at ha

/-- The counters are at their last value when the packet enters the ring. -/
theorem exec_sendOneByte_wrapping : ((ringMachine (UInt64.ofNat (2 ^ 64 - 1))).exec
    (.startAt (fun _ => 0) (UInt64.ofNat (2 ^ 64 - 1))) sendOneByte).map
      (fun s => ((s.client 0).wire, (s.client 0).sent.map SendCall.buf)) =
    some ([0, 0, 0, 1, 0], [[1]]) := by
  decide +kernel

/-- A ring that starts at the last value of its counters gives the client another byte. -/
theorem downstream_wraps : ∃ start s, (ringMachine start).Run (OneAtATime 0) s ∧
    ¬(recvThread 2 [.upTo 10, .upTo 10] (s.client 0).wire).calls <+:
      (s.client 0).sent.map SendCall.buf := by
  obtain ⟨s, he, hs⟩ := Option.map_eq_some_iff.mp exec_sendOneByte_wrapping
  simp only [Prod.mk.injEq] at hs
  refine ⟨UInt64.ofNat (2 ^ 64 - 1), s, run_sendOneByte he, ?_⟩
  rw [hs.1, hs.2]
  decide

end Hprd.Net

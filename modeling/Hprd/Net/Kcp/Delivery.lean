import Hprd.Net.Kcp.Conversation

/-!
# In order, once, and not lost

What one end receives is what the other has sent, from the first message on, whatever
the network does in between, and a sender with nothing left to send has lost nothing.
-/

namespace Hprd.Net.Kcp

open Hprd.Core Hprd.Core.Arq

/-- Both directions are links of selective repeat. -/
structure Conversing (s : Conversation) : Prop where
  proper : ∃ conv, ∀ side, Proper conv (s side)
  linked : ∀ side, ∃ l, Linked (s side) (s side.other) l

section

variable {s t : Conversation}

theorem Side.other_ne (side : Side) : side.other ≠ side := by
  cases side <;> decide

@[simp] theorem Side.other_other (side : Side) : side.other.other = side := by
  cases side <;> rfl

theorem Side.eq_or_other (side side' : Side) : side' = side ∨ side' = side.other := by
  cases side <;> cases side' <;> decide

theorem Linked.start (conv : UInt32) :
    Linked { kcp := newContext conv } { kcp := newContext conv } Link.start where
  inv := Link.Inv.start _
  send := ⟨rfl, nofun, ⟨rfl, [], ⟨⟨rfl, rfl, rfl, show (1 : Int32) ≠ 0 by decide, .nil, .nil, nofun,
    Nat.le_refl _, Nat.zero_le _⟩, rfl⟩, fun _ => by simp [Link.start]⟩, rfl, nofun⟩
  recv := ⟨List.prefix_refl _, ⟨List.prefix_refl _, rfl, nofun, [], ⟨⟨rfl, rfl, .nil, .nil, nofun,
    Nat.zero_le _⟩, nofun⟩, fun _ => by simp [Link.start]⟩, rfl, nofun⟩

theorem Conversing.start (conv : UInt32) : Conversing fun _ => { kcp := newContext conv } where
  proper := ⟨conv, fun _ => ⟨Windowed.new conv, rfl, nofun⟩⟩
  linked := fun _ => ⟨Link.start, Linked.start conv⟩

/-- A call of one end is a call of the sending end of one link and of the receiving end of the
other. -/
theorem Conversing.step {a : Side × CallAction} (h : Conversing s) (ha : Timely s a)
    (hs : conversationMachine.step s a = some t) : Conversing t := by
  obtain ⟨side, a⟩ := a
  obtain ⟨⟨conv, hproper⟩, hlinked⟩ := h
  obtain ⟨x', hx', rfl⟩ := Option.map_eq_some_iff.mp hs
  have hself : Function.update s side x' side = x' := Function.update_self ..
  have hother : Function.update s side x' side.other = s side.other :=
    Function.update_of_ne (Side.other_ne side) ..
  refine ⟨⟨conv, fun side' => ?_⟩, fun side' => ?_⟩
  · rcases Side.eq_or_other side side' with rfl | rfl
    · rw [hself]
      exact (hproper _).step hx'
    · rw [hother]
      exact hproper _
  · rcases Side.eq_or_other side side' with rfl | rfl
    · obtain ⟨l, hl⟩ := hlinked side'
      rw [hself, hother]
      exact hl.send_step (hproper _) (hproper _) ha hx'
    · obtain ⟨l, hl⟩ := hlinked side.other
      rw [Side.other_other] at hl ⊢
      rw [hself, hother]
      exact hl.recv_step (hproper _) (hproper _) ha hx'

theorem Conversing.of_run (h : conversationMachine.Run Timely s) : Conversing s := by
  refine Machine.Run.invariant ?_ (fun _ _ _ hi ha hs => hi.step ha hs) h
  rintro _ ⟨conv, rfl⟩
  exact Conversing.start conv

instance (kcp : Ikcpcb) (p : Packet) (after : Bytes) : Decidable (Ends kcp p after) :=
  decidable_of_iff (p.segs.length ≤ 11 ∨ ∃ r ∈ decode32u after, r.1 ≠ kcp.conv) <|
    or_congr_right ⟨fun ⟨r, hr, hne⟩ => ⟨r.1, r.2, hr, hne⟩, fun ⟨_, _, hr, hne⟩ => ⟨_, hr, hne⟩⟩

instance (e peer : Endpoint) : ∀ a : CallAction, Decidable (a.Timely e peer)
  | .deliver i after => inferInstanceAs (Decidable (∀ p ∈ peer.out[i]?,
      Ends e.kcp p after ∧ peer.numbered ≤ p.numbered + lifetime ∧
        peer.taken ≤ p.taken + lifetime))
  | .sendPkt _ => inferInstanceAs (Decidable True)
  | .update _ => inferInstanceAs (Decidable True)
  | .recv _ => inferInstanceAs (Decidable True)

instance (s : Conversation) (a : Side × CallAction) : Decidable (Timely s a) :=
  inferInstanceAs (Decidable (a.2.Timely _ _))

/-- Messages arrive in order, each once and whole. -/
theorem got_prefix_sent (h : conversationMachine.Run Timely s) (side : Side) :
    (s side.other).got <+: (s side).sent := by
  obtain ⟨l, hl⟩ := (Conversing.of_run h).linked side
  exact hl.recv.got

/-- Two messages of which the second comes first and both come twice, read and acknowledged. -/
def exchange : List (Side × CallAction) :=
  [(.client, .update 1000), (.client, .sendPkt [7]), (.client, .sendPkt [8]),
    (.server, .deliver 1 []), (.server, .deliver 0 []), (.server, .deliver 1 []),
    (.server, .recv 100), (.server, .deliver 0 []), (.server, .recv 100),
    (.server, .update 1000), (.client, .deliver 0 [])]

theorem exchange_runs : ∃ s, conversationMachine.Run Timely s ∧ (s .server).got = [[7], [8]] ∧
    (s .client).kcp.sndQueue.length = 0 ∧ (s .client).kcp.sndBuf.length = 0 ∧
    (s .server).kcp.rcvQueue.length = 0 := by
  have hrun : ((conversationMachine.guarded Timely).exec (fun _ => { kcp := newContext 5 })
      exchange).map (fun s => ((s .server).got, (s .client).kcp.sndQueue.length,
        (s .client).kcp.sndBuf.length, (s .server).kcp.rcvQueue.length)) =
      some ([[7], [8]], 0, 0, 0) := by
    decide +kernel
  obtain ⟨s, hs, hview⟩ := Option.map_eq_some_iff.mp hrun
  simp only [Prod.mk.injEq] at hview
  exact ⟨s, Machine.run_of_exec hs ⟨5, rfl⟩, hview⟩

theorem got_prefix_sent_exchange :
    ∃ s : Conversation, (s .server).got = [[7], [8]] ∧ (s .server).got <+: (s .client).sent := by
  obtain ⟨s, hrun, hgot, -⟩ := exchange_runs
  exact ⟨s, hgot, got_prefix_sent hrun .client⟩

/-- A sender with nothing waiting has numbered everything, and all of it is acknowledged. -/
theorem Linked.idle {x y : Endpoint} {l : Link Piece} (h : Linked x y l)
    (hqueue : x.kcp.sndQueue = []) (hbuf : x.kcp.sndBuf = []) :
    l.numbered = l.items.length ∧ l.unacked = ∅ := by
  obtain ⟨hwaits, nums, hsend, hunacked⟩ := h.send.sends
  have hle := h.inv.numbered_le
  have hnone : l.items.drop l.numbered = [] := by
    rw [← hwaits, show x.kcp.flow.send.queue = [] from hqueue]
    rfl
  have hlen := List.drop_eq_nil_iff.mp hnone
  refine ⟨by omega, Set.eq_empty_of_forall_notMem fun n hn => ?_⟩
  have hempty : Numbered (fun n p => l.items[n]? = some p) [] nums := hbuf ▸ hsend.buf
  cases hempty
  exact absurd ((hunacked n).mp hn) List.not_mem_nil

theorem Conversing.all_got (h : Conversing s) (side : Side)
    (hqueue : (s side).kcp.sndQueue = []) (hbuf : (s side).kcp.sndBuf = [])
    (hread : (s side.other).kcp.rcvQueue = []) : (s side.other).got = (s side).sent := by
  obtain ⟨l, hl⟩ := h.linked side
  obtain ⟨hall, hopen⟩ := hl.idle hqueue hbuf
  obtain ⟨-, hcount, -, nums, hrecv, hheld⟩ := hl.recv.receives
  have hrest : (s side.other).kcp.flow.recv.queue = [] := hread
  have hnext : l.taken ∉ l.held := by
    intro hin
    have hfull := hrecv.settled ((hheld _).mp hin)
    rw [hrest] at hfull
    exact absurd hfull (by decide)
  have htaken := hl.inv.all_taken hall hopen hnext
  obtain ⟨rest, heq⟩ := hl.recv.got
  have hlen : (pieces (s side.other).got).length = (pieces (s side).sent).length := by
    rw [hrest, List.length_nil, Nat.add_zero] at hcount
    rw [hcount, ← hl.send.items]
    exact htaken
  rw [← heq, pieces_append, List.length_append] at hlen
  have hnil : rest = [] := pieces_eq_nil (List.eq_nil_of_length_eq_zero (by omega))
  rw [← heq, hnil, List.append_nil]

/-- When nothing waits at the sender, and nothing at the receiver for the upper layer, every message
has arrived. -/
theorem got_eq_sent (h : conversationMachine.Run Timely s) (side : Side)
    (hqueue : (s side).kcp.sndQueue = []) (hbuf : (s side).kcp.sndBuf = [])
    (hread : (s side.other).kcp.rcvQueue = []) : (s side.other).got = (s side).sent :=
  (Conversing.of_run h).all_got side hqueue hbuf hread

theorem got_eq_sent_exchange :
    ∃ s : Conversation, (s .server).got = [[7], [8]] ∧ (s .server).got = (s .client).sent := by
  obtain ⟨s, hrun, hgot, hqueue, hbuf, hread⟩ := exchange_runs
  exact ⟨s, hgot, got_eq_sent hrun .client (List.eq_nil_of_length_eq_zero hqueue)
    (List.eq_nil_of_length_eq_zero hbuf) (List.eq_nil_of_length_eq_zero hread)⟩

end

end Hprd.Net.Kcp

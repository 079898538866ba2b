import Mathlib.Logic.Function.Basic
import Hprd.Core.Machine

/-!
# Moving from TCP to KCP

`server_bradcast_data` and `client_send_pkt` read `kcp_enable` for each packet and
send it over KCP or TCP. The two transports deliver in order, each with any delay,
so a packet sent over KCP can pass one that was sent over TCP, and nothing else can.
-/

namespace Hprd.Net

open Hprd.Core

inductive Transport where
  | tcp
  | kcp
  deriving DecidableEq

/-- A packet with the number of the call that issued it. -/
structure Numbered (Pkt : Type) where
  number : Nat
  pkt : Pkt
  deriving DecidableEq

/-- One sender and one receiver. `calling` is a call that has read `kcp_enable`; `underWay` are the
packets of each transport that the receiver has not taken. `issued` and `received` are
bookkeeping. -/
structure Direction (Pkt : Type) where
  kcpEnable : Bool
  calling : Option (Transport × Numbered Pkt)
  underWay : Transport → List (Numbered Pkt)
  issued : List Pkt
  received : List (Transport × Numbered Pkt)

section

variable {Pkt : Type}

/-- A call reads the flag. -/
def issue (d : Direction Pkt) (pkt : Pkt) : Option (Direction Pkt) :=
  match d.calling with
  | some _ => none
  | none =>
      some { d with
        calling := some (if d.kcpEnable then .kcp else .tcp, ⟨d.issued.length, pkt⟩)
        issued := d.issued ++ [pkt] }

/-- The send function of the transport takes the packet or returns -1. -/
def transmit (d : Direction Pkt) (accepted : Bool) : Option (Direction Pkt) :=
  match d.calling with
  | none => none
  | some (t, p) =>
      if accepted then
        some { d with
          calling := none, underWay := Function.update d.underWay t (d.underWay t ++ [p]) }
      else some { d with calling := none }

/-- The next packet of a transport reaches the packet callback. -/
def receive (d : Direction Pkt) (t : Transport) : Option (Direction Pkt) :=
  match d.underWay t with
  | [] => none
  | p :: rest =>
      some { d with
        underWay := Function.update d.underWay t rest, received := d.received ++ [(t, p)] }

/-- `down` is from `server_bradcast_data` to the client's packet callback, `up` from
`client_send_pkt` to `on_server_pkt`. -/
structure Switching (Pkt : Type) where
  down : Direction Pkt
  up : Direction Pkt

inductive SwitchAction (Pkt : Type) where
  | bradcast (pkt : Pkt)
  | bradcastSent (accepted : Bool)
  | clientSend (pkt : Pkt)
  | clientSent (accepted : Bool)
  | clientKcpConnect
  | kcpServerClientConnect
  | clientRecv (t : Transport)
  | serverHandle (t : Transport)

/-- `_kcp_server_thread` connects the session before it reads the first datagram. -/
def switchStep (s : Switching Pkt) : SwitchAction Pkt → Option (Switching Pkt)
  | .bradcast pkt => (issue s.down pkt).map fun d => { s with down := d }
  | .bradcastSent accepted => (transmit s.down accepted).map fun d => { s with down := d }
  | .clientSend pkt => (issue s.up pkt).map fun d => { s with up := d }
  | .clientSent accepted => (transmit s.up accepted).map fun d => { s with up := d }
  | .clientKcpConnect => some { s with up := { s.up with kcpEnable := true } }
  | .kcpServerClientConnect => some { s with down := { s.down with kcpEnable := true } }
  | .clientRecv t => (receive s.down t).map fun d => { s with down := d }
  | .serverHandle t =>
      if t = .kcp ∧ s.down.kcpEnable = false then none
      else (receive s.up t).map fun d => { s with up := d }

def Direction.start : Direction Pkt := ⟨false, none, fun _ => [], [], []⟩

def switchMachine : Machine (Switching Pkt) (SwitchAction Pkt) where
  init s := s = ⟨.start, .start⟩
  step := switchStep

/-- The packets are received in the order of the calls that issued them. -/
def InOrder (d : Direction Pkt) : Prop :=
  d.received.Pairwise fun a b => a.2.number < b.2.number

/-- Each received packet is one that was issued, none comes twice, one that comes before an
earlier one came over KCP and the earlier one over TCP, and the order is kept exactly when no
packet over TCP comes behind one over KCP. -/
structure Conveys (d : Direction Pkt) : Prop where
  issued : ∀ r ∈ d.received, d.issued[r.2.number]? = some r.2.pkt
  once : (d.received.map fun r => r.2.number).Nodup
  order : d.received.Pairwise fun a b =>
    a.2.number < b.2.number ∨ a.1 = .kcp ∧ b.1 = .tcp
  inOrder_iff : InOrder d ↔ d.received.Pairwise fun a b => ¬(a.1 = .kcp ∧ b.1 = .tcp)

end

/-! ## One direction -/

section

variable {Pkt : Type} {d d' : Direction Pkt}

/-- Everything a transport has taken, received or not. -/
def sentOver (d : Direction Pkt) (t : Transport) : List (Numbered Pkt) :=
  (d.received.filter fun r => r.1 = t).map Prod.snd ++ d.underWay t

/-- Each transport has its packets in order, and TCP has the earlier ones. -/
structure DirectionInv (d : Direction Pkt) : Prop where
  sorted : ∀ t, (sentOver d t).Pairwise fun a b => a.number < b.number
  tcpFirst : ∀ a ∈ sentOver d .tcp, ∀ b ∈ sentOver d .kcp, a.number < b.number
  issued : ∀ t, ∀ a ∈ sentOver d t, d.issued[a.number]? = some a.pkt
  enabled : sentOver d .kcp ≠ [] → d.kcpEnable = true
  calling : ∀ t p, d.calling = some (t, p) → d.issued[p.number]? = some p.pkt ∧
    (∀ u, ∀ a ∈ sentOver d u, a.number < p.number) ∧
    (t = .kcp → d.kcpEnable = true) ∧ (t = .tcp → sentOver d .kcp = [])
  order : d.received.Pairwise fun a b =>
    a.2.number < b.2.number ∨ a.1 = .kcp ∧ b.1 = .tcp
  once : (d.received.map fun r => r.2.number).Nodup

theorem mem_sentOver {r : Transport × Numbered Pkt} (h : r ∈ d.received) :
    r.2 ∈ sentOver d r.1 :=
  List.mem_append_left _ (List.mem_map_of_mem (List.mem_filter.mpr ⟨h, by simp⟩))

theorem sentOver_issue {pkt : Pkt} (h : issue d pkt = some d') (t : Transport) :
    sentOver d' t = sentOver d t := by
  unfold issue at h
  split at h
  · cases h
  · cases h
    rfl

/-- Receiving moves a packet from one part of the list to the other. -/
theorem sentOver_receive {t : Transport} (h : receive d t = some d') (u : Transport) :
    sentOver d' u = sentOver d u := by
  unfold receive at h
  split at h
  · cases h
  · next p rest hway =>
      cases h
      simp only [sentOver]
      by_cases hu : u = t
      · subst hu
        rw [Function.update_self, hway]
        simp
      · rw [Function.update_of_ne hu]
        have hne : ¬t = u := fun he => hu he.symm
        simp [hne]

theorem directionInv_issue {pkt : Pkt} (h : DirectionInv d) (hs : issue d pkt = some d') :
    DirectionInv d' := by
  have hsent := sentOver_issue hs
  unfold issue at hs
  split at hs
  · cases hs
  · cases hs
    have hlt : ∀ u, ∀ a ∈ sentOver d u, a.number < d.issued.length := by
      intro u a ha
      obtain ⟨hlt, -⟩ := List.getElem?_eq_some_iff.mp (h.issued u a ha)
      exact hlt
    constructor
    · simp only [hsent]
      exact h.sorted
    · simp only [hsent]
      exact h.tcpFirst
    · simp only [hsent]
      intro t a ha
      show (d.issued ++ [pkt])[a.number]? = some a.pkt
      rw [List.getElem?_append_left (hlt t a ha)]
      exact h.issued t a ha
    · simp only [hsent]
      exact h.enabled
    · simp only [hsent]
      intro t p hcall
      rw [Option.some.injEq, Prod.mk.injEq] at hcall
      obtain ⟨rfl, rfl⟩ := hcall
      refine ⟨by simp, hlt, ?_, ?_⟩
      · intro hkcp
        by_contra hflag
        rw [if_neg hflag] at hkcp
        cases hkcp
      · intro htcp
        by_contra hne
        rw [if_pos (h.enabled hne)] at htcp
        cases htcp
    · exact h.order
    · exact h.once

theorem directionInv_transmit {accepted : Bool} (h : DirectionInv d)
    (hs : transmit d accepted = some d') : DirectionInv d' := by
  unfold transmit at hs
  split at hs
  · cases hs
  · next t p hcall =>
      split at hs
      · cases hs
        obtain ⟨hissued, hlater, hkcp, htcp⟩ := h.calling t p hcall
        have hsent : ∀ u, sentOver { d with
            calling := none, underWay := Function.update d.underWay t (d.underWay t ++ [p]) } u =
            if u = t then sentOver d u ++ [p] else sentOver d u := by
          intro u
          simp only [sentOver]
          split
          · next hu =>
              rw [hu, Function.update_self, List.append_assoc]
          · next hu => rw [Function.update_of_ne hu]
        constructor
        · intro u
          rw [hsent]
          split
          · rw [List.pairwise_append]
            refine ⟨h.sorted u, List.pairwise_singleton .., fun a ha b hb => ?_⟩
            rw [List.mem_singleton] at hb
            rw [hb]
            exact hlater u a ha
          · exact h.sorted u
        · intro a ha b hb
          rw [hsent] at ha hb
          cases t with
          | tcp =>
              rw [htcp rfl] at hb
              simp at hb
          | kcp =>
              simp only [reduceCtorEq, if_false, if_true] at ha hb
              rcases List.mem_append.mp hb with hb | hb
              · exact h.tcpFirst a ha b hb
              · rw [List.mem_singleton] at hb
                rw [hb]
                exact hlater .tcp a ha
        · intro u a ha
          rw [hsent] at ha
          split at ha
          · rcases List.mem_append.mp ha with ha | ha
            · exact h.issued u a ha
            · rw [List.mem_singleton] at ha
              rw [ha]
              exact hissued
          · exact h.issued u a ha
        · intro hne
          rw [hsent] at hne
          by_cases ht : Transport.kcp = t
          · exact hkcp ht.symm
          · rw [if_neg ht] at hne
            exact h.enabled hne
        · intro u q hq
          cases hq
        · exact h.order
        · exact h.once
      · cases hs
        exact ⟨h.sorted, h.tcpFirst, h.issued, h.enabled, (fun _ _ hq => by cases hq), h.order,
          h.once⟩

theorem directionInv_receive {t : Transport} (h : DirectionInv d)
    (hs : receive d t = some d') : DirectionInv d' := by
  have hsent := sentOver_receive hs
  have hsorted := h.sorted t
  unfold receive at hs
  split at hs
  · cases hs
  · next p rest hway =>
      have hmem : p ∈ sentOver d t := by
        rw [sentOver, hway]
        exact List.mem_append_right _ (List.mem_cons_self ..)
      -- What this transport has delivered comes before the head of its queue.
      have hbefore : ∀ r ∈ d.received, r.1 = t → r.2.number < p.number := by
        intro r hr ht
        rw [sentOver, hway, List.pairwise_append] at hsorted
        refine hsorted.2.2 r.2 ?_ p (List.mem_cons_self ..)
        exact List.mem_map_of_mem (List.mem_filter.mpr ⟨hr, by simpa using ht⟩)
      have hrel : ∀ r ∈ d.received, r.2.number ≠ p.number ∧
          (r.2.number < p.number ∨ r.1 = .kcp ∧ t = .tcp) := by
        intro r hr
        by_cases ht : r.1 = t
        · have := hbefore r hr ht
          exact ⟨this.ne, Or.inl this⟩
        · have hr' := mem_sentOver hr
          cases hrt : r.1 with
          | tcp =>
              have htk : t = .kcp := by cases t <;> simp_all
              rw [hrt] at hr'
              rw [htk] at hmem
              have := h.tcpFirst _ hr' _ hmem
              exact ⟨this.ne, Or.inl this⟩
          | kcp =>
              have htt : t = .tcp := by cases t <;> simp_all
              rw [hrt] at hr'
              rw [htt] at hmem
              have := h.tcpFirst _ hmem _ hr'
              exact ⟨this.ne', Or.inr ⟨rfl, htt⟩⟩
      cases hs
      constructor
      · simp only [hsent]
        exact h.sorted
      · simp only [hsent]
        exact h.tcpFirst
      · simp only [hsent]
        exact h.issued
      · simp only [hsent]
        exact h.enabled
      · simp only [hsent]
        exact h.calling
      · rw [List.pairwise_append]
        refine ⟨h.order, List.pairwise_singleton .., fun a ha b hb => ?_⟩
        rw [List.mem_singleton] at hb
        rw [hb]
        exact (hrel a ha).2
      · rw [List.map_append, List.nodup_append]
        refine ⟨h.once, List.nodup_singleton _, fun a ha b hb => ?_⟩
        obtain ⟨r, hr, rfl⟩ := List.mem_map.mp ha
        rw [List.map_singleton, List.mem_singleton] at hb
        rw [hb]
        exact (hrel r hr).1

theorem directionInv_enable (h : DirectionInv d) : DirectionInv { d with kcpEnable := true } := by
  refine ⟨h.sorted, h.tcpFirst, h.issued, fun _ => rfl, fun t p hcall => ?_, h.order, h.once⟩
  obtain ⟨hissued, hlater, -, htcp⟩ := h.calling t p hcall
  exact ⟨hissued, hlater, fun _ => rfl, htcp⟩

theorem directionInv_start : DirectionInv (.start : Direction Pkt) := by
  constructor <;> simp [Direction.start, sentOver]

theorem DirectionInv.conveys (h : DirectionInv d) : Conveys d := by
  refine ⟨fun r hr => h.issued _ _ (mem_sentOver hr), h.once, h.order, ?_⟩
  constructor
  · intro hin
    refine hin.imp_of_mem ?_
    rintro a b ha hb hlt ⟨hkcp, htcp⟩
    have ha' := mem_sentOver ha
    have hb' := mem_sentOver hb
    rw [hkcp] at ha'
    rw [htcp] at hb'
    exact lt_asymm hlt (h.tcpFirst _ hb' _ ha')
  · intro hsep
    exact (hsep.and h.order).imp fun ⟨hnot, hor⟩ => hor.resolve_right hnot

end

/-! ## Both directions -/

section

variable {Pkt : Type} {s s' : Switching Pkt}

theorem directionInv_step {a : SwitchAction Pkt}
    (h : DirectionInv s.down ∧ DirectionInv s.up) (hs : switchStep s a = some s') :
    DirectionInv s'.down ∧ DirectionInv s'.up := by
  cases a with
  | bradcast pkt =>
      obtain ⟨d, hd, rfl⟩ := Option.map_eq_some_iff.mp hs
      exact ⟨directionInv_issue h.1 hd, h.2⟩
  | bradcastSent accepted =>
      obtain ⟨d, hd, rfl⟩ := Option.map_eq_some_iff.mp hs
      exact ⟨directionInv_transmit h.1 hd, h.2⟩
  | clientSend pkt =>
      obtain ⟨d, hd, rfl⟩ := Option.map_eq_some_iff.mp hs
      exact ⟨h.1, directionInv_issue h.2 hd⟩
  | clientSent accepted =>
      obtain ⟨d, hd, rfl⟩ := Option.map_eq_some_iff.mp hs
      exact ⟨h.1, directionInv_transmit h.2 hd⟩
  | clientKcpConnect =>
      cases hs
      exact ⟨h.1, directionInv_enable h.2⟩
  | kcpServerClientConnect =>
      cases hs
      exact ⟨directionInv_enable h.1, h.2⟩
  | clientRecv t =>
      obtain ⟨d, hd, rfl⟩ := Option.map_eq_some_iff.mp hs
      exact ⟨directionInv_receive h.1 hd, h.2⟩
  | serverHandle t =>
      simp only [switchStep] at hs
      split at hs
      · cases hs
      · obtain ⟨d, hd, rfl⟩ := Option.map_eq_some_iff.mp hs
        exact ⟨h.1, directionInv_receive h.2 hd⟩

/-- In both directions the switch lets packets over KCP pass packets over TCP and does no more. -/
theorem conveys_of_reachable (h : switchMachine.Reachable s) :
    Conveys s.down ∧ Conveys s.up := by
  have hinv : DirectionInv s.down ∧ DirectionInv s.up := by
    refine Machine.Run.invariant
      (P := fun s : Switching Pkt => DirectionInv s.down ∧ DirectionInv s.up) ?_
      (fun _ _ _ hi _ hs => directionInv_step hi hs) h
    rintro _ rfl
    exact ⟨directionInv_start, directionInv_start⟩
  exact ⟨hinv.1.conveys, hinv.2.conveys⟩

end

/-- Both directions change from TCP to KCP. A packet over KCP passes one over TCP on its way down,
and one is refused. -/
def bothSwitch : List (SwitchAction Nat) :=
  [.bradcast 10, .bradcastSent true, .clientSend 1, .clientSent true, .bradcast 11,
    .bradcastSent true, .clientRecv .tcp, .clientKcpConnect, .clientSend 2, .serverHandle .tcp,
    .clientSent true, .bradcast 12, .kcpServerClientConnect, .bradcastSent true, .serverHandle .kcp,
    .bradcast 13, .bradcastSent true, .bradcast 14, .bradcastSent false, .bradcast 15,
    .clientRecv .kcp, .bradcastSent true, .clientRecv .tcp, .clientSend 3, .clientRecv .tcp,
    .clientSent true, .clientRecv .kcp, .serverHandle .kcp]

theorem conveys_bothSwitch : ∃ s : Switching Nat, switchMachine.Reachable s ∧
    s.down.received.map (fun r => r.2.pkt) = [10, 13, 11, 12, 15] ∧
    s.up.received.map (fun r => r.2.pkt) = [1, 2, 3] ∧
    Conveys s.down ∧ ¬InOrder s.down ∧ Conveys s.up ∧ InOrder s.up := by
  have hrun : (switchMachine.exec ⟨.start, .start⟩ bothSwitch).map
      (fun s => (s.down.received, s.up.received)) =
        some ([(.tcp, ⟨0, 10⟩), (.kcp, ⟨3, 13⟩), (.tcp, ⟨1, 11⟩), (.tcp, ⟨2, 12⟩), (.kcp, ⟨5, 15⟩)],
          [(.tcp, ⟨0, 1⟩), (.kcp, ⟨1, 2⟩), (.kcp, ⟨2, 3⟩)]) := by
    decide +kernel
  obtain ⟨s, hs, hout⟩ := Option.map_eq_some_iff.mp hrun
  simp only [Prod.mk.injEq] at hout
  obtain ⟨hdown, hup⟩ := hout
  have hreach : switchMachine.Reachable s := Machine.Reachable.exec (.start rfl) hs
  obtain ⟨hd, hu⟩ := conveys_of_reachable hreach
  refine ⟨s, hreach, ?_, ?_, hd, ?_, hu, ?_⟩
  · rw [hdown]
    rfl
  · rw [hup]
    rfl
  · rw [hd.inOrder_iff, hdown]
    decide
  · rw [hu.inOrder_iff, hup]
    decide

/-- A key press over TCP, the switch, its release over KCP. -/
def hastySwitch : List (SwitchAction Nat) :=
  [.clientSend 1, .clientSent true, .clientKcpConnect, .clientSend 0, .clientSent true,
    .kcpServerClientConnect, .serverHandle .kcp, .serverHandle .tcp]

/-- The release is handled before the press. -/
theorem release_before_press : ∃ s : Switching Nat, switchMachine.Reachable s ∧
    s.up.received.map (fun r => r.2.pkt) = [0, 1] ∧ s.up.issued = [1, 0] ∧ ¬InOrder s.up := by
  have hrun : (switchMachine.exec ⟨.start, .start⟩ hastySwitch).map
      (fun s => (s.up.received, s.up.issued)) =
        some ([(.kcp, ⟨1, 0⟩), (.tcp, ⟨0, 1⟩)], [1, 0]) := by
    decide
  obtain ⟨s, hs, hout⟩ := Option.map_eq_some_iff.mp hrun
  simp only [Prod.mk.injEq] at hout
  refine ⟨s, Machine.Reachable.exec (.start rfl) hs, ?_, hout.2, ?_⟩
  · rw [hout.1]
    rfl
  · rw [InOrder, hout.1]
    simp

end Hprd.Net

import Mathlib.Data.Set.Insert
import Mathlib.Logic.Relation
import Mathlib.Tactic

/-!
# Selective repeat over a network that loses, repeats and reorders

One direction of an exchange between two parties. The sender numbers its items and
may send any number that is not acknowledged again and again; the receiver keeps what
is in its window, takes the numbers in order, and answers with the numbers it has got
and with the first one it has not taken. What has been sent stays in the network for
ever, with a stamp of where its sender stood, and may arrive any number of times as
long as the stamp is not too old. The numbers here are unbounded; `arrival_near`,
`answer_near` and `report_near` say how far apart those can be that meet, so that a
part of each number is enough on the wire.
-/

namespace Hprd.Core.Arq

variable {α : Type*}

/-- The sender's window, the receiver's window, and how far a sender's counter may move on while
something it sent is on the way. -/
structure Windows where
  send : Nat
  recv : Nat
  life : Nat

/-- `una` is the lowest number that may be unacknowledged. `data` is in the network, each number with
what `numbered` was when it was sent. -/
structure Sender (α : Type*) where
  items : List α
  numbered : Nat
  una : Nat
  unacked : Set Nat
  data : Set (Nat × Nat)

/-- `taken` is the next number, `flushed` what it was at the last answer. `answers` are in the
network, each with what `taken` was then; a report is its own stamp. -/
structure Receiver where
  taken : Nat
  held : Set Nat
  acks : Set Nat
  flushed : Nat
  answers : Set (Nat × Nat)
  reports : Set Nat

structure Link (α : Type*) extends Sender α, Receiver

/-- Nothing has been sent. -/
def Link.start : Link α := ⟨⟨[], 0, 0, ∅, ∅⟩, ⟨0, ∅, ∅, 0, ∅, ∅⟩⟩

def Link.Got (l : Link α) (i : Nat) : Prop := i < l.taken ∨ i ∈ l.held

inductive Step (W : Windows) (l : Link α) : Link α → Prop where
  | offer (xs : List α) : Step W l { l with items := l.items ++ xs }
  | number (hthere : l.numbered < l.items.length) (hroom : l.numbered < l.una + W.send) :
      Step W l { l with
        numbered := l.numbered + 1, unacked := insert l.numbered l.unacked }
  | send (s : Set Nat) (hopen : s ⊆ l.unacked) :
      Step W l { l with data := l.data ∪ (fun i => (i, l.numbered)) '' s }
  | again {i stamp} (hdata : (i, stamp) ∈ l.data) (hfresh : l.numbered ≤ stamp + W.life)
      (hold : i < l.taken) :
      Step W l { l with acks := insert i l.acks }
  | arrive {i stamp} (hdata : (i, stamp) ∈ l.data) (hfresh : l.numbered ≤ stamp + W.life)
      (hnew : l.taken ≤ i) (hwindow : i < l.taken + W.recv) :
      Step W l { l with acks := insert i l.acks, held := insert i l.held }
  | take (hheld : l.taken ∈ l.held) :
      Step W l { l with taken := l.taken + 1, held := l.held \ {l.taken} }
  | flush :
      Step W l { l with
        answers := l.answers ∪ (fun i => (i, l.taken)) '' l.acks
        reports := insert l.taken l.reports, acks := ∅, flushed := l.taken }
  | answered {i stamp} (hanswer : (i, stamp) ∈ l.answers) (hfresh : l.taken ≤ stamp + W.life) :
      Step W l { l with unacked := l.unacked \ {i} }
  | reported {n} (hreport : n ∈ l.reports) (hfresh : l.taken ≤ n + W.life) :
      Step W l { l with unacked := l.unacked \ Set.Iio n }
  | shrink {n} (hup : l.una ≤ n) (htop : n ≤ l.numbered) (hbelow : ∀ i ∈ l.unacked, n ≤ i) :
      Step W l { l with una := n }

abbrev Steps (W : Windows) : Link α → Link α → Prop := Relation.ReflTransGen (Step W)

structure Link.Inv (W : Windows) (l : Link α) : Prop where
  numbered_le : l.numbered ≤ l.items.length
  taken_le : l.taken ≤ l.numbered
  una_le : l.una ≤ l.numbered
  window : l.numbered ≤ l.una + W.send
  unacked : ∀ i ∈ l.unacked, l.una ≤ i ∧ i < l.numbered
  held : ∀ i ∈ l.held, l.taken ≤ i ∧ i < l.numbered ∧ i < l.taken + W.recv
  /-- Nothing is acknowledged that has not been received. -/
  got : ∀ i < l.numbered, i ∉ l.unacked → l.Got i ∧ i < l.flushed + W.recv
  data : ∀ p ∈ l.data, p.1 < p.2 ∧ p.2 ≤ l.numbered ∧ p.2 ≤ p.1 + W.send
  flushed_le : l.flushed ≤ l.taken
  una_flushed : l.una ≤ l.flushed + W.recv
  acks : ∀ i ∈ l.acks, l.Got i ∧ i < l.taken + W.recv ∧ l.flushed ≤ i + W.life + W.send
  answers : ∀ p ∈ l.answers, l.Got p.1 ∧ p.1 < p.2 + W.recv ∧ p.2 ≤ l.flushed ∧
    p.2 ≤ p.1 + W.life + 2 * W.send + W.recv
  reports : ∀ n ∈ l.reports, n ≤ l.flushed

section

variable {W : Windows} {l l' : Link α}

theorem Link.Inv.start (W : Windows) : (Link.start : Link α).Inv W where
  numbered_le := Nat.le_refl _
  taken_le := Nat.le_refl _
  una_le := Nat.le_refl _
  window := Nat.zero_le _
  unacked := nofun
  held := nofun
  got := nofun
  data := nofun
  flushed_le := Nat.le_refl _
  una_flushed := Nat.zero_le _
  acks := nofun
  answers := nofun
  reports := nofun

theorem Link.Inv.got_lt (h : l.Inv W) {i : Nat} (hi : l.Got i) : i < l.numbered := by
  rcases hi with hi | hi
  · exact hi.trans_le h.taken_le
  · exact (h.held i hi).2.1

/-- The receiver's window keeps the sender close to the last answer. -/
theorem Link.Inv.numbered_flushed (h : l.Inv W) : l.numbered ≤ l.flushed + W.recv + W.send := by
  have hwindow := h.window
  have huna := h.una_flushed
  omega

/-- How far from the receiver's next number an arrival can be. -/
theorem Link.Inv.arrival_near (h : l.Inv W) {i stamp} (hdata : (i, stamp) ∈ l.data)
    (hfresh : l.numbered ≤ stamp + W.life) :
    i < l.taken + W.recv + W.send ∧ l.taken ≤ i + W.life + W.send := by
  obtain ⟨hlt, hle, hsend⟩ := h.data _ hdata
  have hnumbered := h.numbered_flushed
  have hflushed := h.flushed_le
  have htaken := h.taken_le
  omega

theorem Link.Inv.answer_near (h : l.Inv W) {i stamp} (hanswer : (i, stamp) ∈ l.answers)
    (hfresh : l.taken ≤ stamp + W.life) :
    i < l.numbered ∧ l.numbered ≤ i + 2 * W.life + 3 * W.send + 2 * W.recv := by
  obtain ⟨hgot, -, -, hold⟩ := h.answers _ hanswer
  have hlt := h.got_lt hgot
  have hnumbered := h.numbered_flushed
  have hflushed := h.flushed_le
  omega

theorem Link.Inv.report_near (h : l.Inv W) {n} (hreport : n ∈ l.reports)
    (hfresh : l.taken ≤ n + W.life) :
    n ≤ l.numbered ∧ l.numbered ≤ n + W.life + W.send + W.recv := by
  have hle := h.reports _ hreport
  have hnumbered := h.numbered_flushed
  have hflushed := h.flushed_le
  have htaken := h.taken_le
  omega

theorem Link.Inv.number (h : l.Inv W) (hthere : l.numbered < l.items.length)
    (hroom : l.numbered < l.una + W.send) :
    Link.Inv W { l with
      numbered := l.numbered + 1, unacked := insert l.numbered l.unacked } :=
  { h with
    numbered_le := hthere
    taken_le := h.taken_le.trans (Nat.le_succ _)
    una_le := h.una_le.trans (Nat.le_succ _)
    window := hroom
    unacked := by
      rintro i (rfl | hi)
      · exact ⟨h.una_le, Nat.lt_succ_self _⟩
      · exact ⟨(h.unacked i hi).1, (h.unacked i hi).2.trans (Nat.lt_succ_self _)⟩
    held := fun i hi =>
      ⟨(h.held i hi).1, (h.held i hi).2.1.trans (Nat.lt_succ_self _), (h.held i hi).2.2⟩
    got := by
      intro i hi hacked
      have hne : i ≠ l.numbered := fun he => hacked (Set.mem_insert_iff.mpr (.inl he))
      have hlt : i < l.numbered := Nat.lt_of_le_of_ne (Nat.lt_succ_iff.mp hi) hne
      exact h.got i hlt fun hopen => hacked (Set.mem_insert_of_mem _ hopen)
    data := fun p hp =>
      ⟨(h.data p hp).1, (h.data p hp).2.1.trans (Nat.le_succ _), (h.data p hp).2.2⟩ }

theorem Link.Inv.send (h : l.Inv W) {s : Set Nat} (hopen : s ⊆ l.unacked) :
    Link.Inv W { l with data := l.data ∪ (fun i => (i, l.numbered)) '' s } :=
  { h with
    data := by
      rintro p (hp | ⟨i, hi, rfl⟩)
      · exact h.data p hp
      · obtain ⟨huna, hlt⟩ := h.unacked i (hopen hi)
        exact ⟨hlt, Nat.le_refl _, h.window.trans (Nat.add_le_add_right huna _)⟩ }

/-- What has arrived is answered in time. -/
theorem Link.Inv.again (h : l.Inv W) {i stamp} (hdata : (i, stamp) ∈ l.data)
    (hfresh : l.numbered ≤ stamp + W.life) (hwindow : i < l.taken + W.recv) (hgot : l.Got i) :
    Link.Inv W { l with acks := insert i l.acks } :=
  { h with
    acks := by
      rintro j (rfl | hj)
      · have hnear := (h.arrival_near hdata hfresh).2
        exact ⟨hgot, hwindow, h.flushed_le.trans hnear⟩
      · exact h.acks j hj }

theorem Link.Inv.keep (h : l.Inv W) {i stamp} (hdata : (i, stamp) ∈ l.data)
    (hnew : l.taken ≤ i) (hwindow : i < l.taken + W.recv) :
    Link.Inv W { l with held := insert i l.held } := by
  have hgot : ∀ {j}, l.Got j → j < l.taken ∨ j ∈ insert i l.held :=
    fun hj => hj.imp_right (Set.mem_insert_of_mem _)
  exact { h with
    held := by
      rintro j (rfl | hj)
      · obtain ⟨hlt, hle, -⟩ := h.data _ hdata
        exact ⟨hnew, Nat.lt_of_lt_of_le hlt hle, hwindow⟩
      · exact h.held j hj
    got := fun j hj hacked => ⟨hgot (h.got j hj hacked).1, (h.got j hj hacked).2⟩
    acks := fun j hj => ⟨hgot (h.acks j hj).1, (h.acks j hj).2⟩
    answers := fun p hp => ⟨hgot (h.answers p hp).1, (h.answers p hp).2⟩ }

theorem Link.Inv.take (h : l.Inv W) (hheld : l.taken ∈ l.held) :
    Link.Inv W { l with taken := l.taken + 1, held := l.held \ {l.taken} } := by
  have hgot : ∀ {j}, l.Got j → j < l.taken + 1 ∨ j ∈ l.held \ {l.taken} := by
    rintro j (hj | hj)
    · exact .inl (hj.trans (Nat.lt_succ_self _))
    · by_cases he : j = l.taken
      · exact .inl (he ▸ Nat.lt_succ_self _)
      · exact .inr ⟨hj, he⟩
  exact { h with
    taken_le := (h.held _ hheld).2.1
    held := by
      rintro j ⟨hj, hne⟩
      obtain ⟨hle, hlt, hwindow⟩ := h.held j hj
      have hne' : j ≠ l.taken := hne
      exact ⟨show l.taken + 1 ≤ j by omega, hlt, show j < l.taken + 1 + W.recv by omega⟩
    got := fun j hj hacked => ⟨hgot (h.got j hj hacked).1, (h.got j hj hacked).2⟩
    flushed_le := h.flushed_le.trans (Nat.le_succ _)
    acks := fun j hj => ⟨hgot (h.acks j hj).1,
      show j < l.taken + 1 + W.recv by have := (h.acks j hj).2.1; omega, (h.acks j hj).2.2⟩
    answers := fun p hp => ⟨hgot (h.answers p hp).1, (h.answers p hp).2⟩ }

theorem Link.Inv.flush (h : l.Inv W) :
    Link.Inv W { l with
      answers := l.answers ∪ (fun i => (i, l.taken)) '' l.acks
      reports := insert l.taken l.reports, acks := ∅, flushed := l.taken } :=
  { h with
    got := fun i hi hacked => ⟨(h.got i hi hacked).1,
      (h.got i hi hacked).2.trans_le (Nat.add_le_add_right h.flushed_le _)⟩
    flushed_le := Nat.le_refl _
    una_flushed := h.una_flushed.trans (Nat.add_le_add_right h.flushed_le _)
    acks := nofun
    answers := by
      rintro p (hp | ⟨i, hi, rfl⟩)
      · obtain ⟨hgot, hwindow, hle, hold⟩ := h.answers p hp
        exact ⟨hgot, hwindow, hle.trans h.flushed_le, hold⟩
      · obtain ⟨hgot, hwindow, hold⟩ := h.acks i hi
        have htaken := h.taken_le.trans h.numbered_flushed
        exact ⟨hgot, hwindow, Nat.le_refl _, by dsimp only; omega⟩
    reports := by
      rintro n (rfl | hn)
      · exact Nat.le_refl _
      · exact (h.reports n hn).trans h.flushed_le }

/-- Numbers that the receiver has got, and has said so, are closed. -/
theorem Link.Inv.close (h : l.Inv W) {s : Set Nat}
    (hs : ∀ i ∈ s, l.Got i ∧ i < l.flushed + W.recv) :
    Link.Inv W { l with unacked := l.unacked \ s } :=
  { h with
    unacked := fun i hi => h.unacked i hi.1
    got := by
      intro i hi hacked
      by_cases hopen : i ∈ l.unacked
      · by_contra hno
        exact hacked ⟨hopen, fun hmem => hno (hs i hmem)⟩
      · exact h.got i hi hopen }

theorem Link.Inv.shrink (h : l.Inv W) {n} (hup : l.una ≤ n) (htop : n ≤ l.numbered)
    (hbelow : ∀ i ∈ l.unacked, n ≤ i) : Link.Inv W { l with una := n } :=
  { h with
    una_le := htop
    window := h.window.trans (Nat.add_le_add_right hup _)
    unacked := fun i hi => ⟨hbelow i hi, (h.unacked i hi).2⟩
    una_flushed := by
      show n ≤ l.flushed + W.recv
      cases n with
      | zero => exact Nat.zero_le _
      | succ n => exact (h.got n htop fun hopen => by have := hbelow n hopen; omega).2 }

theorem Link.Inv.step (h : l.Inv W) (hs : Step W l l') : l'.Inv W := by
  cases hs with
  | offer xs =>
      exact { h with
        numbered_le := by
          rw [List.length_append]
          exact h.numbered_le.trans (Nat.le_add_right ..) }
  | number hthere hroom => exact h.number hthere hroom
  | send s hopen => exact h.send hopen
  | again hdata hfresh hold =>
      exact h.again hdata hfresh (Nat.lt_of_lt_of_le hold (Nat.le_add_right ..)) (.inl hold)
  | arrive hdata hfresh hnew hwindow =>
      exact (h.keep hdata hnew hwindow).again hdata hfresh hwindow
        (.inr (Set.mem_insert ..))
  | take hheld => exact h.take hheld
  | flush => exact h.flush
  | answered hanswer hfresh =>
      obtain ⟨hgot, hwindow, hle, -⟩ := h.answers _ hanswer
      refine h.close ?_
      rintro i rfl
      exact ⟨hgot, Nat.lt_of_lt_of_le hwindow (Nat.add_le_add_right hle _)⟩
  | reported hreport hfresh =>
      have hle := h.reports _ hreport
      refine h.close fun i hi => ?_
      have hlt : i < l.flushed := Nat.lt_of_lt_of_le hi hle
      exact ⟨.inl (hlt.trans_le h.flushed_le), Nat.lt_of_lt_of_le hlt (Nat.le_add_right ..)⟩
  | shrink hup htop hbelow => exact h.shrink hup htop hbelow

theorem Link.Inv.steps (h : l.Inv W) (hs : Steps W l l') : l'.Inv W := by
  induction hs with
  | refl => exact h
  | tail _ hstep ih => exact ih.step hstep

/-! ## Several steps at once -/

theorem Ico_add_one {m k : Nat} :
    Set.Ico m (m + (k + 1)) = insert (m + k) (Set.Ico m (m + k)) :=
  Order.Ico_succ_right_eq_insert (Nat.le_add_right m k)

/-- The numbers that are there are taken in order. -/
theorem Steps.takes {k : Nat} (h : ∀ i, l.taken ≤ i → i < l.taken + k → i ∈ l.held) :
    Steps W l { l with
      taken := l.taken + k, held := l.held \ Set.Ico l.taken (l.taken + k) } := by
  induction k with
  | zero =>
      rw [Nat.add_zero, Set.Ico_self, Set.sdiff_empty]
  | succ k ih =>
      refine (ih fun i hlow hhigh => h i hlow (by omega)).tail ?_
      have hnext : l.taken + k ∈ l.held \ Set.Ico l.taken (l.taken + k) :=
        ⟨h _ (by omega) (by omega), fun hmem => Nat.lt_irrefl _ hmem.2⟩
      have hset : l.held \ Set.Ico l.taken (l.taken + (k + 1)) =
          (l.held \ Set.Ico l.taken (l.taken + k)) \ {l.taken + k} := by
        rw [Set.sdiff_sdiff, Ico_add_one, Set.union_singleton]
      rw [hset]
      exact Step.take hnext

/-- As many numbers are given out as the window has room for. -/
theorem Steps.numbers {k : Nat} (hthere : l.numbered + k ≤ l.items.length)
    (hroom : l.numbered + k ≤ l.una + W.send) :
    Steps W l { l with
      numbered := l.numbered + k
      unacked := l.unacked ∪ Set.Ico l.numbered (l.numbered + k) } := by
  induction k with
  | zero =>
      rw [Nat.add_zero, Set.Ico_self, Set.union_empty]
  | succ k ih =>
      refine (ih (by omega) (by omega)).tail ?_
      have hset : l.unacked ∪ Set.Ico l.numbered (l.numbered + (k + 1)) =
          insert (l.numbered + k) (l.unacked ∪ Set.Ico l.numbered (l.numbered + k)) := by
        rw [Ico_add_one, Set.union_insert]
      rw [hset]
      exact Step.number hthere hroom

/-- With nothing unacknowledged and the next number not there, all that was offered has been
taken. -/
theorem Link.Inv.all_taken (h : l.Inv W) (hall : l.numbered = l.items.length)
    (hopen : l.unacked = ∅) (hnext : l.taken ∉ l.held) : l.taken = l.items.length := by
  rcases Nat.lt_or_eq_of_le (h.taken_le.trans_eq hall) with hlt | heq
  · have hgot := (h.got l.taken (hall ▸ hlt) (by rw [hopen]; exact Set.notMem_empty _)).1
    exact absurd (hgot.resolve_left (Nat.lt_irrefl _)) hnext
  · exact heq

end

end Hprd.Core.Arq

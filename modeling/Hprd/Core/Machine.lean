import Mathlib.Logic.Relation
import Mathlib.Tactic

/-!
# Machines, runs and waiting

A machine takes one labelled step at a time; an interleaving of threads is a list
of labels. `Run ok` are the states reached by steps that all meet the side
condition `ok` on the state before the step and its label, so `Run (fun _ _ => True)`
is reachability. The rules are the induction over a run, the argument from fairness
for an infinite one, and the argument that excludes waiting in a circle.
-/

namespace Hprd.Core

universe u v

structure Machine (σ : Type u) (α : Type v) where
  init : σ → Prop
  step : σ → α → Option σ

namespace Machine

variable {σ : Type u} {α : Type v}

/-- The states a run reaches when every one of its steps meets `ok`. -/
inductive Run (M : Machine σ α) (ok : σ → α → Prop) : σ → Prop where
  | start {s} : M.init s → Run M ok s
  | next {s a t} : Run M ok s → ok s a → M.step s a = some t → Run M ok t

/-- The states any run reaches. -/
def Reachable (M : Machine σ α) : σ → Prop := M.Run fun _ _ => True

/-- The state after the labels `as`, if every one of them is a step. -/
def exec (M : Machine σ α) : σ → List α → Option σ
  | s, [] => some s
  | s, a :: as => (M.step s a).bind fun t => exec M t as

variable {M : Machine σ α} {ok ok' : σ → α → Prop}

/-- What the initial states have and every allowed step keeps, every state of the run has. -/
theorem Run.invariant {P : σ → Prop} (hinit : ∀ s, M.init s → P s)
    (hstep : ∀ s a t, P s → ok s a → M.step s a = some t → P t) {s : σ} (h : M.Run ok s) :
    P s := by
  induction h with
  | start hs => exact hinit _ hs
  | next _ ha hs ih => exact hstep _ _ _ ih ha hs

theorem Run.mono (himp : ∀ s a, ok s a → ok' s a) {s : σ} (h : M.Run ok s) : M.Run ok' s := by
  induction h with
  | start hs => exact .start hs
  | next _ ha hs ih => exact .next ih (himp _ _ ha) hs

/-- A run of the whole is a run of a part of it, when every step of the whole is a step of the part
or leaves the part alone. -/
theorem Run.project {τ β : Type*} {N : Machine τ β} {okN : τ → β → Prop} (part : σ → τ)
    (hinit : ∀ s, M.init s → N.init (part s))
    (hstep : ∀ s a t, M.Run ok s → ok s a → M.step s a = some t →
      part t = part s ∨ ∃ b, okN (part s) b ∧ N.step (part s) b = some (part t))
    {s : σ} (h : M.Run ok s) : N.Run okN (part s) := by
  induction h with
  | start hs => exact .start (hinit _ hs)
  | next hrun ha hs ih =>
      rcases hstep _ _ _ hrun ha hs with hsame | ⟨b, hb, hnext⟩
      · rw [hsame]
        exact ih
      · exact .next ih hb hnext

/-- A forward simulation: every run is one of another machine too, when each of its steps is a step
there or is not seen there at all. -/
theorem Run.simulates {τ β : Type*} {N : Machine τ β} (R : σ → τ → Prop)
    (hinit : ∀ s, M.init s → ∃ t, N.init t ∧ R s t)
    (hstep : ∀ s a s' t, M.Run ok s → ok s a → M.step s a = some s' → R s t →
      R s' t ∨ ∃ b t', N.step t b = some t' ∧ R s' t')
    {s : σ} (h : M.Run ok s) : ∃ t, N.Reachable t ∧ R s t := by
  induction h with
  | start hs =>
      obtain ⟨t, ht, hR⟩ := hinit _ hs
      exact ⟨t, .start ht, hR⟩
  | next hrun ha hs ih =>
      obtain ⟨t, ht, hR⟩ := ih
      rcases hstep _ _ _ t hrun ha hs hR with hsame | ⟨b, t', hb, hR'⟩
      · exact ⟨t, ht, hsame⟩
      · exact ⟨t', .next ht trivial hb, hR'⟩

theorem Run.reachable {s : σ} (h : M.Run ok s) : M.Reachable s :=
  h.mono fun _ _ _ => trivial

theorem exec_cons {s t : σ} {a : α} {as : List α} (h : M.step s a = some t) :
    M.exec s (a :: as) = M.exec t as := by
  simp [exec, h]

theorem exec_append (s : σ) (as bs : List α) :
    M.exec s (as ++ bs) = (M.exec s as).bind fun t => M.exec t bs := by
  induction as generalizing s with
  | nil => rfl
  | cons a as ih =>
      simp only [List.cons_append, exec]
      cases M.step s a with
      | none => rfl
      | some t => exact ih t

theorem Run.exec {s t : σ} {as : List α} (h : M.Run ok s) (hok : ∀ a ∈ as, ∀ s, ok s a)
    (he : M.exec s as = some t) : M.Run ok t := by
  induction as generalizing s with
  | nil =>
      cases he
      exact h
  | cons a as ih =>
      rw [Machine.exec, Option.bind_eq_some_iff] at he
      obtain ⟨u, hu, he⟩ := he
      exact ih (.next h (hok a (List.mem_cons_self ..) s) hu)
        (fun b hb => hok b (List.mem_cons_of_mem _ hb)) he

theorem Reachable.exec {s t : σ} {as : List α} (h : M.Reachable s)
    (he : M.exec s as = some t) : M.Reachable t :=
  Run.exec h (fun _ _ _ => trivial) he

/-- The machine that takes no step but the allowed ones. -/
def guarded (M : Machine σ α) (ok : σ → α → Prop) [∀ s a, Decidable (ok s a)] : Machine σ α where
  init := M.init
  step s a := if ok s a then M.step s a else none

theorem run_of_guarded [∀ s a, Decidable (ok s a)] {s : σ} (h : (M.guarded ok).Reachable s) :
    M.Run ok s := by
  induction h with
  | start hs => exact .start hs
  | next _ _ hs ih =>
      obtain ⟨ha, hs⟩ := Option.ite_none_right_eq_some.mp hs
      exact .next ih ha hs

/-- What the guarded machine executes from an initial state is a run. -/
theorem run_of_exec [∀ s a, Decidable (ok s a)] {s t : σ} {as : List α}
    (he : (M.guarded ok).exec s as = some t) (hinit : M.init s) : M.Run ok t :=
  run_of_guarded (Reachable.exec (.start hinit) he)

/-- Where every action of a kind lowers a rank, such actions lead to where none of them is possible
any more. -/
theorem exists_quiet {P : σ → Prop} (act : α → Prop) (rank : σ → Nat)
    (hstep : ∀ s a t, P s → act a → M.step s a = some t → P t ∧ rank t < rank s) {s : σ}
    (h : P s) :
    ∃ as t, (∀ a ∈ as, act a) ∧ M.exec s as = some t ∧ P t ∧
      ∀ a, act a → M.step t a = none := by
  generalize hn : rank s = n
  induction n using Nat.strong_induction_on generalizing s with
  | h n ih =>
      by_cases hquiet : ∀ a, act a → M.step s a = none
      · exact ⟨[], s, fun _ ha => absurd ha List.not_mem_nil, rfl, h, hquiet⟩
      · push Not at hquiet
        rcases hquiet with ⟨a, ha, hsome⟩
        rcases Option.ne_none_iff_exists'.1 hsome with ⟨t, ht⟩
        have hnext := hstep s a t h ha ht
        rcases ih (rank t) (hn ▸ hnext.2) hnext.1 rfl with ⟨as, u, has, hu, hP, hq⟩
        refine ⟨a :: as, u, ?_, (exec_cons ht).trans hu, hP, hq⟩
        intro b hb
        rcases List.mem_cons.1 hb with rfl | hb
        · exact ha
        · exact has b hb

end Machine

/-! ## Infinite runs -/

/-- The states `s` that the labels `a` lead through for ever. -/
def Trace {σ : Type u} {α : Type v} (M : Machine σ α) (s : Nat → σ) (a : Nat → α) : Prop :=
  ∀ n, M.step (s n) (a n) = some (s (n + 1))

theorem Trace.reachable {σ : Type u} {α : Type v} {M : Machine σ α} {s : Nat → σ} {a : Nat → α}
    (h : Trace M s a) (h₀ : M.Reachable (s 0)) (n : Nat) : M.Reachable (s n) := by
  induction n with
  | zero => exact h₀
  | succ n ih => exact .next ih trivial (h n)

/-- The goal is reached where every thread acts again and again: a step lowers the rank, or it is
a step of another thread than the one that is needed and leaves both alone. -/
theorem eventually_of_fair {σ : Type u} {τ : Type v} {s : Nat → σ} (goal : σ → Prop)
    (rank : σ → Nat) (needs : σ → τ) (acts : τ → Nat → Prop)
    (hfair : ∀ t n, ∃ m, n ≤ m ∧ acts t m)
    (hstep : ∀ n, ¬goal (s n) → goal (s (n + 1)) ∨ rank (s (n + 1)) < rank (s n) ∨
      rank (s (n + 1)) = rank (s n) ∧ needs (s (n + 1)) = needs (s n) ∧ ¬acts (needs (s n)) n) :
    ∃ n, goal (s n) := by
  by_contra hnever
  have hstep' := fun n => (hstep n fun hg => hnever ⟨n, hg⟩).resolve_left
    fun hg => hnever ⟨n + 1, hg⟩
  have hlower : ∀ n, ∃ m, rank (s m) < rank (s n) := by
    intro n
    by_contra hnone
    have hstays : ∀ k, rank (s (n + k)) = rank (s n) ∧ needs (s (n + k)) = needs (s n) ∧
        ¬acts (needs (s n)) (n + k) := by
      intro k
      induction k with
      | zero =>
          rcases hstep' n with hlt | ⟨-, -, hidle⟩
          · exact absurd ⟨n + 1, hlt⟩ hnone
          · exact ⟨rfl, rfl, hidle⟩
      | succ k ih =>
          obtain ⟨hr, hn, -⟩ := ih
          rcases hstep' (n + k) with hlt | ⟨hr', hn', -⟩
          · exact absurd ⟨n + k + 1, hr ▸ hlt⟩ hnone
          · rcases hstep' (n + (k + 1)) with hlt | ⟨-, -, hidle⟩
            · exact absurd ⟨n + (k + 1) + 1, hlt.trans_eq (hr'.trans hr)⟩ hnone
            · have hneeds : needs (s (n + (k + 1))) = needs (s n) := hn'.trans hn
              exact ⟨hr'.trans hr, hneeds, hneeds ▸ hidle⟩
    obtain ⟨m, hm, hacts⟩ := hfair (needs (s n)) n
    have hidle := (hstays (m - n)).2.2
    rw [Nat.add_sub_cancel' hm] at hidle
    exact hidle hacts
  have hdown : ∀ r n, rank (s n) ≠ r := by
    intro r
    induction r using Nat.strongRecOn with
    | ind r ih =>
        intro n hr
        obtain ⟨m, hm⟩ := hlower n
        exact ih _ (hr ▸ hm) m rfl
  exact hdown _ 0 rfl

/-! ## Waiting -/

/-- `t` waits, directly or through others, for a thread that waits for `t`. -/
def Deadlocked {τ : Type u} (waitsFor : τ → τ → Prop) (t : τ) : Prop :=
  Relation.TransGen waitsFor t t

/-- Nobody waits in a circle where every wait goes up in some rank. -/
theorem not_deadlocked_of_rank {τ : Type u} {β : Type v} [Preorder β] {waitsFor : τ → τ → Prop}
    (rank : τ → β) (h : ∀ t u, waitsFor t u → rank t < rank u) (t : τ) :
    ¬Deadlocked waitsFor t := by
  intro hd
  have hlt : ∀ {u}, Relation.TransGen waitsFor t u → rank t < rank u := by
    intro u hu
    induction hu with
    | single hw => exact h _ _ hw
    | tail _ hw ih => exact lt_trans ih (h _ _ hw)
  exact lt_irrefl _ (hlt hd)

section

variable {τ : Type u} {ρ : Type v} {waits : τ → Option ρ} {holds : τ → ρ → Prop}

/-- A thread waits for the holders of the resource it waits for. -/
def WaitsFor (waits : τ → Option ρ) (holds : τ → ρ → Prop) (t u : τ) : Prop :=
  ∃ r, waits t = some r ∧ holds u r

/-- A lock order: who waits for a resource holds only resources of lower levels. -/
theorem not_deadlocked_of_levels (level : ρ → Nat)
    (h : ∀ t r r', waits t = some r → holds t r' → level r' < level r) (t : τ) :
    ¬Deadlocked (WaitsFor waits holds) t := by
  refine not_deadlocked_of_rank (fun t => (waits t).elim (⊤ : WithTop Nat) fun r => level r) ?_ t
  rintro t u ⟨r, ht, hu⟩
  show (waits t).elim (⊤ : WithTop Nat) (fun r => (level r : WithTop Nat)) <
    (waits u).elim (⊤ : WithTop Nat) fun r => (level r : WithTop Nat)
  rw [ht]
  cases hw : waits u with
  | none => exact WithTop.coe_lt_top _
  | some r' => exact WithTop.coe_lt_coe.mpr (h u r' r hw hu)

end

end Hprd.Core

import Mathlib.Tactic

/-!
# A bounded queue of elements

What a ring buffer is for: a list of at most `cap` elements that is filled at the
back and emptied at the front, a whole block at a time or not at all. `step` is one
call and `run` a sequence of calls with all their answers.
-/

namespace Hprd.Core.Fifo

variable {α : Type*} {cap : Nat}

inductive Op (α : Type*)
  | offer (ys : List α)
  | take (n : Nat)
  | look (n : Nat)
  | drop (n : Nat)

/-- The number a call returns and the elements it hands out. -/
structure Answer (α : Type*) where
  ret : Int
  elements : List α
deriving DecidableEq

/-- A block for the back: all of it or nothing. -/
def offer (cap : Nat) (xs ys : List α) : Answer α × List α :=
  if cap < ys.length then (⟨-1, []⟩, xs)
  else if xs.length + ys.length ≤ cap then (⟨ys.length, []⟩, xs ++ ys)
  else (⟨0, []⟩, xs)

/-- The oldest `n` elements: all of them or none. -/
def take (cap : Nat) (xs : List α) (n : Nat) : Answer α × List α :=
  if cap < n then (⟨-1, []⟩, xs)
  else if n ≤ xs.length then (⟨n, xs.take n⟩, xs.drop n)
  else (⟨0, []⟩, xs)

def step (cap : Nat) (xs : List α) : Op α → Answer α × List α
  | .offer ys => offer cap xs ys
  | .take n => take cap xs n
  | .look n => ((take cap xs n).1, xs)
  | .drop n => (⟨(take cap xs n).1.ret, []⟩, (take cap xs n).2)

def run (cap : Nat) : List α → List (Op α) → List (Answer α) × List α
  | xs, [] => ([], xs)
  | xs, op :: ops =>
      let r := step cap xs op
      let rest := run cap r.2 ops
      (r.1 :: rest.1, rest.2)

theorem offer_room {xs ys : List α} (h : xs.length + ys.length ≤ cap) :
    offer cap xs ys = (⟨ys.length, []⟩, xs ++ ys) := by
  have hlen : ¬cap < ys.length := by omega
  simp [offer, hlen, h]

theorem take_there {xs : List α} {n : Nat} (hn : n ≤ xs.length) (h : n ≤ cap) :
    take cap xs n = (⟨n, xs.take n⟩, xs.drop n) := by
  simp [take, Nat.not_lt.2 h, hn]

theorem run_snoc (xs : List α) (ops : List (Op α)) (op : Op α) :
    run cap xs (ops ++ [op]) =
      ((run cap xs ops).1 ++ [(step cap (run cap xs ops).2 op).1],
        (step cap (run cap xs ops).2 op).2) := by
  induction ops generalizing xs with
  | nil => rfl
  | cons o ops ih =>
      simp only [List.cons_append, run, ih]

theorem offer_length_le {xs : List α} (h : xs.length ≤ cap) (ys : List α) :
    (offer cap xs ys).2.length ≤ cap := by
  unfold offer
  split
  · exact h
  split
  · next hroom =>
      rw [List.length_append]
      exact hroom
  · exact h

theorem take_length_le (xs : List α) (n : Nat) : (take cap xs n).2.length ≤ xs.length := by
  unfold take
  split
  · exact Nat.le_refl _
  split
  · rw [List.length_drop]
    exact Nat.sub_le ..
  · exact Nat.le_refl _

theorem step_length_le {xs : List α} (h : xs.length ≤ cap) (op : Op α) :
    (step cap xs op).2.length ≤ cap := by
  cases op with
  | offer ys => exact offer_length_le h ys
  | take n => exact (take_length_le xs n).trans h
  | look n => exact h
  | drop n => exact (take_length_le xs n).trans h

/-- No sequence of calls makes the queue hold more than its capacity. -/
theorem run_length_le {xs : List α} (h : xs.length ≤ cap) (ops : List (Op α)) :
    (run cap xs ops).2.length ≤ cap := by
  induction ops generalizing xs with
  | nil => exact h
  | cons op ops ih => exact ih (step_length_le h op)

end Hprd.Core.Fifo

import Hprd.Core.Bits

/-!
# Structures of a bit syntax

A reader of a syntax structure takes the elements that the structure was written with
from the front of any string of bits. Such readers follow one another and are repeated
in loops.
-/

namespace Hprd.Core.BitReader

variable {α β : Type}

/-- The elements are read, and nothing behind them. -/
def Reads (r : BitReader α) (es : List Element) (a : α) : Prop :=
  ∀ rest, r (codes es ++ rest) = some (a, rest)

/-- The syntax of a structure with an index, from index `i` on. -/
def loop (r : Nat → BitReader α) : Nat → Nat → BitReader (List α)
  | _, 0 => pure []
  | i, n + 1 => do
      let a ← r i
      let as ← loop r (i + 1) n
      pure (a :: as)

theorem reads_u {n v : Nat} (h : v < 2 ^ n) : Reads (u n) [.u n v] v := by
  intro rest
  simp only [codes_cons, codes_nil, List.append_nil, Element.code]
  exact readU_bitsOf rest h

theorem reads_pure (a : α) : Reads (pure a) [] a := fun _ => rfl

theorem Reads.next {r : BitReader α} {es : List Element} {a : α} (h : Reads r es a)
    (f : α → BitReader β) (bits : Bits) : (r >>= f) (codes es ++ bits) = f a bits := by
  show (r (codes es ++ bits)).bind (fun p => f p.1 p.2) = _
  rw [h bits]
  rfl

theorem Reads.bind {r : BitReader α} {f : α → BitReader β} {es fs : List Element} {a : α} {b : β}
    (h : Reads r es a) (h' : Reads (f a) fs b) : Reads (r >>= f) (es ++ fs) b := by
  intro rest
  rw [codes_append, List.append_assoc, h.next]
  exact h' rest

theorem bind_read {r : BitReader α} {bits rest : Bits} {a : α} (h : r bits = some (a, rest))
    (f : α → BitReader β) : (r >>= f) bits = f a rest := by
  show (r bits).bind (fun p => f p.1 p.2) = _
  rw [h]
  rfl

theorem of_check {c : Prop} [Decidable c] {bits rest : Bits} {a : Unit}
    (h : check c bits = some (a, rest)) : c := by
  by_contra hc
  rw [check, if_neg hc] at h
  cases h

/-- A field splits into two. -/
theorem u_split {m n v : Nat} {bits rest : Bits} (h : u (m + n) bits = some (v, rest)) :
    ∃ high low behind, u m bits = some (high, behind) ∧ u n behind = some (low, rest) ∧
      v = high * 2 ^ n + low := by
  unfold u at h ⊢
  induction m generalizing bits v with
  | zero =>
      rw [Nat.zero_add] at h
      exact ⟨0, v, bits, rfl, h, by rw [Nat.zero_mul, Nat.zero_add]⟩
  | succ m ih =>
      rw [Nat.succ_add] at h
      cases bits with
      | nil => cases h
      | cons b bits =>
          obtain ⟨⟨w, tail⟩, hw, heq⟩ := Option.map_eq_some_iff.mp h
          cases heq
          obtain ⟨high, low, behind, hhigh, hlow, rfl⟩ := ih hw
          refine ⟨b.toNat * 2 ^ m + high, low, behind, ?_, hlow, ?_⟩
          · rw [readU, hhigh]
            rfl
          · dsimp only
            ring

/-- A structure under a condition is there where the condition holds. -/
theorem reads_cond {r : BitReader α} {es : List Element} {a : α} (c : Prop) [Decidable c]
    (h : Reads r es a) :
    Reads (cond c r) (if c then es else []) (if c then some a else none) := by
  by_cases hc : c
  · have hsome := h.bind (f := fun a => pure (some a)) (reads_pure (some a))
    rw [List.append_nil, bind_pure_comp] at hsome
    rw [cond, if_pos hc, if_pos hc, if_pos hc]
    exact hsome
  · rw [cond, if_neg hc, if_neg hc, if_neg hc]
    exact reads_pure none

theorem reads_loop {r : Nat → BitReader α} {es : Nat → List Element} {a : Nat → α} {i n : Nat}
    (h : ∀ k, i ≤ k → k < i + n → Reads (r k) (es k) (a k)) :
    Reads (loop r i n) ((List.range' i n).flatMap es) ((List.range' i n).map a) := by
  induction n generalizing i with
  | zero => exact reads_pure []
  | succ n ih =>
      rw [List.range'_succ, List.flatMap_cons, List.map_cons]
      apply (h i le_rfl (by omega)).bind
      intro rest
      have hrest := @ih (i + 1) fun k hik hk => h k (by omega) (by omega)
      exact hrest.next (fun as => pure (a i :: as)) rest

theorem reads_flags {flag : Nat → Nat} (h : ∀ k, flag k < 2) (n : Nat) :
    Reads (loop (fun _ => u 1) 0 n) ((List.range n).map fun i => .u 1 (flag i))
      ((List.range n).map flag) := by
  have hloop : Reads (loop (fun _ => u 1) 0 n) ((List.range' 0 n).flatMap fun i => [.u 1 (flag i)])
      ((List.range' 0 n).map flag) := reads_loop fun k _ _ => reads_u (h k)
  rw [← List.map_eq_flatMap, ← List.range_eq_range'] at hloop
  exact hloop

end Hprd.Core.BitReader

import Mathlib.Tactic

/-!
# Serial numbers

A counter that only goes up is sent as its low `w` bits. Two counters that are less
than half a turn apart are told apart, and ordered, by the signed difference of what
is sent, however often the counters have wrapped.
-/

namespace Hprd.Core.Serial

variable {w m n : Nat}

/-- Less than half a turn apart. -/
def Near (w m n : Nat) : Prop := 2 * m < 2 * n + 2 ^ w ∧ 2 * n < 2 * m + 2 ^ w

theorem Near.symm (h : Near w m n) : Near w n m := And.symm h

theorem toInt_sub (h : Near w m n) :
    (BitVec.ofNat w m - BitVec.ofNat w n).toInt = (m : Int) - n := by
  obtain ⟨hm, hn⟩ := h
  rw [BitVec.toInt_sub, BitVec.toInt_ofNat', BitVec.toInt_ofNat', ← Int.sub_bmod]
  have hpow : ((2 ^ w : Nat) : Int) = 2 ^ w := Int.natCast_pow 2 w
  refine Int.bmod_eq_of_le_mul_two ?_ ?_
  · omega
  · omega

theorem ofNat_inj (h : Near w m n) : BitVec.ofNat w m = BitVec.ofNat w n ↔ m = n := by
  constructor
  · intro heq
    have hzero := toInt_sub h
    rw [heq, BitVec.sub_self, BitVec.toInt_zero] at hzero
    omega
  · rintro rfl
    rfl

/-- The number that a word stands for, counted from a number not above it. -/
theorem exists_from (base : Nat) (x : BitVec w) :
    ∃ d < 2 ^ w, x = BitVec.ofNat w (base + d) := by
  refine ⟨(x - BitVec.ofNat w base).toNat, (x - BitVec.ofNat w base).isLt, ?_⟩
  rw [BitVec.ofNat_add, BitVec.ofNat_toNat, BitVec.setWidth_eq, BitVec.add_comm,
    BitVec.sub_add_cancel]

end Hprd.Core.Serial

import Mathlib.Tactic

/-!
# Fixed-width bytes of a number

`leBytes k n` are the `k` low bytes of `n`, least significant first. Both byte
orders of a wire format are read off this one codec: the network order is its
reverse.
-/

namespace Hprd.Core

abbrev Bytes := List UInt8

/-- The `k` low bytes of `n`, least significant first. -/
def leBytes : Nat → Nat → Bytes
  | 0, _ => []
  | k + 1, n => UInt8.ofNat n :: leBytes k (n / 256)

/-- The number whose base-256 digits are `bs`, least significant first. -/
def ofLeBytes : Bytes → Nat
  | [] => 0
  | b :: bs => b.toNat + 256 * ofLeBytes bs

@[simp] theorem leBytes_length (k n : Nat) : (leBytes k n).length = k := by
  induction k generalizing n with
  | zero => rfl
  | succ k ih => simp [leBytes, ih]

theorem ofLeBytes_leBytes (k n : Nat) : ofLeBytes (leBytes k n) = n % 256 ^ k := by
  induction k generalizing n with
  | zero => simp [leBytes, ofLeBytes, Nat.mod_one]
  | succ k ih =>
      have hb : (UInt8.ofNat n).toNat = n % 256 := by simp
      rw [leBytes, ofLeBytes, ih, hb, Nat.pow_succ', Nat.mod_mul]

theorem leBytes_ofLeBytes (bs : Bytes) : leBytes bs.length (ofLeBytes bs) = bs := by
  induction bs with
  | nil => rfl
  | cons b bs ih =>
      have hb := b.toNat_lt
      have hdiv : (b.toNat + 256 * ofLeBytes bs) / 256 = ofLeBytes bs := by omega
      have hlow : UInt8.ofNat (b.toNat + 256 * ofLeBytes bs) = b := by
        apply UInt8.toNat_inj.mp
        rw [UInt8.toNat_ofNat']
        omega
      simp only [List.length_cons, leBytes, ofLeBytes, hdiv, hlow, ih]

theorem ofLeBytes_lt (bs : Bytes) : ofLeBytes bs < 256 ^ bs.length := by
  induction bs with
  | nil => simp [ofLeBytes]
  | cons b bs ih =>
      have hb := b.toNat_lt
      simp only [ofLeBytes, List.length_cons, Nat.pow_succ]
      omega

/-- The four bytes of a 32-bit word in network order. -/
def be32 (w : UInt32) : Bytes := (leBytes 4 w.toNat).reverse

/-- The 32-bit word whose network-order bytes are `bs`. -/
def ofBe32 (bs : Bytes) : UInt32 := UInt32.ofNat (ofLeBytes bs.reverse)

@[simp] theorem be32_length (w : UInt32) : (be32 w).length = 4 := by simp [be32]

@[simp] theorem ofBe32_be32 (w : UInt32) : ofBe32 (be32 w) = w := by
  have hw : w.toNat < 2 ^ 32 := w.toNat_lt
  apply UInt32.toNat_inj.mp
  rw [ofBe32, be32, List.reverse_reverse, ofLeBytes_leBytes, UInt32.toNat_ofNat']
  omega

theorem be32_ofBe32 {bs : Bytes} (h : bs.length = 4) : be32 (ofBe32 bs) = bs := by
  have hlt := ofLeBytes_lt bs.reverse
  rw [List.length_reverse, h] at hlt
  have hw : (ofBe32 bs).toNat = ofLeBytes bs.reverse := by
    rw [ofBe32, UInt32.toNat_ofNat']
    omega
  have hl : bs.reverse.length = 4 := by simpa using h
  rw [be32, hw, ← hl, leBytes_ofLeBytes, List.reverse_reverse]

theorem be32_injective : Function.Injective be32 := fun v w h => by
  rw [← ofBe32_be32 v, h, ofBe32_be32]

end Hprd.Core

import Mathlib.Tactic

/-!
# Checked arithmetic of C integers

An operation on `int` whose result cannot be represented has no value, and neither
has a division by zero. Conversions to and from unsigned types wrap.
-/

namespace Hprd.Core

/-- An exact result as an `int`. -/
def int32 (i : Int) : Option Int := if -2 ^ 31 ≤ i ∧ i < 2 ^ 31 then some i else none

def intDiv (a b : Int) : Option Int := if b = 0 then none else int32 (a.tdiv b)

/-- `a % b` on `int`, defined where `a / b` is. -/
def intMod (a b : Int) : Option Int := (intDiv a b).map fun _ => a.tmod b

/-- `a % b` on an unsigned type. -/
def unsignedMod (a b : Nat) : Option Nat := if b = 0 then none else some (a % b)

/-- An exact result of unsigned arithmetic, converted to `int`. -/
def wrapInt32 (i : Int) : Int := Int.bmod i (2 ^ 32)

def toInt32 (n : Nat) : Int := wrapInt32 n

def toUInt64 (i : Int) : Nat := (i % 2 ^ 64).toNat

def toUInt32 (i : Int) : Nat := (i % 2 ^ 32).toNat

theorem int32_eq_some {i : Int} (h : -2 ^ 31 ≤ i) (h' : i < 2 ^ 31) : int32 i = some i :=
  if_pos ⟨h, h'⟩

theorem intDiv_natCast {a b : Nat} (ha : a < 2 ^ 31) (hb : 0 < b) :
    intDiv a b = some ((a / b : Nat) : Int) := by
  have hle : a / b ≤ a := Nat.div_le_self a b
  have hdiv : (a : Int).tdiv b = ((a / b : Nat) : Int) := Int.ofNat_tdiv a b
  rw [intDiv, if_neg (by omega), hdiv]
  generalize a / b = q at *
  exact int32_eq_some (by omega) (by omega)

theorem intMod_natCast {a b : Nat} (ha : a < 2 ^ 31) (hb : 0 < b) :
    intMod a b = some ((a % b : Nat) : Int) := by
  rw [intMod, intDiv_natCast ha hb]
  rfl

theorem unsignedMod_of_pos {a b : Nat} (hb : 0 < b) : unsignedMod a b = some (a % b) :=
  if_neg (by omega)

theorem wrapInt32_of_fits {i : Int} (h : -2 ^ 31 ≤ i) (h' : i < 2 ^ 31) : wrapInt32 i = i := by
  unfold wrapInt32
  rw [Int.bmod_def]
  omega

theorem toInt32_of_lt {n : Nat} (h : n < 2 ^ 31) : toInt32 n = n :=
  wrapInt32_of_fits (by omega) (by omega)

theorem toUInt64_natCast {n : Nat} (h : n < 2 ^ 64) : toUInt64 n = n := by
  unfold toUInt64
  omega

theorem toUInt32_natCast {n : Nat} (h : n < 2 ^ 32) : toUInt32 n = n := by
  unfold toUInt32
  omega

theorem int32_eq_some_iff {i j : Int} : int32 i = some j ↔ (-2 ^ 31 ≤ i ∧ i < 2 ^ 31) ∧ i = j := by
  unfold int32
  rw [Option.ite_none_right_eq_some, Option.some.injEq]

end Hprd.Core

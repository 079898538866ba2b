import Hprd.Core.Bytes

/-!
# Bit strings and their variable-length codes

A bit string is a list of bits, most significant first. The codes are those of a
header syntax with fixed-length fields `u(n)` and with the Exp-Golomb codes
`ue(v)` and `se(v)`; a reader is told the descriptors and finds the elements.
-/

namespace Hprd.Core

abbrev Bits := List Bool

/-- The `n` low bits of `v`, most significant first. -/
def bitsOf : Nat → Nat → Bits
  | 0, _ => []
  | n + 1, v => v.testBit n :: bitsOf n v

def bytesBits (bs : Bytes) : Bits := bs.flatMap fun b => bitsOf 8 b.toNat

@[simp] theorem bitsOf_length (n v : Nat) : (bitsOf n v).length = n := by
  induction n with
  | zero => rfl
  | succ n ih => simp [bitsOf, ih]

theorem bitsOf_congr {n v w : Nat} (h : ∀ i < n, v.testBit i = w.testBit i) :
    bitsOf n v = bitsOf n w := by
  induction n with
  | zero => rfl
  | succ n ih =>
      rw [bitsOf, bitsOf, h n (Nat.lt_succ_self n)]
      rw [ih fun i hi => h i (Nat.lt_succ_of_lt hi)]

theorem bitsOf_mod {n k : Nat} (v : Nat) (h : n ≤ k) : bitsOf n (v % 2 ^ k) = bitsOf n v := by
  apply bitsOf_congr
  intro i hi
  rw [Nat.testBit_mod_two_pow, decide_eq_true (by omega : i < k), Bool.true_and]

theorem bitsOf_add (m n v : Nat) : bitsOf (m + n) v = bitsOf m (v / 2 ^ n) ++ bitsOf n v := by
  induction m with
  | zero => simp [bitsOf]
  | succ m ih =>
      rw [Nat.succ_add, bitsOf, bitsOf, ih, Nat.testBit_div_two_pow]
      rfl

theorem bitsOf_zero (n : Nat) : bitsOf n 0 = List.replicate n false := by
  induction n with
  | zero => rfl
  | succ n ih => rw [bitsOf, ih, Nat.zero_testBit, List.replicate_succ]

/-- Shifting a number up and putting another below it joins their bits. -/
theorem bitsOf_shiftLeft_or {n v : Nat} (m w : Nat) (h : v < 2 ^ n) :
    bitsOf (m + n) (w <<< n ||| v) = bitsOf m w ++ bitsOf n v := by
  have hhigh : (w <<< n ||| v) / 2 ^ n = w := by
    rw [Nat.shiftLeft_eq, Nat.mul_comm, ← Nat.two_pow_add_eq_or_of_lt h,
      Nat.mul_add_div (by positivity), Nat.div_eq_of_lt h, Nat.add_zero]
  rw [bitsOf_add, hhigh]
  congr 1
  apply bitsOf_congr
  intro i hi
  rw [Nat.testBit_or, Nat.testBit_shiftLeft]
  simp [show ¬ n ≤ i by omega]

@[simp] theorem bytesBits_length (bs : Bytes) : (bytesBits bs).length = 8 * bs.length := by
  induction bs with
  | nil => rfl
  | cons b bs ih =>
      simp only [bytesBits, List.flatMap_cons, List.length_append, bitsOf_length,
        List.length_cons] at ih ⊢
      omega

theorem bytesBits_append (bs cs : Bytes) : bytesBits (bs ++ cs) = bytesBits bs ++ bytesBits cs := by
  simp [bytesBits]

/-- The `k` low bytes of a number, the highest first, spell its `8 * k` low bits. -/
theorem bytesBits_reverse_leBytes (k v : Nat) :
    bytesBits (leBytes k v).reverse = bitsOf (8 * k) v := by
  induction k generalizing v with
  | zero => rfl
  | succ k ih =>
      have hbyte : (UInt8.ofNat v).toNat = v % 2 ^ 8 := by simp
      rw [leBytes, List.reverse_cons, bytesBits_append, ih, Nat.mul_succ, bitsOf_add]
      congr 1
      simp only [bytesBits, List.flatMap_cons, List.flatMap_nil, List.append_nil, hbyte]
      exact bitsOf_mod v le_rfl

/-! ### Reading -/

def readU : Nat → Bits → Option (Nat × Bits)
  | 0, bs => some (0, bs)
  | _ + 1, [] => none
  | n + 1, b :: bs => (readU n bs).map fun r => (b.toNat * 2 ^ n + r.1, r.2)

/-- The number of zero bits up to the first one, which is consumed. -/
def leadingZeroBits : Bits → Option (Nat × Bits)
  | [] => none
  | true :: bs => some (0, bs)
  | false :: bs => (leadingZeroBits bs).map fun r => (r.1 + 1, r.2)

/-- `codeNum = 2 ^ leadingZeroBits - 1 + read_bits (leadingZeroBits)`. -/
def readUe (bs : Bits) : Option (Nat × Bits) :=
  (leadingZeroBits bs).bind fun z =>
    (readU z.1 z.2).map fun r => (2 ^ z.1 - 1 + r.1, r.2)

/-- The `k`-th value in the order 0, 1, -1, 2, -2, … -/
def seValue (k : Nat) : Int := if k % 2 = 0 then -((k / 2 : Nat) : Int) else ((k + 1) / 2 : Nat)

def readSe (bs : Bits) : Option (Int × Bits) := (readUe bs).map fun r => (seValue r.1, r.2)

/-- The place of a value in the order 0, 1, -1, 2, -2, … -/
def seIndex (v : Int) : Nat := if v ≤ 0 then 2 * v.natAbs else 2 * v.natAbs - 1

/-- The Exp-Golomb code of order 0. -/
def ueCode (v : Nat) : Bits :=
  List.replicate (v + 1).log2 false ++ bitsOf ((v + 1).log2 + 1) (v + 1)

theorem readU_bitsOf {n v : Nat} (rest : Bits) (h : v < 2 ^ n) :
    readU n (bitsOf n v ++ rest) = some (v, rest) := by
  have hmod : ∀ v : Nat, readU n (bitsOf n v ++ rest) = some (v % 2 ^ n, rest) := by
    clear h
    induction n with
    | zero => intro v; simp [readU, bitsOf, Nat.mod_one]
    | succ n ih =>
        intro v
        have hbit : (v.testBit n).toNat = v / 2 ^ n % 2 := Nat.toNat_testBit v n
        rw [bitsOf, List.cons_append, readU, ih, Option.map_some, hbit, Nat.pow_succ, Nat.mod_mul]
        simp only [Option.some.injEq, Prod.mk.injEq, and_true]
        ring
  rw [hmod, Nat.mod_eq_of_lt h]

theorem leadingZeroBits_replicate (n : Nat) (rest : Bits) :
    leadingZeroBits (List.replicate n false ++ true :: rest) = some (n, rest) := by
  induction n with
  | zero => rfl
  | succ n ih => rw [List.replicate_succ, List.cons_append, leadingZeroBits, ih, Option.map_some]

theorem readUe_ueCode (v : Nat) (rest : Bits) : readUe (ueCode v ++ rest) = some (v, rest) := by
  have hle : 2 ^ (v + 1).log2 ≤ v + 1 := Nat.log2_self_le (by omega)
  have hlt : v + 1 < 2 ^ ((v + 1).log2 + 1) := Nat.lt_log2_self
  rw [ueCode]
  generalize (v + 1).log2 = k at hle hlt
  rw [Nat.pow_succ] at hlt
  -- the first one of the code is the top bit of `v + 1`
  have hdiv : (v + 1) / 2 ^ k = 1 := by
    apply Nat.div_eq_of_lt_le
    · omega
    · omega
  have htop : (v + 1).testBit k = true := by
    rw [Nat.testBit_eq_decide_div_mod_eq, hdiv]
    rfl
  have hlow : bitsOf k (v + 1) = bitsOf k (v + 1 - 2 ^ k) := by
    rw [← bitsOf_mod (v + 1) le_rfl, Nat.mod_eq_sub_mod hle, bitsOf_mod _ le_rfl]
  have hfits : v + 1 - 2 ^ k < 2 ^ k := by omega
  rw [bitsOf, htop, List.append_assoc, List.cons_append, readUe, leadingZeroBits_replicate,
    Option.bind_some, hlow, readU_bitsOf rest hfits, Option.map_some]
  simp only [Option.some.injEq, Prod.mk.injEq, and_true]
  omega

theorem seValue_seIndex (v : Int) : seValue (seIndex v) = v := by
  unfold seValue seIndex
  split
  · split
    · omega
    · omega
  · split
    · omega
    · omega

theorem readSe_ueCode (v : Int) (rest : Bits) :
    readSe (ueCode (seIndex v) ++ rest) = some (v, rest) := by
  rw [readSe, readUe_ueCode, Option.map_some, seValue_seIndex]

/-! ### Syntax elements -/

/-- A value with the descriptor it is coded by. -/
inductive Element
  | u (n v : Nat)
  | ue (v : Nat)
  | se (v : Int)
deriving DecidableEq, Repr

inductive Descriptor
  | u (n : Nat)
  | ue
  | se
deriving DecidableEq, Repr

namespace Element

def descriptor : Element → Descriptor
  | u n _ => .u n
  | ue _ => .ue
  | se _ => .se

def code : Element → Bits
  | u n v => bitsOf n v
  | ue v => ueCode v
  | se v => ueCode (seIndex v)

/-- A fixed-length field holds its value. -/
def Fits : Element → Prop
  | u n v => v < 2 ^ n
  | ue _ => True
  | se _ => True

instance : DecidablePred Fits
  | u n v => inferInstanceAs (Decidable (v < 2 ^ n))
  | ue _ => inferInstanceAs (Decidable True)
  | se _ => inferInstanceAs (Decidable True)

end Element

def Descriptor.read : Descriptor → Bits → Option (Element × Bits)
  | u n, bs => (readU n bs).map fun r => (.u n r.1, r.2)
  | ue, bs => (readUe bs).map fun r => (.ue r.1, r.2)
  | se, bs => (readSe bs).map fun r => (.se r.1, r.2)

def codes (es : List Element) : Bits := es.flatMap Element.code

/-- The elements the descriptors announce, and what stands behind them. -/
def readAll : List Descriptor → Bits → Option (List Element × Bits)
  | [], bs => some ([], bs)
  | d :: ds, bs =>
      (d.read bs).bind fun r => (readAll ds r.2).map fun q => (r.1 :: q.1, q.2)

@[simp] theorem codes_nil : codes [] = [] := rfl

@[simp] theorem codes_cons (e : Element) (es : List Element) :
    codes (e :: es) = e.code ++ codes es := rfl

@[simp] theorem codes_append (es fs : List Element) : codes (es ++ fs) = codes es ++ codes fs := by
  simp [codes]

theorem Element.read_code {e : Element} (rest : Bits) (h : e.Fits) :
    e.descriptor.read (e.code ++ rest) = some (e, rest) := by
  cases e with
  | u n v => rw [descriptor, code, Descriptor.read, readU_bitsOf rest h, Option.map_some]
  | ue v => rw [descriptor, code, Descriptor.read, readUe_ueCode, Option.map_some]
  | se v => rw [descriptor, code, Descriptor.read, readSe_ueCode, Option.map_some]

/-- A reader that is told the descriptors gets the elements back. -/
theorem readAll_codes {es : List Element} (rest : Bits) (h : ∀ e ∈ es, e.Fits) :
    readAll (es.map Element.descriptor) (codes es ++ rest) = some (es, rest) := by
  induction es with
  | nil => rfl
  | cons e es ih =>
      have he : e.Fits := h e (List.mem_cons_self ..)
      have hes : ∀ f ∈ es, f.Fits := fun f hf => h f (List.mem_cons_of_mem e hf)
      rw [List.map_cons, codes_cons, List.append_assoc, readAll, Element.read_code _ he,
        Option.bind_some, ih hes, Option.map_some]

/-! ### Readers -/

/-- A reader consumes a string of bits from the front. -/
abbrev BitReader (α : Type) := StateT Bits Option α

namespace BitReader

def u (n : Nat) : BitReader Nat := readU n

def ue : BitReader Nat := readUe

def se : BitReader Int := readSe

def cond (c : Prop) [Decidable c] {α : Type} (r : BitReader α) : BitReader (Option α) :=
  if c then some <$> r else pure none

/-- Syntax under a condition that a reader relies on. -/
def check (c : Prop) [Decidable c] : BitReader Unit := if c then pure () else failure

section

variable {α β : Type} {rest : Bits}

theorem bind_u {n v : Nat} (h : v < 2 ^ n) (f : Nat → BitReader β) :
    (u n >>= f) (bitsOf n v ++ rest) = f v rest := by
  show (readU n (bitsOf n v ++ rest)).bind (fun r => f r.1 r.2) = _
  rw [readU_bitsOf rest h]
  rfl

theorem bind_ue (v : Nat) (f : Nat → BitReader β) : (ue >>= f) (ueCode v ++ rest) = f v rest := by
  show (readUe (ueCode v ++ rest)).bind (fun r => f r.1 r.2) = _
  rw [readUe_ueCode]
  rfl

theorem bind_se (v : Int) (f : Int → BitReader β) :
    (se >>= f) (ueCode (seIndex v) ++ rest) = f v rest := by
  show (readSe (ueCode (seIndex v) ++ rest)).bind (fun r => f r.1 r.2) = _
  rw [readSe_ueCode]
  rfl

theorem bind_cond_pos {c : Prop} [Decidable c] (h : c) (r : BitReader α)
    (f : Option α → BitReader β) (bs : Bits) :
    (cond c r >>= f) bs = (r >>= fun a => f (some a)) bs := by
  rw [cond, if_pos h, bind_map_left]

theorem bind_cond_neg {c : Prop} [Decidable c] (h : ¬ c) (r : BitReader α)
    (f : Option α → BitReader β) (bs : Bits) : (cond c r >>= f) bs = f none bs := by
  rw [cond, if_neg h, pure_bind]

theorem bind_check {c : Prop} [Decidable c] (h : c) (f : Unit → BitReader β) (bs : Bits) :
    (check c >>= f) bs = f () bs := by
  rw [check, if_pos h, pure_bind]

end

end BitReader

end Hprd.Core

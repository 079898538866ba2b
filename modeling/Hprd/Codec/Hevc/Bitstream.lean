import Hprd.Core.Bits

/-!
# The bit writer of the HEVC headers

The encoder writes its headers into a buffer of 32-bit words. A word collects bits
from below and may keep stale bits above them; when it is full its bytes are
swapped, so that the memory reads most significant bit first. A step that C leaves
undefined, an access outside the buffer or a signed overflow, has no value.
-/

namespace Hprd.Codec.Hevc

open Hprd.Core

abbrev Word := BitVec 32

def intMax : Nat := 2 ^ 31 - 1

def bitstreamAllocateStepping : Nat := 4096

structure Bitstream where
  buffer : Nat → Word
  bitOffset : Nat
  maxSizeInDword : Nat

/-- Byte `i` of a word in memory. -/
def pval (val : Word) (i : Nat) : Nat := val.toNat / 256 ^ i % 256

def vaSwap32 (val : Word) : Word :=
  BitVec.ofNat 32 (pval val 0 <<< 24 ||| pval val 1 <<< 16 ||| pval val 2 <<< 8 ||| pval val 3 <<< 0)

/-- `val << k`. A shift by the whole width is taken of a zero word only. -/
def shl (val : Word) (k : Nat) : Option Word :=
  if k < 32 then some (val <<< k) else if k = 32 ∧ val = 0 then some 0 else none

def shr (val : Word) (k : Nat) : Option Word := if k < 32 then some (val >>> k) else none

namespace Bitstream

def load (bs : Bitstream) (i : Nat) : Option Word :=
  if i < bs.maxSizeInDword then some (bs.buffer i) else none

def store (bs : Bitstream) (i : Nat) (val : Word) : Option Bitstream :=
  if i < bs.maxSizeInDword then some { bs with buffer := Function.update bs.buffer i val } else none

/-- The buffer grows when its last word is full. -/
def realloc (bs : Bitstream) (pos : Nat) : Bitstream :=
  if pos + 1 = bs.maxSizeInDword then
    { bs with maxSizeInDword := bs.maxSizeInDword + bitstreamAllocateStepping }
  else bs

/-- The memory that is allocated: every byte of the buffer, word after word. -/
def memory (bs : Bitstream) : Bytes :=
  (List.range bs.maxSizeInDword).flatMap fun i => leBytes 4 (bs.buffer i).toNat

end Bitstream

/-- `junk` is what stands in memory that a `realloc` adds. -/
def bitstreamStart (junk : Nat → Word) : Bitstream :=
  { buffer := fun i => if i < bitstreamAllocateStepping then 0 else junk i
    bitOffset := 0
    maxSizeInDword := bitstreamAllocateStepping }

def bitstreamEnd (bs : Bitstream) : Option Bitstream :=
  let pos := bs.bitOffset / 32
  let bitOffset := bs.bitOffset % 32
  let bitLeft := 32 - bitOffset
  if bitOffset ≠ 0 then
    (bs.load pos).bind fun w => (shl w bitLeft).bind fun w => bs.store pos (vaSwap32 w)
  else some bs

def putUi (bs : Bitstream) (val : Word) (sizeInBits : Nat) : Option Bitstream :=
  let pos := bs.bitOffset / 32
  let bitOffset := bs.bitOffset % 32
  let bitLeft := 32 - bitOffset
  if sizeInBits = 0 then some bs
  else if intMax < bs.bitOffset + sizeInBits then none
  else
    let bs := { bs with bitOffset := bs.bitOffset + sizeInBits }
    if sizeInBits < bitLeft then
      (bs.load pos).bind fun w => bs.store pos (w <<< sizeInBits ||| val)
    else
      let sizeInBits := sizeInBits - bitLeft
      (bs.load pos).bind fun w => (shl w bitLeft).bind fun w => (shr val sizeInBits).bind fun v =>
      (bs.store pos (w ||| v)).bind fun bs => (bs.load pos).bind fun w =>
      (bs.store pos (vaSwap32 w)).bind fun bs => (bs.realloc pos).store (pos + 1) val

/-- `while (tmp_val) { tmp_val >>= 1; size_in_bits++; }` -/
def countBits (tmpVal : Nat) : Nat :=
  if h : tmpVal = 0 then 0 else countBits (tmpVal / 2) + 1
decreasing_by omega

/-- The loop never ends on a negative `int`, and a zero asks for `-1` bits. -/
def putUe (bs : Bitstream) (val : Word) : Option Bitstream :=
  let val := val + 1
  if 0 < val.toInt then
    let sizeInBits := countBits val.toNat
    (putUi bs 0 (sizeInBits - 1)).bind fun bs => putUi bs val sizeInBits
  else none

def putSe (bs : Bitstream) (val : Int) : Option Bitstream :=
  if val.natAbs < 2 ^ 30 then
    putUe bs (BitVec.ofInt 32 (if val ≤ 0 then -2 * val else 2 * val - 1))
  else none

def byteAligning (bs : Bitstream) (bit : Bool) : Option Bitstream :=
  let bitOffset := bs.bitOffset % 8
  let bitLeft := 8 - bitOffset
  if bitOffset = 0 then some bs
  else putUi bs (if bit then (1 <<< bitLeft) - 1 else 0) bitLeft

def rbspTrailingBits (bs : Bitstream) : Option Bitstream :=
  (putUi bs 1 1).bind fun bs => byteAligning bs false

def putElement (bs : Bitstream) : Element → Option Bitstream
  | .u n v => putUi bs (BitVec.ofNat 32 v) n
  | .ue v => putUe bs (BitVec.ofNat 32 v)
  | .se v => putSe bs v

/-- A list of elements, from `bitstream_start` to `bitstream_end`. -/
def writeHeader (junk : Nat → Word) (es : List Element) : Option Bitstream :=
  ((es.foldlM putElement (bitstreamStart junk)).bind rbspTrailingBits).bind bitstreamEnd

/-! ### What a buffer says -/

/-- The bits of a word in memory. -/
def memBits (w : Word) : Bits := bytesBits (leBytes 4 w.toNat)

@[simp] theorem memBits_length (w : Word) : (memBits w).length = 32 := by simp [memBits]

theorem shiftLeft_or {i a b : Nat} (h : b < 2 ^ i) : a <<< i ||| b = a * 2 ^ i + b := by
  rw [← Nat.shiftLeft_add_eq_or_of_lt h, Nat.shiftLeft_eq]

theorem toNat_vaSwap32 (w : Word) :
    (vaSwap32 w).toNat =
      pval w 0 * 2 ^ 24 + (pval w 1 * 2 ^ 16 + (pval w 2 * 2 ^ 8 + pval w 3)) := by
  have h0 : pval w 0 < 256 := Nat.mod_lt _ (by decide)
  have h1 : pval w 1 < 256 := Nat.mod_lt _ (by decide)
  have h2 : pval w 2 < 256 := Nat.mod_lt _ (by decide)
  have h3 : pval w 3 < 256 := Nat.mod_lt _ (by decide)
  rw [vaSwap32, BitVec.toNat_ofNat]
  generalize pval w 0 = b0, pval w 1 = b1, pval w 2 = b2, pval w 3 = b3 at *
  have hor : b0 <<< 24 ||| b1 <<< 16 ||| b2 <<< 8 ||| b3 <<< 0 =
      b0 * 2 ^ 24 + (b1 * 2 ^ 16 + (b2 * 2 ^ 8 + b3)) := by
    rw [Nat.or_assoc, Nat.or_assoc, Nat.shiftLeft_zero, shiftLeft_or (by omega : b3 < 2 ^ 8),
      shiftLeft_or (by omega : b2 * 2 ^ 8 + b3 < 2 ^ 16), shiftLeft_or (by omega)]
  rw [hor]
  exact Nat.mod_eq_of_lt (by omega)

theorem leBytes_eq_pval (w : Word) :
    leBytes 4 w.toNat = [UInt8.ofNat (pval w 0), UInt8.ofNat (pval w 1), UInt8.ofNat (pval w 2),
      UInt8.ofNat (pval w 3)] := by
  have hmod : ∀ n : Nat, UInt8.ofNat (n % 256) = UInt8.ofNat n := by
    intro n
    apply UInt8.toNat_inj.mp
    simp
  simp only [leBytes, pval, hmod, Nat.div_div_eq_div_mul, Nat.reduceMul, Nat.reducePow, Nat.div_one]

theorem leBytes_vaSwap32 (w : Word) :
    leBytes 4 (vaSwap32 w).toNat = (leBytes 4 w.toNat).reverse := by
  have hlt : ∀ i, pval w i < 256 := fun i => Nat.mod_lt _ (by decide)
  have hpval : ∀ i < 4, pval (vaSwap32 w) i = pval w (3 - i) := by
    intro i hi
    have h0 := hlt 0
    have h1 := hlt 1
    have h2 := hlt 2
    have h3 := hlt 3
    rw [pval, toNat_vaSwap32]
    interval_cases i
    · show _ = pval w 3
      omega
    · show _ = pval w 2
      omega
    · show _ = pval w 1
      omega
    · show _ = pval w 0
      omega
  rw [leBytes_eq_pval, leBytes_eq_pval, hpval 0 (by decide), hpval 1 (by decide),
    hpval 2 (by decide), hpval 3 (by decide)]
  rfl

theorem memBits_vaSwap32 (w : Word) : memBits (vaSwap32 w) = bitsOf 32 w.toNat := by
  rw [memBits, leBytes_vaSwap32, bytesBits_reverse_leBytes]

/-- The first `p` words of a buffer, as memory. -/
def wordsBits (buffer : Nat → Word) (p : Nat) : Bits :=
  (List.range p).flatMap fun i => memBits (buffer i)

@[simp] theorem wordsBits_length (buffer : Nat → Word) (p : Nat) :
    (wordsBits buffer p).length = 32 * p := by
  simp [wordsBits, Nat.mul_comm]

theorem wordsBits_succ (buffer : Nat → Word) (p : Nat) :
    wordsBits buffer (p + 1) = wordsBits buffer p ++ memBits (buffer p) := by
  simp [wordsBits, List.range_succ]

theorem wordsBits_congr {b c : Nat → Word} {p : Nat} (h : ∀ i < p, b i = c i) :
    wordsBits b p = wordsBits c p := by
  induction p with
  | zero => rfl
  | succ p ih =>
      rw [wordsBits_succ, wordsBits_succ, h p (Nat.lt_succ_self p)]
      rw [ih fun i hi => h i (Nat.lt_succ_of_lt hi)]

theorem bitsOf_shl_or {m n : Nat} {v : Word} (w : Word) (hmn : m + n ≤ 32)
    (h : v.toNat < 2 ^ n) :
    bitsOf (m + n) (w <<< n ||| v).toNat = bitsOf m w.toNat ++ bitsOf n v.toNat := by
  rw [BitVec.toNat_or, BitVec.toNat_shiftLeft, ← bitsOf_shiftLeft_or m w.toNat h]
  apply bitsOf_congr
  intro i hi
  rw [Nat.testBit_or, Nat.testBit_or, Nat.testBit_mod_two_pow, decide_eq_true (by omega),
    Bool.true_and]

/-- Where a shift has a value, the word keeps its low bits above what is put below them. -/
theorem bitsOf_of_shl {k : Nat} {w h v : Word} (hshl : shl w (32 - k) = some h) (hk : k < 32)
    (hv : v.toNat < 2 ^ (32 - k)) :
    bitsOf 32 (h ||| v).toNat = bitsOf k w.toNat ++ bitsOf (32 - k) v.toNat := by
  have hwidth : k + (32 - k) = 32 := by omega
  unfold shl at hshl
  split at hshl
  · cases hshl
    rw [← bitsOf_shl_or w hwidth.le hv, hwidth]
  · obtain ⟨⟨hfull, -⟩, hzero⟩ := Option.ite_none_right_eq_some.mp hshl
    cases hzero
    have hk0 : k = 0 := by omega
    subst hk0
    show bitsOf 32 (0#32 ||| v).toNat = _
    rw [BitVec.zero_or]
    rfl

namespace Bitstream

/-- The bits put so far: full words as memory has them, then the low bits of the next word. -/
def written (bs : Bitstream) : Bits :=
  wordsBits bs.buffer (bs.bitOffset / 32) ++
    bitsOf (bs.bitOffset % 32) (bs.buffer (bs.bitOffset / 32)).toNat

/-- The word that is being filled lies inside the buffer. -/
def Room (bs : Bitstream) : Prop := bs.bitOffset / 32 < bs.maxSizeInDword

@[simp] theorem realloc_buffer (bs : Bitstream) (p : Nat) : (bs.realloc p).buffer = bs.buffer := by
  unfold realloc
  split <;> rfl

@[simp] theorem realloc_bitOffset (bs : Bitstream) (p : Nat) :
    (bs.realloc p).bitOffset = bs.bitOffset := by
  unfold realloc
  split <;> rfl

theorem realloc_room {bs : Bitstream} {p : Nat} (h : p < bs.maxSizeInDword) :
    p + 1 < (bs.realloc p).maxSizeInDword := by
  unfold realloc
  split
  · show p + 1 < bs.maxSizeInDword + 4096
    omega
  · omega

@[simp] theorem written_length (bs : Bitstream) : bs.written.length = bs.bitOffset := by
  simp only [written, List.length_append, wordsBits_length, bitsOf_length]
  omega

theorem written_eq {bs : Bitstream} {p k : Nat} (h : bs.bitOffset = 32 * p + k) (hk : k < 32) :
    bs.written = wordsBits bs.buffer p ++ bitsOf k (bs.buffer p).toNat := by
  have hdiv : bs.bitOffset / 32 = p := by omega
  have hmod : bs.bitOffset % 32 = k := by omega
  rw [written, hdiv, hmod]

end Bitstream

open Bitstream

/-! ### Puts -/

/-- A value that leaves the word open. -/
theorem putUi_within {bs : Bitstream} {val : Word} {n p k : Nat} (hroom : bs.Room)
    (hp : bs.bitOffset = 32 * p + k) (hn : 0 < n) (hk : k + n < 32) (hval : val.toNat < 2 ^ n)
    (hlen : bs.bitOffset + n ≤ intMax) :
    ∃ bs', putUi bs val n = some bs' ∧ bs'.written = bs.written ++ bitsOf n val.toNat ∧
      bs'.Room := by
  have hdiv : bs.bitOffset / 32 = p := by omega
  have hmod : bs.bitOffset % 32 = k := by omega
  unfold Room at hroom
  rw [hdiv] at hroom
  let w := bs.buffer p <<< n ||| val
  refine ⟨{ bs with buffer := Function.update bs.buffer p w, bitOffset := bs.bitOffset + n },
    ?_, ?_, ?_⟩
  · simp only [putUi, hdiv, hmod, load, store]
    rw [if_neg (by omega), if_neg (by omega), if_pos (by omega), if_pos hroom, Option.bind_some,
      if_pos hroom]
  · rw [written_eq (p := p) (k := k + n) (by simp only; omega) hk, written_eq hp (by omega)]
    simp only [Function.update_self, w]
    rw [bitsOf_shl_or _ (by omega) hval, List.append_assoc]
    congr 1
    apply wordsBits_congr
    intro i hi
    exact Function.update_of_ne (by omega) _ _
  · show (bs.bitOffset + n) / 32 < bs.maxSizeInDword
    omega

/-- A value that fills the word goes on in the next one. -/
theorem putUi_across {bs : Bitstream} {val w : Word} {n p k l : Nat} (hroom : bs.Room)
    (hp : bs.bitOffset = 32 * p + k) (hn : k + n = 32 + l) (hk : k < 32) (hl : l < 32)
    (hval : val.toNat < 2 ^ n) (hshl : shl (bs.buffer p) (32 - k) = some w)
    (hlen : bs.bitOffset + n ≤ intMax) :
    ∃ bs', putUi bs val n = some bs' ∧ bs'.written = bs.written ++ bitsOf n val.toNat ∧
      bs'.Room := by
  have hdiv : bs.bitOffset / 32 = p := by omega
  have hmod : bs.bitOffset % 32 = k := by omega
  have hsize : n - (32 - k) = l := by omega
  unfold Room at hroom
  rw [hdiv] at hroom
  let v := val >>> l
  have hshr : shr val (n - (32 - k)) = some v := by rw [shr, hsize, if_pos hl]
  have hv : v.toNat = val.toNat / 2 ^ l := by
    rw [BitVec.toNat_ushiftRight, Nat.shiftRight_eq_div_pow]
  have hvlt : v.toNat < 2 ^ (32 - k) := by
    rw [hv]
    apply Nat.div_lt_of_lt_mul
    rw [← Nat.pow_add, show l + (32 - k) = n by omega]
    exact hval
  let full := Function.update bs.buffer p (w ||| v)
  let buffer := Function.update (Function.update full p (vaSwap32 (w ||| v))) (p + 1) val
  let swapped : Bitstream :=
    { bs with buffer := Function.update full p (vaSwap32 (w ||| v)), bitOffset := bs.bitOffset + n }
  have hmax : p + 1 < (swapped.realloc p).maxSizeInDword := realloc_room hroom
  let bs' : Bitstream := ⟨buffer, (swapped.realloc p).bitOffset, (swapped.realloc p).maxSizeInDword⟩
  refine ⟨bs', ?_, ?_, ?_⟩
  · simp only [putUi, hdiv, hmod, load, store, if_pos hroom, Option.bind_some, hshl, hshr]
    rw [if_neg (by omega), if_neg (by omega), if_neg (by omega)]
    simp only [Function.update_self]
    rw [if_pos hmax, realloc_buffer]
  · have hoff : bs'.bitOffset = 32 * (p + 1) + l := by
      show (swapped.realloc p).bitOffset = _
      rw [realloc_bitOffset]
      show bs.bitOffset + n = _
      omega
    rw [written_eq hoff hl, written_eq hp hk]
    have hp1 : buffer (p + 1) = val := Function.update_self ..
    have hpp : buffer p = vaSwap32 (w ||| v) := by
      simp only [buffer]
      rw [Function.update_of_ne (by omega), Function.update_self]
    have hbefore : wordsBits buffer p = wordsBits bs.buffer p := by
      apply wordsBits_congr
      intro i hi
      simp only [buffer, full]
      rw [Function.update_of_ne (by omega), Function.update_of_ne (by omega),
        Function.update_of_ne (by omega)]
    have hlow : bitsOf n val.toNat = bitsOf (32 - k) v.toNat ++ bitsOf l val.toNat := by
      rw [hv, ← bitsOf_add, show 32 - k + l = n by omega]
    show wordsBits buffer (p + 1) ++ bitsOf l (buffer (p + 1)).toNat = _
    rw [wordsBits_succ, hbefore, hp1, hpp, memBits_vaSwap32, bitsOf_of_shl hshl hk hvlt, hlow]
    simp only [List.append_assoc]
  · have hnext : (bs.bitOffset + n) / 32 = p + 1 := by omega
    show (swapped.realloc p).bitOffset / 32 < _
    rw [realloc_bitOffset]
    show (bs.bitOffset + n) / 32 < _
    rw [hnext]
    exact hmax

/-- What a put that has room does to the stream. -/
def Appends (put : Bitstream → Option Bitstream) (bits : Bits) : Prop :=
  ∀ bs : Bitstream, bs.Room → bs.bitOffset + bits.length ≤ intMax →
    ∃ bs', put bs = some bs' ∧ bs'.written = bs.written ++ bits ∧ bs'.Room

theorem putUi_spec {bs : Bitstream} {val : Word} {n : Nat} (hroom : bs.Room)
    (hn : n < 32 ∨ n = 32 ∧ bs.buffer (bs.bitOffset / 32) = 0) (hval : val.toNat < 2 ^ n)
    (hlen : bs.bitOffset + n ≤ intMax) :
    ∃ bs', putUi bs val n = some bs' ∧ bs'.written = bs.written ++ bitsOf n val.toNat ∧
      bs'.Room := by
  rcases Nat.eq_zero_or_pos n with rfl | hpos
  · exact ⟨bs, rfl, (List.append_nil _).symm, hroom⟩
  have hp : bs.bitOffset = 32 * (bs.bitOffset / 32) + bs.bitOffset % 32 := by omega
  have hk : bs.bitOffset % 32 < 32 := Nat.mod_lt _ (by decide)
  by_cases hin : bs.bitOffset % 32 + n < 32
  · exact putUi_within hroom hp hpos hin hval hlen
  · have hshl : ∃ w, shl (bs.buffer (bs.bitOffset / 32)) (32 - bs.bitOffset % 32) = some w := by
      unfold shl
      rcases Nat.eq_zero_or_pos (bs.bitOffset % 32) with h0 | h0
      · have hzero : bs.buffer (bs.bitOffset / 32) = 0 := by
          rcases hn with hn | ⟨-, hn⟩
          · omega
          · exact hn
        rw [h0, if_neg (by decide), if_pos ⟨rfl, hzero⟩]
        exact ⟨0, rfl⟩
      · rw [if_pos (by omega)]
        exact ⟨_, rfl⟩
    obtain ⟨w, hw⟩ := hshl
    have hsplit : bs.bitOffset % 32 + n = 32 + (bs.bitOffset % 32 + n - 32) := by omega
    exact putUi_across hroom hp hsplit hk (by omega) hval hw hlen

theorem putUi_appends {n : Nat} {val : Word} (hn : n < 32) (hval : val.toNat < 2 ^ n) :
    Appends (fun bs => putUi bs val n) (bitsOf n val.toNat) := by
  intro bs hroom hlen
  rw [bitsOf_length] at hlen
  exact putUi_spec hroom (Or.inl hn) hval hlen

theorem Appends.bind {f g : Bitstream → Option Bitstream} {b c : Bits} (hf : Appends f b)
    (hg : Appends g c) : Appends (fun bs => (f bs).bind g) (b ++ c) := by
  intro bs hroom hlen
  rw [List.length_append] at hlen
  obtain ⟨bs₁, h₁, hw₁, hroom₁⟩ := hf bs hroom (by omega)
  have hoff : bs₁.bitOffset = bs.bitOffset + b.length := by
    rw [← written_length, hw₁, List.length_append, written_length]
  obtain ⟨bs₂, h₂, hw₂, hroom₂⟩ := hg bs₁ hroom₁ (by omega)
  refine ⟨bs₂, ?_, ?_, hroom₂⟩
  · show (f bs).bind g = _
    rw [h₁, Option.bind_some, h₂]
  · rw [hw₂, hw₁, List.append_assoc]

theorem countBits_eq {n : Nat} (h : n ≠ 0) : countBits n = n.log2 + 1 := by
  induction n using Nat.strongRecOn with
  | ind n ih =>
      rw [countBits, dif_neg h]
      by_cases h2 : 2 ≤ n
      · rw [ih (n / 2) (by omega) (by omega), Nat.log2_def n, if_pos h2]
      · have h1 : n = 1 := by omega
        subst h1
        rw [countBits]
        rfl

theorem toNat_ofNat_word {v : Nat} (h : v < 2 ^ 32) : (BitVec.ofNat 32 v).toNat = v := by
  rw [BitVec.toNat_ofNat]
  exact Nat.mod_eq_of_lt h

/-- The calls that `put_ue` makes. -/
theorem putUe_eq {v : Nat} (h : v < 2 ^ 31 - 1) (bs : Bitstream) :
    putUe bs (BitVec.ofNat 32 v) =
      (putUi bs 0 (countBits (v + 1) - 1)).bind fun bs =>
        putUi bs (BitVec.ofNat 32 (v + 1)) (countBits (v + 1)) := by
  have hval : BitVec.ofNat 32 v + 1 = BitVec.ofNat 32 (v + 1) := by
    rw [BitVec.ofNat_add]
    rfl
  have hnat : (BitVec.ofNat 32 (v + 1)).toNat = v + 1 := toNat_ofNat_word (by omega)
  have hint : 0 < (BitVec.ofNat 32 (v + 1)).toInt := by
    rw [BitVec.toInt_eq_toNat_of_lt (by rw [hnat]; omega), hnat]
    omega
  simp only [putUe, hval, if_pos hint, hnat]

theorem putUe_appends {v : Nat} (h : v < 2 ^ 31 - 1) :
    Appends (fun bs => putUe bs (BitVec.ofNat 32 v)) (ueCode v) := by
  have hnat : (BitVec.ofNat 32 (v + 1)).toNat = v + 1 := toNat_ofNat_word (by omega)
  have hlog : (v + 1).log2 < 31 := (Nat.log2_lt (by omega)).mpr (by omega)
  have hlt : v + 1 < 2 ^ ((v + 1).log2 + 1) := Nat.lt_log2_self
  have hzeros : Appends (fun bs => putUi bs 0 (v + 1).log2)
      (List.replicate (v + 1).log2 false) := by
    rw [← bitsOf_zero]
    exact putUi_appends (by omega) (by simp)
  have hvalue : Appends (fun bs => putUi bs (BitVec.ofNat 32 (v + 1)) ((v + 1).log2 + 1))
      (bitsOf ((v + 1).log2 + 1) (BitVec.ofNat 32 (v + 1)).toNat) :=
    putUi_appends (by omega) (by rw [hnat]; exact hlt)
  rw [hnat] at hvalue
  intro bs hroom hlen
  obtain ⟨bs', hput, hbs⟩ := hzeros.bind hvalue bs hroom hlen
  refine ⟨bs', ?_, hbs⟩
  show putUe bs (BitVec.ofNat 32 v) = some bs'
  rw [putUe_eq h, countBits_eq (by omega), Nat.add_sub_cancel]
  exact hput

theorem putSe_eq {v : Int} (h : v.natAbs < 2 ^ 30) (bs : Bitstream) :
    putSe bs v = putUe bs (BitVec.ofNat 32 (seIndex v)) := by
  have hindex : (BitVec.ofInt 32 (if v ≤ 0 then -2 * v else 2 * v - 1)) =
      BitVec.ofNat 32 (seIndex v) := by
    rw [← BitVec.ofInt_natCast]
    congr 1
    unfold seIndex
    split <;> omega
  rw [putSe, if_pos h, hindex]

theorem seIndex_lt {v : Int} (h : v.natAbs < 2 ^ 30) : seIndex v < 2 ^ 31 - 1 := by
  unfold seIndex
  split <;> omega

theorem putSe_appends {v : Int} (h : v.natAbs < 2 ^ 30) :
    Appends (fun bs => putSe bs v) (ueCode (seIndex v)) := by
  intro bs hroom hlen
  obtain ⟨bs', hput, hbs⟩ := putUe_appends (seIndex_lt h) bs hroom hlen
  exact ⟨bs', (putSe_eq h bs).trans hput, hbs⟩

/-- The elements the writer is meant for. -/
def Writable : Element → Prop
  | .u n v => n ≤ 31 ∧ v < 2 ^ n
  | .ue v => v < 2 ^ 31 - 1
  | .se v => v.natAbs < 2 ^ 30

instance : DecidablePred Writable := fun e => by
  cases e <;> (unfold Writable; infer_instance)

theorem Writable.fits {e : Element} (h : Writable e) : e.Fits := by
  cases e with
  | u n v => exact h.2
  | ue v => trivial
  | se v => trivial

theorem putElement_appends {e : Element} (h : Writable e) :
    Appends (fun bs => putElement bs e) e.code := by
  cases e with
  | u n v =>
      have hle : 2 ^ n ≤ 2 ^ 31 := Nat.pow_le_pow_right (by decide) h.1
      have hv : (BitVec.ofNat 32 v).toNat = v := toNat_ofNat_word (by have := h.2; omega)
      have happ : Appends (fun bs => putUi bs (BitVec.ofNat 32 v) n)
          (bitsOf n (BitVec.ofNat 32 v).toNat) :=
        putUi_appends (by have := h.1; omega) (by rw [hv]; exact h.2)
      rw [hv] at happ
      exact happ
  | ue v => exact putUe_appends h
  | se v => exact putSe_appends h

theorem putAll_appends {es : List Element} (h : ∀ e ∈ es, Writable e) :
    Appends (fun bs => es.foldlM putElement bs) (codes es) := by
  induction es with
  | nil => exact fun bs hroom _ => ⟨bs, rfl, (List.append_nil _).symm, hroom⟩
  | cons e es ih =>
      have he := putElement_appends (h e (List.mem_cons_self ..))
      exact he.bind (ih fun f hf => h f (List.mem_cons_of_mem e hf))

def trailingBits (n : Nat) : Bits := true :: List.replicate (7 - n % 8) false

theorem rbspTrailingBits_spec {bs : Bitstream} (hroom : bs.Room)
    (hlen : bs.bitOffset + (trailingBits bs.bitOffset).length ≤ intMax) :
    ∃ bs', rbspTrailingBits bs = some bs' ∧
      bs'.written = bs.written ++ trailingBits bs.bitOffset ∧ bs'.Room := by
  simp only [trailingBits, List.length_cons, List.length_replicate] at hlen
  obtain ⟨bs₁, h₁, hw₁, hroom₁⟩ :=
    @putUi_spec bs 1 1 hroom (Or.inl (by decide)) (by decide) (by omega)
  have hoff : bs₁.bitOffset = bs.bitOffset + 1 := by
    rw [← written_length, hw₁, List.length_append, written_length, bitsOf_length]
  have hbytes : bs₁.written = bs.written ++ [true] := hw₁
  rw [rbspTrailingBits, h₁, Option.bind_some, byteAligning, hoff, trailingBits]
  by_cases h8 : (bs.bitOffset + 1) % 8 = 0
  · have hfull : 7 - bs.bitOffset % 8 = 0 := by omega
    rw [if_pos h8, hfull]
    exact ⟨bs₁, rfl, hbytes, hroom₁⟩
  · have hleft : 8 - (bs.bitOffset + 1) % 8 = 7 - bs.bitOffset % 8 := by omega
    obtain ⟨bs₂, h₂, hw₂, hroom₂⟩ := @putUi_spec bs₁ 0 (7 - bs.bitOffset % 8) hroom₁
      (Or.inl (by omega)) (by simp) (by omega)
    rw [if_neg h8, hleft]
    refine ⟨bs₂, h₂, ?_, hroom₂⟩
    have hzero : bitsOf (7 - bs.bitOffset % 8) (0 : Word).toNat =
        List.replicate (7 - bs.bitOffset % 8) false := bitsOf_zero _
    rw [hw₂, hbytes, hzero, List.append_assoc]
    rfl

theorem bytesBits_memory (bs : Bitstream) :
    bytesBits bs.memory = wordsBits bs.buffer bs.maxSizeInDword := by
  unfold memory wordsBits memBits bytesBits
  rw [List.flatMap_assoc]

theorem wordsBits_take {buffer : Nat → Word} {p m : Nat} (h : p ≤ m) :
    (wordsBits buffer m).take (32 * p) = wordsBits buffer p := by
  obtain ⟨d, rfl⟩ := Nat.exists_eq_add_of_le h
  clear h
  induction d with
  | zero => rw [Nat.add_zero, List.take_of_length_le (by simp)]
  | succ d ih =>
      rw [← Nat.add_assoc, wordsBits_succ, List.take_append_of_le_length (by simp), ih]

theorem bitstreamEnd_spec {bs : Bitstream} (hroom : bs.Room) :
    ∃ bs', bitstreamEnd bs = some bs' ∧ bs'.bitOffset = bs.bitOffset ∧
      (bytesBits bs'.memory).take bs.bitOffset = bs.written := by
  have hk : bs.bitOffset % 32 < 32 := Nat.mod_lt _ (by decide)
  have hp : bs.bitOffset = 32 * (bs.bitOffset / 32) + bs.bitOffset % 32 := by omega
  unfold Room at hroom
  rw [written, bitstreamEnd]
  generalize bs.bitOffset / 32 = p at *
  generalize bs.bitOffset % 32 = k at *
  by_cases h0 : k = 0
  · subst h0
    rw [if_neg (by simp)]
    refine ⟨bs, rfl, rfl, ?_⟩
    rw [bytesBits_memory, hp, Nat.add_zero, wordsBits_take hroom.le]
    exact (List.append_nil _).symm
  · have hshl : shl (bs.buffer p) (32 - k) = some (bs.buffer p <<< (32 - k)) := if_pos (by omega)
    rw [if_pos h0, load, if_pos hroom, Option.bind_some, hshl, Option.bind_some, store,
      if_pos hroom]
    refine ⟨_, rfl, rfl, ?_⟩
    rw [bytesBits_memory]
    dsimp only
    generalize hb : Function.update bs.buffer p (vaSwap32 (bs.buffer p <<< (32 - k))) = buffer
    have hword : memBits (buffer p) = bitsOf k (bs.buffer p).toNat ++ bitsOf (32 - k) 0 := by
      have hor : bitsOf 32 ((bs.buffer p <<< (32 - k)) ||| 0#32).toNat =
          bitsOf k (bs.buffer p).toNat ++ bitsOf (32 - k) 0 :=
        bitsOf_of_shl hshl hk (by simp)
      rw [BitVec.or_zero] at hor
      rw [← hb, Function.update_self, memBits_vaSwap32, hor]
    have hbefore : wordsBits buffer p = wordsBits bs.buffer p := by
      apply wordsBits_congr
      intro i hi
      rw [← hb]
      exact Function.update_of_ne (by omega) _ _
    have htake : (wordsBits buffer bs.maxSizeInDword).take (32 * (p + 1)) =
        wordsBits buffer (p + 1) := wordsBits_take hroom
    have hle : bs.bitOffset ≤ 32 * (p + 1) := by omega
    rw [← Nat.min_eq_left hle, ← List.take_take, htake, wordsBits_succ, hbefore, hword, hp,
      ← List.append_assoc]
    apply List.take_left'
    simp

/-! ### Whole headers -/

def withStartCode (start : Bool) (es : List Element) : List Element :=
  if start then .u 32 1 :: es else es

def headerLength (es : List Element) : Nat := 8 * ((codes es).length / 8 + 1)

/-- The header comes out in whole bytes that read back as the elements. -/
def WritesExactly (junk : Nat → Word) (es : List Element) : Prop :=
  ∃ bs, writeHeader junk es = some bs ∧ bs.bitOffset % 8 = 0 ∧ ∃ k < 8,
    (bytesBits bs.memory).take bs.bitOffset = codes es ++ true :: List.replicate k false ∧
    readAll (es.map Element.descriptor) ((bytesBits bs.memory).take bs.bitOffset) =
      some (es, true :: List.replicate k false)

theorem bitstreamStart_room (junk : Nat → Word) : (bitstreamStart junk).Room := by
  show 0 / 32 < 4096
  decide

theorem bitstreamStart_written (junk : Nat → Word) : (bitstreamStart junk).written = [] :=
  List.eq_nil_of_length_eq_zero (written_length _)

/-- The 32-bit start code goes into the zero word the stream begins with. -/
theorem putStartCode (junk : Nat → Word) :
    ∃ bs, putElement (bitstreamStart junk) (.u 32 1) = some bs ∧ bs.written = bitsOf 32 1 ∧
      bs.Room := by
  have hzero : (bitstreamStart junk).buffer (0 / 32) = 0 := by
    show (if 0 / 32 < 4096 then (0 : Word) else junk (0 / 32)) = 0
    exact if_pos (by decide)
  have hlen : (bitstreamStart junk).bitOffset + 32 ≤ intMax := by
    show 0 + 32 ≤ 2 ^ 31 - 1
    decide
  obtain ⟨bs, hput, hw, hroom⟩ := @putUi_spec (bitstreamStart junk) 1 32 (bitstreamStart_room junk)
    (Or.inr ⟨rfl, hzero⟩) (by decide) hlen
  rw [bitstreamStart_written, List.nil_append] at hw
  exact ⟨bs, hput, hw, hroom⟩

theorem putAll_start (junk : Nat → Word) (start : Bool) {es : List Element}
    (h : ∀ e ∈ es, Writable e) (hlen : (codes (withStartCode start es)).length ≤ intMax) :
    ∃ bs, (withStartCode start es).foldlM putElement (bitstreamStart junk) = some bs ∧
      bs.written = codes (withStartCode start es) ∧ bs.Room := by
  cases start with
  | false =>
      have hle : (bitstreamStart junk).bitOffset + (codes es).length ≤ intMax := by
        show 0 + (codes es).length ≤ intMax
        rw [Nat.zero_add]
        exact hlen
      obtain ⟨bs, hput, hw, hroom⟩ := putAll_appends h _ (bitstreamStart_room junk) hle
      rw [bitstreamStart_written, List.nil_append] at hw
      exact ⟨bs, hput, hw, hroom⟩
  | true =>
      obtain ⟨bs₁, h₁, hw₁, hroom₁⟩ := putStartCode junk
      have hoff : bs₁.bitOffset = 32 := by rw [← written_length, hw₁, bitsOf_length]
      have hcodes : codes (withStartCode true es) = bitsOf 32 1 ++ codes es := rfl
      rw [hcodes, List.length_append, bitsOf_length] at hlen
      obtain ⟨bs₂, h₂, hw₂, hroom₂⟩ := putAll_appends h bs₁ hroom₁ (by omega)
      refine ⟨bs₂, ?_, by rw [hw₂, hw₁, hcodes], hroom₂⟩
      show List.foldlM putElement (bitstreamStart junk) (Element.u 32 1 :: es) = _
      rw [List.foldlM_cons, h₁]
      exact h₂

theorem withStartCode_fits {start : Bool} {es : List Element} (h : ∀ e ∈ es, Writable e) :
    ∀ e ∈ withStartCode start es, e.Fits := by
  have hes : ∀ e ∈ es, e.Fits := fun e he => (h e he).fits
  cases start with
  | false => exact hes
  | true =>
      intro e he
      rcases List.mem_cons.mp he with rfl | he
      · show 1 < 2 ^ 32
        decide
      · exact hes e he

theorem writeHeader_spec (junk : Nat → Word) {start : Bool} {es : List Element}
    (h : ∀ e ∈ es, Writable e) (hlen : headerLength (withStartCode start es) ≤ intMax) :
    ∃ bs, writeHeader junk (withStartCode start es) = some bs ∧
      bs.bitOffset = headerLength (withStartCode start es) ∧
      (bytesBits bs.memory).take bs.bitOffset =
        codes (withStartCode start es) ++
          trailingBits (codes (withStartCode start es)).length := by
  generalize hfs : withStartCode start es = fs at *
  unfold headerLength at hlen
  obtain ⟨bs₁, h₁, hw₁, hroom₁⟩ := putAll_start junk start h (by rw [hfs]; omega)
  rw [hfs] at h₁ hw₁
  have hoff₁ : bs₁.bitOffset = (codes fs).length := by rw [← hw₁, written_length]
  have htrail : (trailingBits bs₁.bitOffset).length = 8 - (codes fs).length % 8 := by
    simp only [trailingBits, List.length_cons, List.length_replicate, hoff₁]
    omega
  obtain ⟨bs₂, h₂, hw₂, hroom₂⟩ := rbspTrailingBits_spec hroom₁ (by omega)
  have hoff₂ : bs₂.bitOffset = headerLength fs := by
    rw [← written_length, hw₂, List.length_append, written_length, headerLength]
    omega
  obtain ⟨bs₃, h₃, hoff₃, hmem⟩ := bitstreamEnd_spec hroom₂
  refine ⟨bs₃, ?_, hoff₃.trans hoff₂, ?_⟩
  · rw [writeHeader, h₁, Option.bind_some, h₂, Option.bind_some, h₃]
  · rw [hoff₃, hmem, hw₂, hw₁, hoff₁]

/-- Any header whose length is an `int` is written exactly, through every growth of the
buffer. -/
theorem header_exact (junk : Nat → Word) (start : Bool) (es : List Element)
    (h : ∀ e ∈ es, Writable e) (hlen : headerLength (withStartCode start es) ≤ intMax) :
    WritesExactly junk (withStartCode start es) := by
  obtain ⟨bs, hput, hoff, hbits⟩ := writeHeader_spec junk h hlen
  refine ⟨bs, hput, ?_, 7 - (codes (withStartCode start es)).length % 8, by omega, hbits, ?_⟩
  · rw [hoff]
    exact Nat.mul_mod_right 8 _
  · rw [hbits]
    exact readAll_codes _ (withStartCode_fits h)

theorem header_exact_sliceStart : WritesExactly (fun _ => 0xffffffff)
    (withStartCode true [.u 1 0, .u 6 1, .u 6 0, .u 3 1, .ue 7, .se (-3)]) :=
  header_exact _ true _ (by decide) (by decide)

/-! ### Overlong headers -/

theorem store_bitOffset {bs bs' : Bitstream} {i : Nat} {val : Word}
    (h : bs.store i val = some bs') : bs'.bitOffset = bs.bitOffset := by
  obtain ⟨-, h⟩ := Option.ite_none_right_eq_some.mp h
  cases h
  rfl

theorem putUi_le {bs bs' : Bitstream} {val : Word} {n : Nat} (hle : bs.bitOffset ≤ intMax)
    (h : putUi bs val n = some bs') : bs'.bitOffset ≤ intMax := by
  unfold putUi at h
  split at h
  · cases h
    exact hle
  obtain ⟨hfit, h⟩ := Option.ite_none_left_eq_some.mp h
  dsimp only at h
  split at h
  · obtain ⟨w, -, h⟩ := Option.bind_eq_some_iff.mp h
    rw [store_bitOffset h]
    exact Nat.not_lt.mp hfit
  · obtain ⟨w, -, h⟩ := Option.bind_eq_some_iff.mp h
    obtain ⟨w, -, h⟩ := Option.bind_eq_some_iff.mp h
    obtain ⟨v, -, h⟩ := Option.bind_eq_some_iff.mp h
    obtain ⟨b₁, h₁, h⟩ := Option.bind_eq_some_iff.mp h
    obtain ⟨w, -, h⟩ := Option.bind_eq_some_iff.mp h
    obtain ⟨b₂, h₂, h⟩ := Option.bind_eq_some_iff.mp h
    rw [store_bitOffset h, realloc_bitOffset, store_bitOffset h₂, store_bitOffset h₁]
    exact Nat.not_lt.mp hfit

theorem putUe_le {bs bs' : Bitstream} {val : Word} (hle : bs.bitOffset ≤ intMax)
    (h : putUe bs val = some bs') : bs'.bitOffset ≤ intMax := by
  obtain ⟨-, h⟩ := Option.ite_none_right_eq_some.mp h
  obtain ⟨b, h₁, h₂⟩ := Option.bind_eq_some_iff.mp h
  exact putUi_le (putUi_le hle h₁) h₂

theorem putElement_le {bs bs' : Bitstream} {e : Element} (hle : bs.bitOffset ≤ intMax)
    (h : putElement bs e = some bs') : bs'.bitOffset ≤ intMax := by
  cases e with
  | u n v => exact putUi_le hle h
  | ue v => exact putUe_le hle h
  | se v =>
      obtain ⟨-, h⟩ := Option.ite_none_right_eq_some.mp h
      exact putUe_le hle h

theorem putAll_le {bs bs' : Bitstream} {es : List Element} (hle : bs.bitOffset ≤ intMax)
    (h : es.foldlM putElement bs = some bs') : bs'.bitOffset ≤ intMax := by
  induction es generalizing bs with
  | nil =>
      cases h
      exact hle
  | cons e es ih =>
      obtain ⟨b, he, hes⟩ := Option.bind_eq_some_iff.mp h
      exact ih (putElement_le hle he) hes

theorem writeHeader_le {junk : Nat → Word} {es : List Element} {bs : Bitstream}
    (h : writeHeader junk es = some bs) : bs.bitOffset ≤ intMax := by
  obtain ⟨b₂, h, hend⟩ := Option.bind_eq_some_iff.mp h
  obtain ⟨b₁, hput, htrail⟩ := Option.bind_eq_some_iff.mp h
  have h₁ : b₁.bitOffset ≤ intMax := putAll_le (Nat.zero_le _) hput
  have h₂ : b₂.bitOffset ≤ intMax := by
    obtain ⟨b, hone, halign⟩ := Option.bind_eq_some_iff.mp htrail
    have hb := putUi_le h₁ hone
    unfold byteAligning at halign
    dsimp only at halign
    split at halign
    · cases halign
      exact hb
    · exact putUi_le hb halign
  unfold bitstreamEnd at hend
  dsimp only at hend
  split at hend
  · obtain ⟨w, -, hend⟩ := Option.bind_eq_some_iff.mp hend
    obtain ⟨v, -, hend⟩ := Option.bind_eq_some_iff.mp hend
    rw [store_bitOffset hend]
    exact h₂
  · cases hend
    exact h₂

theorem not_writesExactly {junk : Nat → Word} {es : List Element}
    (h : intMax < (codes es).length) : ¬ WritesExactly junk es := by
  rintro ⟨bs, hput, -, k, -, hbits, -⟩
  have hle := writeHeader_le hput
  have hlen := congrArg List.length hbits
  rw [List.length_take, List.length_append] at hlen
  omega

/-- `2 ^ 27` fields of 31 bits need more bits than an `int` counts. -/
theorem long_header_overflows :
    (∀ e ∈ List.replicate (2 ^ 27) (Element.u 31 0), Writable e) ∧
      ∀ junk, ¬ WritesExactly junk (List.replicate (2 ^ 27) (.u 31 0)) := by
  have hlen : ∀ n, (codes (List.replicate n (.u 31 0))).length = 31 * n := by
    intro n
    induction n with
    | zero => rfl
    | succ n ih =>
        rw [List.replicate_succ, codes_cons, List.length_append, ih]
        show 31 + 31 * n = _
        omega
  refine ⟨?_, fun junk => not_writesExactly ?_⟩
  · intro e he
    rw [List.eq_of_mem_replicate he]
    decide
  · rw [hlen]
    decide

end Hprd.Codec.Hevc

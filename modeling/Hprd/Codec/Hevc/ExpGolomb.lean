import Hprd.Codec.Hevc.Bitstream

/-!
# Exp-Golomb puts on the target

`put_ue` and `put_se` on the integers of the target machine, which have 32 bits in
two's complement and keep their sign when they are shifted right. The width of a code is
counted on a signed copy of the argument, so that it is never found above `INT_MAX`.
-/

namespace Hprd.Codec.Hevc.Target

open Hprd.Core Bitstream

/-- `while (tmp_val) { tmp_val >>= 1; size_in_bits++; }`, for a number of rounds. -/
def bitLoop : Nat → Word → Nat → Option Nat
  | 0, _, _ => none
  | rounds + 1, tmpVal, sizeInBits =>
      if tmpVal = 0 then some sizeInBits
      else bitLoop rounds (tmpVal.sshiftRight 1) (sizeInBits + 1)

structure Call where
  val : Word
  sizeInBits : Int

/-- A negative width asks for a shift that has no value. -/
def Call.put (bs : Bitstream) (call : Call) : Option Bitstream :=
  if 0 ≤ call.sizeInBits then putUi bs call.val call.sizeInBits.toNat else none

def putUeCalls (rounds : Nat) (val : Word) : Option (List Call) :=
  let val := val + 1
  (bitLoop rounds val 0).map fun (sizeInBits : Nat) =>
    [⟨0, (sizeInBits : Int) - 1⟩, ⟨val, sizeInBits⟩]

/-- The number `put_se` passes on. -/
def newVal (val : Word) : Word := if val.toInt ≤ 0 then -2 * val else 2 * val - 1

def putSeCalls (rounds : Nat) (val : Word) : Option (List Call) := putUeCalls rounds (newVal val)

def runCalls (calls : Option (List Call)) (bs : Bitstream) : Option Bitstream :=
  calls.bind fun calls => calls.foldlM Call.put bs

/-- The loop ends, the widths are those of a word, and the stream grows by the length of the
code of `codeNum`. -/
def Finishes (calls : Nat → Option (List Call)) (bs : Bitstream) (codeNum : Nat) : Prop :=
  ∃ rounds made bs', calls rounds = some made ∧
    (∀ call ∈ made, 0 ≤ call.sizeInBits ∧ call.sizeInBits ≤ 32) ∧
    runCalls (calls rounds) bs = some bs' ∧
    bs'.bitOffset = bs.bitOffset + (2 * (codeNum + 1).log2 + 1)

/-! ### The loop -/

theorem sshiftRight_word {n : Nat} (h : n < 2 ^ 31) :
    (BitVec.ofNat 32 n).sshiftRight 1 = BitVec.ofNat 32 (n / 2) := by
  have hnat : (BitVec.ofNat 32 n).toNat = n := toNat_ofNat_word (by omega)
  have hmsb : (BitVec.ofNat 32 n).msb = false := by
    rw [BitVec.msb_eq_false_iff_two_mul_lt, hnat]
    omega
  apply BitVec.eq_of_toNat_eq
  rw [BitVec.toNat_sshiftRight_of_msb_false hmsb, hnat, toNat_ofNat_word (by omega)]
  exact Nat.shiftRight_eq_div_pow n 1

theorem bitLoop_eq {n : Nat} (h : n < 2 ^ 31) (sizeInBits rounds : Nat) :
    bitLoop rounds (BitVec.ofNat 32 n) sizeInBits =
      if countBits n < rounds then some (sizeInBits + countBits n) else none := by
  induction rounds generalizing n sizeInBits with
  | zero => rfl
  | succ rounds ih =>
      rw [bitLoop, countBits]
      by_cases h0 : n = 0
      · subst h0
        exact if_pos rfl
      · have hne : BitVec.ofNat 32 n ≠ 0 := by
          intro heq
          have hnat := congrArg BitVec.toNat heq
          rw [toNat_ofNat_word (by omega)] at hnat
          exact h0 hnat
        rw [if_neg hne, dif_neg h0, sshiftRight_word h, ih (by omega), Nat.add_assoc,
          Nat.add_comm 1]
        exact if_congr (Nat.add_lt_add_iff_right).symm rfl rfl

/-- A negative number keeps its sign, so that the loop runs for ever. -/
theorem bitLoop_of_msb {tmpVal : Word} (h : tmpVal.msb = true) (rounds sizeInBits : Nat) :
    bitLoop rounds tmpVal sizeInBits = none := by
  induction rounds generalizing tmpVal sizeInBits with
  | zero => rfl
  | succ rounds ih =>
      have hne : tmpVal ≠ 0 := by
        intro heq
        rw [heq] at h
        exact absurd h (by decide)
      rw [bitLoop, if_neg hne]
      exact ih (by rw [BitVec.msb_sshiftRight, h]) _

/-! ### The calls -/

theorem ofNat_succ (n : Nat) : BitVec.ofNat 32 n + 1 = BitVec.ofNat 32 (n + 1) := by
  rw [BitVec.ofNat_add]
  rfl

/-- The calls of a code: its leading zeros, then the number behind `codeNum`. -/
def codeCalls (codeNum : Nat) : List Call :=
  [⟨0, (codeNum + 1).log2⟩, ⟨BitVec.ofNat 32 (codeNum + 1), (codeNum + 1).log2 + 1⟩]

theorem putUeCalls_eq {codeNum : Nat} (h : codeNum < 2 ^ 31 - 1) (rounds : Nat) :
    putUeCalls rounds (BitVec.ofNat 32 codeNum) =
      if (codeNum + 1).log2 + 1 < rounds then some (codeCalls codeNum) else none := by
  rw [putUeCalls, ofNat_succ, bitLoop_eq (by omega), countBits_eq (by omega), Nat.zero_add]
  split
  · simp [codeCalls]
  · rfl

theorem log2_lt {codeNum : Nat} (h : codeNum < 2 ^ 31 - 1) : (codeNum + 1).log2 < 31 :=
  (Nat.log2_lt (by omega)).mpr (by omega)

theorem putUeCalls_none {codeNum : Nat} (h : 2 ^ 31 - 1 ≤ codeNum) (hlt : codeNum < 2 ^ 32 - 1)
    (rounds : Nat) : putUeCalls rounds (BitVec.ofNat 32 codeNum) = none := by
  have hmsb : (BitVec.ofNat 32 (codeNum + 1)).msb = true := by
    rw [BitVec.msb_eq_true_iff_two_mul_ge, toNat_ofNat_word (by omega)]
    omega
  rw [putUeCalls, ofNat_succ, bitLoop_of_msb hmsb]
  rfl

theorem put_zeros (bs : Bitstream) (n : Nat) : Call.put bs ⟨0, n⟩ = putUi bs 0 n :=
  if_pos (by simp)

theorem put_value (bs : Bitstream) (val : Word) (n : Nat) :
    Call.put bs ⟨val, (n : Int) + 1⟩ = putUi bs val (n + 1) :=
  if_pos (show (0 : Int) ≤ (n : Int) + 1 by omega)

theorem codeCalls_put {codeNum : Nat} (h : codeNum < 2 ^ 31 - 1) (bs : Bitstream) :
    (codeCalls codeNum).foldlM Call.put bs = putUe bs (BitVec.ofNat 32 codeNum) := by
  rw [putUe_eq h, countBits_eq (by omega), codeCalls, List.foldlM_cons, put_zeros,
    Nat.add_sub_cancel]
  congr 1
  funext bs
  rw [List.foldlM_cons, put_value]
  exact Option.bind_fun_some _

theorem putUe_eq_header {rounds : Nat} (hrounds : 32 ≤ rounds) (bs : Bitstream) {codeNum : Nat}
    (h : codeNum < 2 ^ 32 - 1) :
    runCalls (putUeCalls rounds (BitVec.ofNat 32 codeNum)) bs =
      putUe bs (BitVec.ofNat 32 codeNum) := by
  by_cases hsmall : codeNum < 2 ^ 31 - 1
  · have hlog := log2_lt hsmall
    rw [runCalls, putUeCalls_eq hsmall, if_pos (by omega), Option.bind_some, codeCalls_put hsmall]
  · have hneg : ¬ 0 < (BitVec.ofNat 32 codeNum + 1).toInt := by
      rw [ofNat_succ, BitVec.toInt_eq_toNat_cond, toNat_ofNat_word (by omega),
        if_neg (by omega)]
      omega
    rw [putUeCalls_none (by omega) h]
    simp only [runCalls, putUe, if_neg hneg, Option.bind_none]

/-! ### The stream -/

/-- A put moves the offset by its width, keeps it an `int`, and leaves the stream inside its
buffer. -/
theorem putUi_moves {bs bs' : Bitstream} {val : Word} {n : Nat} (hn : 0 < n)
    (h : putUi bs val n = some bs') :
    bs'.bitOffset = bs.bitOffset + n ∧ bs'.bitOffset ≤ intMax ∧ bs'.Room := by
  unfold putUi at h
  rw [if_neg (by omega)] at h
  obtain ⟨hfit, h⟩ := Option.ite_none_left_eq_some.mp h
  have hfits : bs.bitOffset + n ≤ intMax := Nat.not_lt.mp hfit
  dsimp only at h
  split at h
  · rename_i hwithin
    obtain ⟨w, hload, h⟩ := Option.bind_eq_some_iff.mp h
    obtain ⟨hroom, -⟩ := Option.ite_none_right_eq_some.mp hload
    obtain ⟨-, h⟩ := Option.ite_none_right_eq_some.mp h
    cases h
    refine ⟨rfl, hfits, ?_⟩
    show (bs.bitOffset + n) / 32 < bs.maxSizeInDword
    dsimp only at hroom
    omega
  · rename_i hacross
    obtain ⟨w, -, h⟩ := Option.bind_eq_some_iff.mp h
    obtain ⟨w, -, h⟩ := Option.bind_eq_some_iff.mp h
    obtain ⟨v, hshr, h⟩ := Option.bind_eq_some_iff.mp h
    obtain ⟨b₁, h₁, h⟩ := Option.bind_eq_some_iff.mp h
    obtain ⟨w, -, h⟩ := Option.bind_eq_some_iff.mp h
    obtain ⟨b₂, h₂, h⟩ := Option.bind_eq_some_iff.mp h
    obtain ⟨hwidth, -⟩ := Option.ite_none_right_eq_some.mp hshr
    have hoff : bs'.bitOffset = bs.bitOffset + n := by
      rw [store_bitOffset h, realloc_bitOffset, store_bitOffset h₂, store_bitOffset h₁]
    obtain ⟨hroom, h⟩ := Option.ite_none_right_eq_some.mp h
    have hmax : bs'.maxSizeInDword = (b₂.realloc (bs.bitOffset / 32)).maxSizeInDword := by
      cases h
      rfl
    refine ⟨hoff, by omega, ?_⟩
    show bs'.bitOffset / 32 < bs'.maxSizeInDword
    rw [hoff, hmax]
    omega

theorem putUi_offset {bs bs' : Bitstream} {val : Word} {n : Nat}
    (h : putUi bs val n = some bs') : bs'.bitOffset = bs.bitOffset + n := by
  rcases Nat.eq_zero_or_pos n with rfl | hpos
  · cases h
    rfl
  · exact (putUi_moves hpos h).1

theorem codeCalls_moves {codeNum : Nat} {bs bs' : Bitstream}
    (h : (codeCalls codeNum).foldlM Call.put bs = some bs') :
    bs'.bitOffset = bs.bitOffset + (2 * (codeNum + 1).log2 + 1) ∧ bs'.bitOffset ≤ intMax := by
  rw [codeCalls, List.foldlM_cons, put_zeros] at h
  obtain ⟨b₁, h₁, h⟩ := Option.bind_eq_some_iff.mp h
  rw [List.foldlM_cons, put_value] at h
  obtain ⟨b₂, h₂, h⟩ := Option.bind_eq_some_iff.mp h
  cases h
  obtain ⟨hoff, hle, -⟩ := putUi_moves (Nat.succ_pos _) h₂
  have hzeros := putUi_offset h₁
  exact ⟨by omega, hle⟩

theorem codeCalls_widths {codeNum : Nat} (h : codeNum < 2 ^ 31 - 1) :
    ∀ call ∈ codeCalls codeNum, 0 ≤ call.sizeInBits ∧ call.sizeInBits ≤ 32 := by
  have hlog := log2_lt h
  intro call hmem
  simp only [codeCalls, List.mem_cons, List.not_mem_nil, or_false] at hmem
  rcases hmem with rfl | rfl
  · exact ⟨by simp, by simp only; omega⟩
  · exact ⟨by simp only; omega, by simp only; omega⟩

theorem finishes_iff {codeNum : Nat} (hlt : codeNum < 2 ^ 32 - 1) {bs : Bitstream}
    (hroom : bs.Room) :
    Finishes (putUeCalls · (BitVec.ofNat 32 codeNum)) bs codeNum ↔
      codeNum < 2 ^ 31 - 1 ∧ bs.bitOffset + (2 * (codeNum + 1).log2 + 1) ≤ intMax := by
  constructor
  · rintro ⟨rounds, calls, bs', hcalls, -, hput, hoff⟩
    dsimp only at hcalls hput
    have hsmall : codeNum < 2 ^ 31 - 1 := by
      by_contra hlarge
      rw [putUeCalls_none (by omega) hlt] at hcalls
      cases hcalls
    rw [putUeCalls_eq hsmall] at hcalls
    obtain ⟨hrounds, -⟩ := Option.ite_none_right_eq_some.mp hcalls
    rw [putUeCalls_eq hsmall, if_pos hrounds] at hput
    obtain ⟨-, hle⟩ := codeCalls_moves hput
    exact ⟨hsmall, by omega⟩
  · rintro ⟨hsmall, hfits⟩
    have hlog := log2_lt hsmall
    have hcalls : putUeCalls 33 (BitVec.ofNat 32 codeNum) = some (codeCalls codeNum) := by
      rw [putUeCalls_eq hsmall, if_pos (by omega)]
    have hlen : (ueCode codeNum).length = 2 * (codeNum + 1).log2 + 1 := by
      simp only [ueCode, List.length_append, List.length_replicate, bitsOf_length]
      omega
    obtain ⟨bs', hput, -, -⟩ := putUe_appends hsmall bs hroom (by omega)
    have hrun : (codeCalls codeNum).foldlM Call.put bs = some bs' :=
      (codeCalls_put hsmall bs).trans hput
    refine ⟨33, _, bs', hcalls, codeCalls_widths hsmall, ?_, (codeCalls_moves hrun).1⟩
    show runCalls (putUeCalls 33 (BitVec.ofNat 32 codeNum)) bs = some bs'
    rw [hcalls]
    exact hrun

/-! ### Signed codes -/

/-- The products wrap onto the number of the code. -/
theorem newVal_eq (val : Word) : newVal val = BitVec.ofNat 32 (seIndex val.toInt) := by
  have hval : val = BitVec.ofInt 32 val.toInt := (BitVec.ofInt_toInt).symm
  have hindex : BitVec.ofNat 32 (seIndex val.toInt) =
      BitVec.ofInt 32 (if val.toInt ≤ 0 then -2 * val.toInt else 2 * val.toInt - 1) := by
    rw [← BitVec.ofInt_natCast]
    congr 1
    unfold seIndex
    split <;> omega
  rw [hindex, newVal]
  split
  · rw [BitVec.ofInt_mul, ← hval]
    rfl
  · rw [Int.sub_eq_add_neg, BitVec.ofInt_add, BitVec.ofInt_mul, ← hval, BitVec.sub_eq_add_neg]
    rfl

theorem seIndex_bounds {val : Word} (h : val.toInt ≠ -2 ^ 31) :
    seIndex val.toInt < 2 ^ 32 - 1 ∧ (seIndex val.toInt < 2 ^ 31 - 1 ↔ val.toInt.natAbs < 2 ^ 30) := by
  have hle : -2 ^ 31 ≤ val.toInt := BitVec.le_toInt val
  have hlt : val.toInt < 2 ^ 31 := BitVec.toInt_lt
  unfold seIndex
  split <;> omega

theorem putSe_eq_header {rounds : Nat} (hrounds : 32 ≤ rounds) (bs : Bitstream) {val : Word}
    (h : val.toInt.natAbs < 2 ^ 30) :
    runCalls (putSeCalls rounds val) bs = putSe bs val.toInt := by
  have hlt := seIndex_lt h
  rw [putSeCalls, newVal_eq, putSe_eq h]
  exact putUe_eq_header hrounds bs (by omega)

theorem putElement_room {bs bs' : Bitstream} {e : Element} (hroom : bs.Room)
    (h : putElement bs e = some bs') : bs'.Room := by
  have hput : ∀ {bs bs' : Bitstream} {val : Word} {n : Nat}, bs.Room → putUi bs val n = some bs' →
      bs'.Room := by
    intro bs bs' val n hroom h
    rcases Nat.eq_zero_or_pos n with rfl | hpos
    · cases h
      exact hroom
    · exact (putUi_moves hpos h).2.2
  have hue : ∀ {val : Word}, putUe bs val = some bs' → bs'.Room := by
    intro val h
    obtain ⟨-, h⟩ := Option.ite_none_right_eq_some.mp h
    obtain ⟨b, h₁, h₂⟩ := Option.bind_eq_some_iff.mp h
    exact hput (hput hroom h₁) h₂
  cases e with
  | u n v => exact hput hroom h
  | ue v => exact hue h
  | se v =>
      obtain ⟨-, h⟩ := Option.ite_none_right_eq_some.mp h
      exact hue h

/-- Every stream that a header has begun is inside its buffer. -/
theorem putAll_room {bs bs' : Bitstream} {es : List Element} (hroom : bs.Room)
    (h : es.foldlM putElement bs = some bs') : bs'.Room := by
  induction es generalizing bs with
  | nil =>
      cases h
      exact hroom
  | cons e es ih =>
      obtain ⟨b, he, hes⟩ := Option.bind_eq_some_iff.mp h
      exact ih (putElement_room hroom he) hes

/-- Both puts finish on exactly the arguments whose code is that of a number below `INT_MAX`, on
a stream that can still count its bits. -/
theorem puts_finish_iff {bs : Bitstream} (hroom : bs.Room) :
    (∀ codeNum < 2 ^ 32 - 1, Finishes (putUeCalls · (BitVec.ofNat 32 codeNum)) bs codeNum ↔
      codeNum < 2 ^ 31 - 1 ∧ bs.bitOffset + (2 * (codeNum + 1).log2 + 1) ≤ intMax) ∧
    ∀ val : Word, val.toInt ≠ -2 ^ 31 →
      (Finishes (putSeCalls · val) bs (seIndex val.toInt) ↔ val.toInt.natAbs < 2 ^ 30 ∧
        bs.bitOffset + (2 * (seIndex val.toInt + 1).log2 + 1) ≤ intMax) := by
  constructor
  · intro codeNum hlt
    exact finishes_iff hlt hroom
  · intro val hmin
    obtain ⟨hlt, hsmall⟩ := seIndex_bounds hmin
    rw [← hsmall, ← finishes_iff hlt hroom, ← newVal_eq]
    rfl

/-- Codes that begin 29 bits into a header and go over to the next word of the buffer. -/
theorem puts_finish_inHeader : ∃ bs,
    [Element.u 16 0x4401, .ue 3, .se (-2), .u 3 5].foldlM putElement
      (bitstreamStart fun _ => 0) = some bs ∧ bs.bitOffset = 29 ∧
    Finishes (putUeCalls · (BitVec.ofNat 32 1919)) bs 1919 ∧
    Finishes (putSeCalls · (-3)) bs (seIndex (-3 : Word).toInt) := by
  obtain ⟨bs, hbs, hoff⟩ := Option.map_eq_some_iff.mp (by decide +kernel :
    ([Element.u 16 0x4401, .ue 3, .se (-2), .u 3 5].foldlM putElement
      (bitstreamStart fun _ => 0)).map Bitstream.bitOffset = some 29)
  have hroom := putAll_room (bitstreamStart_room _) hbs
  refine ⟨bs, hbs, hoff, ?_, ?_⟩
  · refine ((puts_finish_iff hroom).1 1919 (by decide)).mpr ⟨by decide, ?_⟩
    rw [hoff]
    decide
  · refine ((puts_finish_iff hroom).2 (-3) (by decide)).mpr ⟨by decide, ?_⟩
    rw [hoff]
    decide

/-- `put_ue` of `INT_MAX` and `put_se` of `2 ^ 30` never come back. -/
theorem puts_loop_intMax :
    intMax < 2 ^ 32 - 1 ∧ (bitstreamStart fun _ => 0).Room ∧
      ¬ Finishes (putUeCalls · (BitVec.ofNat 32 intMax)) (bitstreamStart fun _ => 0) intMax ∧
      ¬ Finishes (putSeCalls · (BitVec.ofNat 32 (2 ^ 30))) (bitstreamStart fun _ => 0)
        (seIndex (BitVec.ofNat 32 (2 ^ 30)).toInt) ∧
      ∀ rounds, putUeCalls rounds (BitVec.ofNat 32 intMax) = none ∧
        putSeCalls rounds (BitVec.ofNat 32 (2 ^ 30)) = none := by
  have hue : ∀ rounds, putUeCalls rounds (BitVec.ofNat 32 intMax) = none :=
    putUeCalls_none (by decide) (by decide)
  have hse : ∀ rounds, putSeCalls rounds (BitVec.ofNat 32 (2 ^ 30)) = none := hue
  refine ⟨by decide, bitstreamStart_room _, ?_, ?_, fun rounds => ⟨hue rounds, hse rounds⟩⟩
  · rintro ⟨rounds, made, bs', hmade, -⟩
    cases (hue rounds).symm.trans hmade
  · rintro ⟨rounds, made, bs', hmade, -⟩
    cases (hse rounds).symm.trans hmade

end Hprd.Codec.Hevc.Target

import Mathlib.Tactic

/-!
# Groups that are encoded ahead of their display

A sequence is a first item and then groups of `p` items each. The first item of a
group is the last one to be displayed, the others keep their order. Sequences of
length `L` follow each other; `L = 0` stands for one sequence without an end.
-/

namespace Hprd.Core

/-- The display position of the item at encoding position `g` of a sequence. -/
def groupDisplay (p g : Nat) : Nat :=
  if g = 0 then 0 else if p ∣ g - 1 then g + p - 1 else g - 1

/-- The encoding position of the item at display position `e` of a sequence. -/
def groupEncoding (p e : Nat) : Nat :=
  if e = 0 then 0 else if p ∣ e then e + 1 - p else e + 1

/-- The display order of the item with encoding order `o`. -/
def displayOrder (p L o : Nat) : Nat := o - o % L + groupDisplay p (o % L)

def encodingOrder (p L d : Nat) : Nat := d - d % L + groupEncoding p (d % L)

/-- No group is cut short by the end of a sequence. -/
def Whole (p L : Nat) : Prop := L = 0 ∨ p ∣ L - 1

/-- A new group or a new sequence begins at order `n`. -/
def GroupStart (p L n : Nat) : Prop := n % L = 0 ∨ p ∣ n % L - 1

section

variable {p L : Nat}

theorem groupEncoding_groupDisplay (hp : 0 < p) (g : Nat) :
    groupEncoding p (groupDisplay p g) = g := by
  unfold groupDisplay
  split
  next h0 => rw [h0]; rfl
  next h0 =>
    split
    next hd =>
      have hdvd : p ∣ g + p - 1 := by
        rw [show g + p - 1 = g - 1 + p by omega]
        exact Dvd.dvd.add hd (dvd_refl p)
      rw [groupEncoding, if_neg (by omega), if_pos hdvd]
      omega
    next hd =>
      have hg : g - 1 ≠ 0 := fun h => hd (h ▸ dvd_zero p)
      rw [groupEncoding, if_neg hg, if_neg hd]
      omega

theorem groupDisplay_groupEncoding (hp : 0 < p) (e : Nat) :
    groupDisplay p (groupEncoding p e) = e := by
  unfold groupEncoding
  split
  next h0 => rw [h0]; rfl
  next h0 =>
    split
    next hd =>
      have hle : p ≤ e := Nat.le_of_dvd (by omega) hd
      have hdvd : p ∣ e + 1 - p - 1 := by
        rw [show e + 1 - p - 1 = e - p by omega]
        exact Nat.dvd_sub hd (dvd_refl p)
      rw [groupDisplay, if_neg (by omega), if_pos hdvd]
      omega
    next hd =>
      rw [groupDisplay, if_neg (by omega), Nat.add_sub_cancel, if_neg hd]

/-- A group is displayed between the ends of its encoding. -/
theorem groupDisplay_le_iff (hp : 0 < p) {b : Nat} (hb : p ∣ b) (g : Nat) :
    groupDisplay p g ≤ b ↔ g ≤ b := by
  obtain ⟨m, rfl⟩ := hb
  unfold groupDisplay
  split
  next h0 => omega
  next h0 =>
    split
    next hd =>
      obtain ⟨j, hj⟩ := hd
      have hg : g = p * j + 1 := by omega
      have hsucc : g + p - 1 = p * (j + 1) := by rw [Nat.mul_succ]; omega
      rw [hsucc, Nat.mul_le_mul_left_iff hp, hg]
      constructor
      · intro h
        have := Nat.mul_le_mul_left p h
        rw [Nat.mul_succ] at this
        omega
      · intro h
        exact Nat.lt_of_mul_lt_mul_left (a := p) (by omega)
    next hd =>
      constructor
      · intro h
        have hne : g - 1 ≠ p * m := fun h' => hd (h' ▸ dvd_mul_right p m)
        omega
      · omega

/-- Before the start of a group stand the same items in both orders. -/
theorem groupDisplay_lt_iff (hp : 0 < p) {n : Nat} (hn : n = 0 ∨ p ∣ n - 1) (g : Nat) :
    groupDisplay p g < n ↔ g < n := by
  rcases Nat.eq_zero_or_pos n with rfl | hpos
  · omega
  · have hd : p ∣ n - 1 := by
      rcases hn with h | h
      · omega
      · exact h
    have hiff := groupDisplay_le_iff hp hd g
    omega

theorem displayOrder_div_mod (hp : 0 < p) (hL : Whole p L) (o : Nat) :
    displayOrder p L o % L = groupDisplay p (o % L) ∧
      displayOrder p L o - displayOrder p L o % L = o - o % L := by
  unfold displayOrder
  rcases Nat.eq_zero_or_pos L with rfl | hpos
  · simp
  · have hd : L = 0 ∨ p ∣ L - 1 := hL
    have hlt : groupDisplay p (o % L) < L :=
      (groupDisplay_lt_iff hp hd (o % L)).mpr (Nat.mod_lt o hpos)
    have hbase : o - o % L = L * (o / L) := by
      have := Nat.div_add_mod o L
      omega
    have hmod : (o - o % L + groupDisplay p (o % L)) % L = groupDisplay p (o % L) := by
      rw [hbase, Nat.mul_add_mod, Nat.mod_eq_of_lt hlt]
    refine ⟨hmod, ?_⟩
    rw [hmod, Nat.add_sub_cancel]

theorem encodingOrder_displayOrder (hp : 0 < p) (hL : Whole p L) (o : Nat) :
    encodingOrder p L (displayOrder p L o) = o := by
  obtain ⟨hmod, hbase⟩ := displayOrder_div_mod hp hL o
  rw [encodingOrder, hbase, hmod, groupEncoding_groupDisplay hp]
  exact Nat.sub_add_cancel (Nat.mod_le o L)

theorem displayOrder_injective (hp : 0 < p) (hL : Whole p L) :
    Function.Injective (displayOrder p L) :=
  Function.LeftInverse.injective (encodingOrder_displayOrder hp hL)

theorem displayOrder_encodingOrder (hp : 0 < p) (hL : Whole p L) (d : Nat) :
    displayOrder p L (encodingOrder p L d) = d := by
  have hle : d % L ≤ d := Nat.mod_le d L
  rcases Nat.eq_zero_or_pos L with rfl | hpos
  · simp only [displayOrder, encodingOrder, Nat.mod_zero, Nat.sub_self, Nat.zero_add]
    exact groupDisplay_groupEncoding hp d
  · have hlt : groupEncoding p (d % L) < L := by
      rw [← groupDisplay_lt_iff hp hL, groupDisplay_groupEncoding hp]
      exact Nat.mod_lt d hpos
    have hbase : d - d % L = L * (d / L) := by
      have := Nat.div_add_mod d L
      omega
    have hmod : encodingOrder p L d % L = groupEncoding p (d % L) := by
      rw [encodingOrder, hbase, Nat.mul_add_mod, Nat.mod_eq_of_lt hlt]
    rw [displayOrder, hmod, groupDisplay_groupEncoding hp, encodingOrder, Nat.add_sub_cancel]
    omega

theorem displayOrder_lt_iff (hp : 0 < p) (hL : Whole p L) {n : Nat} (hn : GroupStart p L n)
    (o : Nat) : displayOrder p L o < n ↔ o < n := by
  rcases Nat.eq_zero_or_pos L with rfl | hpos
  · unfold GroupStart at hn
    simp only [displayOrder, Nat.mod_zero, Nat.sub_self, Nat.zero_add] at hn ⊢
    exact groupDisplay_lt_iff hp hn o
  · obtain ⟨hmod, hbase⟩ := displayOrder_div_mod hp hL o
    have hlt : displayOrder p L o % L < L := Nat.mod_lt _ hpos
    have ho := Nat.mod_lt o hpos
    have hn' := Nat.mod_lt n hpos
    have hiff := groupDisplay_lt_iff hp hn (o % L)
    have hoeq := Nat.div_add_mod o L
    have hneq := Nat.div_add_mod n L
    have hdeq : displayOrder p L o = L * (o / L) + displayOrder p L o % L := by
      have := Nat.mod_le (displayOrder p L o) L
      omega
    rw [← hmod] at hiff
    generalize displayOrder p L o % L = e at *
    -- the order of the sequences decides, and within one sequence the order of the groups
    rcases Nat.lt_trichotomy (o / L) (n / L) with h | h | h
    · have hmul := Nat.mul_le_mul_left L h
      rw [Nat.mul_succ] at hmul
      omega
    · rw [h] at hoeq hdeq
      omega
    · have hmul := Nat.mul_le_mul_left L h
      rw [Nat.mul_succ] at hmul
      omega

/-- Once a group is whole there is no gap before it. -/
theorem exists_displayOrder_eq (hp : 0 < p) (hL : Whole p L) {n d : Nat} (hn : GroupStart p L n)
    (hd : d < n) : ∃ o < n, displayOrder p L o = d := by
  have heq := displayOrder_encodingOrder hp hL d
  refine ⟨encodingOrder p L d, ?_, heq⟩
  rw [← displayOrder_lt_iff hp hL hn, heq]
  exact hd

/-- A sequence that ends within a group leaves a gap before its end. -/
theorem displayOrder_cut (hp : 0 < p) (hL : 1 < L) (hcut : ¬ p ∣ L - 1) :
    (∀ o < L, displayOrder p L o ≠ L - 1) ∧ ∃ o < L, L ≤ displayOrder p L o := by
  have heq : ∀ o < L, displayOrder p L o = groupDisplay p o := by
    intro o ho
    rw [displayOrder, Nat.mod_eq_of_lt ho, Nat.sub_self, Nat.zero_add]
  constructor
  · intro o ho h
    rw [heq o ho] at h
    have henc : o = groupEncoding p (L - 1) := by rw [← h, groupEncoding_groupDisplay hp]
    rw [groupEncoding, if_neg (by omega), if_neg hcut] at henc
    omega
  · -- the group that is cut starts behind the last multiple of `p`
    have hpos : 0 < (L - 1) % p := Nat.pos_of_ne_zero fun h => hcut (Nat.dvd_of_mod_eq_zero h)
    have hlt : (L - 1) % p < p := Nat.mod_lt _ hp
    have hdm := Nat.div_add_mod (L - 1) p
    refine ⟨p * ((L - 1) / p) + 1, by omega, ?_⟩
    rw [heq _ (by omega), groupDisplay, if_neg (by omega), Nat.add_sub_cancel,
      if_pos (dvd_mul_right p _)]
    omega

/-- What is displayed between two group heads that are encoded before it. -/
theorem displayOrder_between (hp : 0 < p) {o : Nat} (h0 : o % L ≠ 0) (hB : ¬ p ∣ o % L - 1) :
    ∃ a b, o - o % L ≤ a ∧ a < o ∧ o - o % L ≤ b ∧ b < o ∧ GroupStart p L a ∧
      GroupStart p L b ∧
      displayOrder p L a < displayOrder p L o ∧ displayOrder p L o < displayOrder p L b := by
  obtain ⟨g, hg⟩ : ∃ g, o % L = g := ⟨_, rfl⟩
  rw [hg] at h0 hB
  have hle : g ≤ o := hg ▸ Nat.mod_le o L
  -- the position of every item of the sequence up to this one
  have hpos : ∀ i ≤ g, (o - g + i) % L = i := by
    intro i hi
    rcases Nat.eq_zero_or_pos L with rfl | hL
    · rw [Nat.mod_zero] at hg ⊢
      omega
    · have hbase : o - g = L * (o / L) := by
        have := Nat.div_add_mod o L
        omega
      have hlt : i < L := lt_of_le_of_lt hi (hg ▸ Nat.mod_lt o hL)
      rw [hbase, Nat.mul_add_mod, Nat.mod_eq_of_lt hlt]
  have hshow : ∀ i ≤ g, displayOrder p L (o - g + i) = o - g + groupDisplay p i := by
    intro i hi
    rw [displayOrder, hpos i hi, Nat.add_sub_cancel]
  have hr : 0 < (g - 1) % p := Nat.pos_of_ne_zero fun h => hB (Nat.dvd_of_mod_eq_zero h)
  have hrp : (g - 1) % p < p := Nat.mod_lt _ hp
  have hdm := Nat.div_add_mod (g - 1) p
  generalize (g - 1) % p = r at *
  generalize (g - 1) / p = j at *
  have hself : displayOrder p L o = o - g + (g - 1) := by
    have h := hshow g le_rfl
    rw [Nat.sub_add_cancel hle, groupDisplay, if_neg h0, if_neg hB] at h
    exact h
  have hhead : ∀ i, groupDisplay p (p * i + 1) = p * i + p := by
    intro i
    rw [groupDisplay, if_neg (by omega), Nat.add_sub_cancel, if_pos (dvd_mul_right p i)]
    omega
  have hstart : ∀ i, p * i + 1 ≤ g → GroupStart p L (o - g + (p * i + 1)) := by
    intro i hi
    right
    rw [hpos _ hi, Nat.add_sub_cancel]
    exact dvd_mul_right p i
  have hb : displayOrder p L (o - g + (p * j + 1)) = o - g + (p * j + p) := by
    rw [hshow _ (by omega), hhead]
  cases j with
  | zero =>
      -- the first group follows the head of the sequence
      have ha := hshow 0 (Nat.zero_le g)
      refine ⟨o - g + 0, o - g + (p * 0 + 1), by omega, by omega, by omega, by omega,
        Or.inl (hpos 0 (Nat.zero_le g)), hstart 0 (by omega), ?_, ?_⟩
      · rw [ha, hself, groupDisplay, if_pos rfl]
        omega
      · rw [hb, hself]
        omega
  | succ j =>
      rw [Nat.mul_succ] at hdm hb
      have ha := hshow (p * j + 1) (by omega)
      rw [hhead] at ha
      refine ⟨o - g + (p * j + 1), o - g + (p * (j + 1) + 1), by omega, by omega, by omega, ?_,
        hstart j (by omega), hstart (j + 1) (by rw [Nat.mul_succ]; omega), ?_, ?_⟩
      · rw [Nat.mul_succ]
        omega
      · rw [ha, hself]
        omega
      · rw [Nat.mul_succ, hb, hself]
        omega

end

end Hprd.Core

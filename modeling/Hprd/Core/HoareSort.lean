import Mathlib.Tactic
import Mathlib.Logic.Equiv.Basic

/-!
# Sorting by exchange

The exchange sort of Hoare: two indices move towards each other over the elements
that are already on their side of the pivot, exchange the pair they stop at, and the
two ranges they leave behind are sorted in the same way. An access outside a span of
positions has no value, so that a result says that the span was never left. The
pivot, and later the pair that was exchanged, stop both loops inside the range.
-/

namespace Hprd.Core.Hoare

variable {α κ : Type*}

/-- The positions an access may touch. -/
structure Span where
  first : Int
  last : Int

def Span.load (s : Span) (mem : Nat → α) (i : Int) : Option α :=
  if s.first ≤ i ∧ i ≤ s.last then some (mem i.toNat) else none

def swap (mem : Nat → α) (i j : Int) : Nat → α :=
  Function.update (Function.update mem i.toNat (mem j.toNat)) j.toNat (mem i.toNat)

/-- `while (before (mem[i])) i += step`, for a number of rounds. -/
def scan (s : Span) (before : α → Bool) (mem : Nat → α) (step : Int) : Nat → Int → Option Int
  | 0, _ => none
  | rounds + 1, i =>
      (s.load mem i).bind fun x =>
        if before x then scan s before mem step rounds (i + step) else some i

def round (s : Span) (before after : α → Bool) (rounds : Nat) (mem : Nat → α) (i j : Int) :
    Option ((Nat → α) × Int × Int) :=
  (scan s before mem 1 rounds i).bind fun i =>
  (scan s after mem (-1) rounds j).bind fun j =>
    some (if i ≤ j then (swap mem i j, i + 1, j - 1) else (mem, i, j))

def partition (s : Span) (before after : α → Bool) (rounds : Nat) :
    Nat → (Nat → α) → Int → Int → Option ((Nat → α) × Int × Int)
  | 0, _, _, _ => none
  | passes + 1, mem, i, j =>
      if i ≤ j then
        (round s before after rounds mem i j).bind fun (mem, i, j) =>
          partition s before after rounds passes mem i j
      else some (mem, i, j)

/-- Both comparisons take the pivot first. -/
def sort (s : Span) (before after : α → α → Bool) (mid : Int → Int → Int) (rounds : Nat) :
    Nat → (Nat → α) → Int → Int → Option (Nat → α)
  | 0, _, _, _ => none
  | depth + 1, mem, left, right =>
      (s.load mem (mid left right)).bind fun pivot =>
      (partition s (before pivot) (after pivot) rounds rounds mem left right).bind
        fun (mem, i, j) =>
      (if left < j then sort s before after mid rounds depth mem left j else some mem).bind
        fun mem =>
      if i < right then sort s before after mid rounds depth mem i right else some mem

/-! ### Rearrangements -/

/-- The elements of a range have changed places, and no others. -/
def Rearranged (left right : Int) (mem mem' : Nat → α) : Prop :=
  ∃ place : Equiv.Perm Nat, (∀ p : Nat, (p : Int) < left ∨ right < p → place p = p) ∧
    ∀ p, mem' p = mem (place p)

namespace Rearranged

variable {left right l r : Int} {mem mem' mem'' : Nat → α}

theorem refl (left right : Int) (mem : Nat → α) : Rearranged left right mem mem :=
  ⟨Equiv.refl Nat, fun _ _ => rfl, fun _ => rfl⟩

theorem trans (h : Rearranged left right mem mem') (h' : Rearranged left right mem' mem'') :
    Rearranged left right mem mem'' := by
  obtain ⟨place, hout, hmem⟩ := h
  obtain ⟨place', hout', hmem'⟩ := h'
  refine ⟨place'.trans place, ?_, ?_⟩
  · intro p hp
    rw [Equiv.trans_apply, hout' p hp, hout p hp]
  · intro p
    rw [Equiv.trans_apply, hmem', hmem]

theorem mono (h : Rearranged l r mem mem') (hl : left ≤ l) (hr : r ≤ right) :
    Rearranged left right mem mem' := by
  obtain ⟨place, hout, hmem⟩ := h
  refine ⟨place, ?_, hmem⟩
  intro p hp
  exact hout p (by omega)

theorem frame (h : Rearranged left right mem mem') {p : Nat} (hp : (p : Int) < left ∨ right < p) :
    mem' p = mem p := by
  obtain ⟨place, hout, hmem⟩ := h
  rw [hmem, hout p hp]

theorem place_mem {place : Equiv.Perm Nat}
    (hout : ∀ p : Nat, (p : Int) < left ∨ right < p → place p = p) {p : Nat}
    (hl : left ≤ p) (hr : p ≤ right) : left ≤ place p ∧ place p ≤ right := by
  by_contra hnot
  have hfix : place (place p) = place p := hout _ (by omega)
  rw [place.injective hfix] at hnot
  exact hnot ⟨hl, hr⟩

theorem all (h : Rearranged left right mem mem') {P : α → Prop}
    (hall : ∀ p : Nat, left ≤ p → p ≤ right → P (mem p)) {p : Nat} (hl : left ≤ p)
    (hr : p ≤ right) : P (mem' p) := by
  obtain ⟨place, hout, hmem⟩ := h
  obtain ⟨hl', hr'⟩ := place_mem hout hl hr
  rw [hmem]
  exact hall _ hl' hr'

theorem of_swap {i j : Int} (h0 : 0 ≤ left) (hi : left ≤ i) (hij : i ≤ j) (hj : j ≤ right) :
    Rearranged left right mem (swap mem i j) := by
  refine ⟨Equiv.swap i.toNat j.toNat, ?_, ?_⟩
  · intro p hp
    exact Equiv.swap_apply_of_ne_of_ne (by omega) (by omega)
  · intro p
    unfold swap
    by_cases hpj : p = j.toNat
    · rw [hpj, Function.update_self, Equiv.swap_apply_right]
    · rw [Function.update_of_ne hpj]
      by_cases hpi : p = i.toNat
      · rw [hpi, Function.update_self, Equiv.swap_apply_left]
      · rw [Function.update_of_ne hpi, Equiv.swap_apply_of_ne_of_ne hpi hpj]

theorem perm (h : Rearranged left right mem mem') (h0 : 0 ≤ left) :
    ((List.range' left.toNat (right + 1 - left).toNat).map mem').Perm
      ((List.range' left.toNat (right + 1 - left).toNat).map mem) := by
  obtain ⟨place, hout, hmem⟩ := h
  have hcomp : mem' = mem ∘ place := funext hmem
  rw [hcomp, ← List.map_map]
  apply List.Perm.map
  have hnodup : (List.range' left.toNat (right + 1 - left).toNat).Nodup := List.nodup_range'
  rw [List.perm_ext_iff_of_nodup (hnodup.map place.injective) hnodup]
  have hmaps : ∀ place : Equiv.Perm Nat,
      (∀ p : Nat, (p : Int) < left ∨ right < p → place p = p) →
      ∀ p ∈ List.range' left.toNat (right + 1 - left).toNat,
        place p ∈ List.range' left.toNat (right + 1 - left).toNat := by
    intro place hout p hp
    rw [List.mem_range'_1] at hp ⊢
    obtain ⟨hl, hr⟩ := @place_mem left right place hout p (by omega) (by omega)
    omega
  intro q
  rw [List.mem_map]
  constructor
  · rintro ⟨p, hp, rfl⟩
    exact hmaps place hout p hp
  · intro hq
    refine ⟨place.symm q, hmaps place.symm ?_ q hq, place.apply_symm_apply q⟩
    intro p hp
    rw [Equiv.symm_apply_eq, hout p hp]

end Rearranged

/-! ### One loop -/

theorem load_of_mem {s : Span} {mem : Nat → α} {i : Int} (hl : s.first ≤ i) (hr : i ≤ s.last) :
    s.load mem i = some (mem i.toNat) :=
  if_pos ⟨hl, hr⟩

/-- A loop stops no later than at an element that it does not pass. -/
theorem scan_spec {s : Span} {before : α → Bool} {mem : Nat → α} {step : Int} {m rounds : Nat}
    {i : Int} (hin : ∀ k : Nat, k ≤ m → s.first ≤ i + k * step ∧ i + k * step ≤ s.last)
    (hstop : before (mem (i + m * step).toNat) = false) (hrounds : m < rounds) :
    ∃ n ≤ m, scan s before mem step rounds i = some (i + n * step) ∧
      before (mem (i + n * step).toNat) = false ∧
      ∀ k < n, before (mem (i + k * step).toNat) = true := by
  induction rounds generalizing m i with
  | zero => omega
  | succ rounds ih =>
      have hfirst : i + (0 : Nat) * step = i := by ring
      have hload : s.load mem i = some (mem i.toNat) := by
        have h := hin 0 (Nat.zero_le m)
        rw [hfirst] at h
        exact load_of_mem h.1 h.2
      rw [scan, hload, Option.bind_some]
      cases hb : before (mem i.toNat) with
      | false =>
          refine ⟨0, Nat.zero_le m, ?_, ?_, fun k hk => absurd hk (Nat.not_lt_zero k)⟩
          · rw [hfirst]
            rfl
          · rw [hfirst]
            exact hb
      | true =>
          have hshift : ∀ k : Nat, i + step + k * step = i + (k + 1 : Nat) * step := by
            intro k
            push_cast
            ring
          obtain ⟨m', rfl⟩ : ∃ m', m = m' + 1 := by
            cases m with
            | zero =>
                rw [hfirst, hb] at hstop
                cases hstop
            | succ m' => exact ⟨m', rfl⟩
          obtain ⟨n, hn, hscan, hend, hpass⟩ := @ih m' (i + step)
            (fun k hk => by rw [hshift]; exact hin (k + 1) (by omega))
            (by rw [hshift]; exact hstop) (by omega)
          rw [hshift] at hscan hend
          refine ⟨n + 1, by omega, hscan, hend, ?_⟩
          intro k hk
          cases k with
          | zero =>
              rw [hfirst]
              exact hb
          | succ k =>
              rw [← hshift]
              exact hpass k (by omega)

theorem scan_up {s : Span} {before : α → Bool} {mem : Nat → α} {rounds q : Nat} {i : Int}
    (h0 : 0 ≤ i) (hl : s.first ≤ i) (hq : i ≤ q) (hr : q ≤ s.last)
    (hstop : before (mem q) = false) (hrounds : q - i < rounds) :
    ∃ i', scan s before mem 1 rounds i = some i' ∧ i ≤ i' ∧ i' ≤ q ∧
      before (mem i'.toNat) = false ∧ ∀ p : Nat, i ≤ p → p < i' → before (mem p) = true := by
  have hpos : ∀ k : Nat, i + k * 1 = i + k := fun k => by ring
  have hend : (i + ((q - i).toNat : Int)).toNat = q := by omega
  obtain ⟨n, hn, hscan, hout, hpass⟩ := @scan_spec α s before mem 1 (q - i).toNat rounds i
    (fun k hk => by rw [hpos]; omega) (by rw [hpos, hend]; exact hstop) (by omega)
  rw [hpos] at hscan hout
  refine ⟨i + n, hscan, by omega, by omega, hout, ?_⟩
  intro p hip hp
  have h := hpass (p - i).toNat (by omega)
  rw [hpos, show (i + ((p - i).toNat : Int)).toNat = p by omega] at h
  exact h

theorem scan_down {s : Span} {after : α → Bool} {mem : Nat → α} {rounds q : Nat} {j : Int}
    (hl : s.first ≤ q) (hq : q ≤ j) (hr : j ≤ s.last) (hstop : after (mem q) = false)
    (hrounds : j - q < rounds) :
    ∃ j', scan s after mem (-1) rounds j = some j' ∧ q ≤ j' ∧ j' ≤ j ∧
      after (mem j'.toNat) = false ∧ ∀ p : Nat, j' < p → p ≤ j → after (mem p) = true := by
  have hpos : ∀ k : Nat, j + k * (-1) = j - k := fun k => by ring
  have hend : (j - ((j - q).toNat : Int)).toNat = q := by omega
  obtain ⟨n, hn, hscan, hout, hpass⟩ := @scan_spec α s after mem (-1) (j - q).toNat rounds j
    (fun k hk => by rw [hpos]; omega) (by rw [hpos, hend]; exact hstop) (by omega)
  rw [hpos] at hscan hout
  refine ⟨j - n, hscan, by omega, by omega, hout, ?_⟩
  intro p hp hpj
  have h := hpass (j - p).toNat (by omega)
  rw [hpos, show (j - ((j - p).toNat : Int)).toNat = p by omega] at h
  exact h

/-! ### One pass -/

/-- The comparisons are those of a key. -/
structure Compares [LinearOrder κ] (before after : α → α → Bool) (key : α → κ) : Prop where
  before_iff : ∀ pivot x, before pivot x = true ↔ key x < key pivot
  after_iff : ∀ pivot x, after pivot x = true ↔ key pivot < key x

section

variable [LinearOrder κ] {key : α → κ} {before after : α → α → Bool} {s : Span}
  {left right : Int} {rounds : Nat}

/-- What both indices leave behind. -/
structure Split (key : α → κ) (pivot : κ) (left right : Int) (mem : Nat → α) (i j : Int) :
    Prop where
  left_le : left ≤ i
  le_right : j ≤ right
  low : ∀ p : Nat, left ≤ p → p < i → key (mem p) ≤ pivot
  high : ∀ p : Nat, j < p → p ≤ right → pivot ≤ key (mem p)

/-- An element stops each of the indices inside the range. -/
structure Guarded (key : α → κ) (pivot : κ) (left right : Int) (mem : Nat → α) (i j : Int) :
    Prop where
  up : ∃ q : Nat, i ≤ q ∧ q ≤ right ∧ pivot ≤ key (mem q)
  down : ∃ q : Nat, left ≤ q ∧ q ≤ j ∧ key (mem q) ≤ pivot

/-- What a pass has done. -/
structure Passed (key : α → κ) (pivot : κ) (left right : Int) (mem : Nat → α) (i j : Int)
    (mem' : Nat → α) (i' j' : Int) : Prop where
  split : Split key pivot left right mem' i' j'
  guarded : i' ≤ j' → Guarded key pivot left right mem' i' j'
  rearranged : Rearranged left right mem mem'
  up : i ≤ i'
  down : j' ≤ j
  closer : j' < i' ∨ i < i' ∧ j' < j

/-- The exchange puts both elements on their sides, where they stop the next pass. -/
theorem passed_of_swap {mem : Nat → α} {pivot : κ} {i j i' j' : Int} (h0 : 0 ≤ left)
    (hsplit : Split key pivot left right mem i' j') (hi : i ≤ i') (hij : i' ≤ j') (hj : j' ≤ j)
    (hup : pivot ≤ key (mem i'.toNat)) (hdown : key (mem j'.toNat) ≤ pivot) :
    Passed key pivot left right mem i j (swap mem i' j') (i' + 1) (j' - 1) := by
  have hleft := hsplit.left_le
  have hright := hsplit.le_right
  have hatj : swap mem i' j' j'.toNat = mem i'.toNat := Function.update_self ..
  have hati : swap mem i' j' i'.toNat = mem j'.toNat := by
    unfold swap
    by_cases heq : i'.toNat = j'.toNat
    · rw [heq, Function.update_self]
    · rw [Function.update_of_ne heq, Function.update_self]
  have hother : ∀ p : Nat, p ≠ i'.toNat → p ≠ j'.toNat → swap mem i' j' p = mem p := by
    intro p hpi hpj
    unfold swap
    rw [Function.update_of_ne hpj, Function.update_of_ne hpi]
  constructor
  case split =>
    refine ⟨by omega, by omega, ?_, ?_⟩
    · intro p hl hp
      by_cases hpi : p = i'.toNat
      · rw [hpi, hati]
        exact hdown
      · rw [hother p hpi (by omega)]
        exact hsplit.low p hl (by omega)
    · intro p hp hr
      by_cases hpj : p = j'.toNat
      · rw [hpj, hatj]
        exact hup
      · rw [hother p (by omega) hpj]
        exact hsplit.high p (by omega) hr
  case guarded =>
    intro _
    refine ⟨⟨j'.toNat, by omega, by omega, ?_⟩, ⟨i'.toNat, by omega, by omega, ?_⟩⟩
    · rw [hatj]
      exact hup
    · rw [hati]
      exact hdown
  case rearranged => exact Rearranged.of_swap h0 hleft hij hright
  case up => omega
  case down => omega
  case closer => exact Or.inr ⟨by omega, by omega⟩

/-- A pass stays in the range, keeps the split and brings the indices closer. -/
theorem round_spec {mem : Nat → α} {pivot : α} {i j : Int} (hc : Compares before after key)
    (h0 : 0 ≤ left) (hl : s.first ≤ left) (hr : right ≤ s.last) (hrounds : right - left + 2 ≤ rounds)
    (hsplit : Split key (key pivot) left right mem i j)
    (hguard : Guarded key (key pivot) left right mem i j) :
    ∃ mem' i' j', round s (before pivot) (after pivot) rounds mem i j = some (mem', i', j') ∧
      Passed key (key pivot) left right mem i j mem' i' j' ∧
      ∀ m : Nat, i ≤ m → m ≤ j → key (mem m) = key pivot → i < i' ∧ j' < j := by
  obtain ⟨⟨q, hiq, hqr, hq⟩, ⟨q', hlq', hqj', hq'⟩⟩ := hguard
  have hleft := hsplit.left_le
  have hright := hsplit.le_right
  have hbefore : ∀ x, before pivot x = false ↔ key pivot ≤ key x := by
    intro x
    rw [← Bool.not_eq_true, hc.before_iff, not_lt]
  have hafter : ∀ x, after pivot x = false ↔ key x ≤ key pivot := by
    intro x
    rw [← Bool.not_eq_true, hc.after_iff, not_lt]
  obtain ⟨i', hup, hi, hi', hstop, hpass⟩ := @scan_up α s (before pivot) mem rounds q i
    (by omega) (by omega) hiq (by omega) ((hbefore _).mpr hq) (by omega)
  obtain ⟨j', hdown, hj, hj', hstop', hpass'⟩ := @scan_down α s (after pivot) mem rounds q' j
    (by omega) hqj' (by omega) ((hafter _).mpr hq') (by omega)
  have hnext : Split key (key pivot) left right mem i' j' := by
    refine ⟨by omega, by omega, ?_, ?_⟩
    · intro p hlp hp
      rcases lt_or_ge (p : Int) i with hpi | hpi
      · exact hsplit.low p hlp hpi
      · exact ((hc.before_iff _ _).mp (hpass p hpi hp)).le
    · intro p hp hrp
      rcases lt_or_ge j (p : Int) with hpj | hpj
      · exact hsplit.high p hpj hrp
      · exact ((hc.after_iff _ _).mp (hpass' p hp hpj)).le
  have hround : round s (before pivot) (after pivot) rounds mem i j =
      some (if i' ≤ j' then (swap mem i' j', i' + 1, j' - 1) else (mem, i', j')) := by
    rw [round, hup, Option.bind_some, hdown, Option.bind_some]
  -- the pivot itself stops both indices
  have hmeet : ∀ m : Nat, i ≤ m → m ≤ j → key (mem m) = key pivot → i' ≤ m ∧ m ≤ j' := by
    intro m him hmj hm
    constructor
    · by_contra hlt
      exact lt_irrefl _ (hm ▸ (hc.before_iff _ _).mp (hpass m him (by omega)))
    · by_contra hlt
      exact lt_irrefl _ (hm ▸ (hc.after_iff _ _).mp (hpass' m (by omega) hmj))
  by_cases hcross : i' ≤ j'
  · rw [if_pos hcross] at hround
    refine ⟨_, _, _, hround, ?_, fun _ _ _ _ => ⟨by omega, by omega⟩⟩
    exact passed_of_swap h0 hnext hi hcross hj' ((hbefore _).mp hstop) ((hafter _).mp hstop')
  · rw [if_neg hcross] at hround
    refine ⟨_, _, _, hround, ?_, ?_⟩
    · exact ⟨hnext, fun h => absurd h hcross, Rearranged.refl _ _ _, hi, hj', Or.inl (by omega)⟩
    · intro m him hmj hm
      obtain ⟨h, h'⟩ := hmeet m him hmj hm
      omega

/-! ### The partition -/

/-- The passes end with the indices crossed. -/
theorem partition_spec {mem : Nat → α} {pivot : α} {i j : Int} {passes : Nat}
    (hc : Compares before after key) (h0 : 0 ≤ left) (hl : s.first ≤ left) (hr : right ≤ s.last)
    (hrounds : right - left + 2 ≤ rounds) (hpasses : j - i + 2 ≤ passes) (hpos : 0 < passes)
    (hsplit : Split key (key pivot) left right mem i j)
    (hguard : i ≤ j → Guarded key (key pivot) left right mem i j) :
    ∃ mem' i' j', partition s (before pivot) (after pivot) rounds passes mem i j =
        some (mem', i', j') ∧ Split key (key pivot) left right mem' i' j' ∧
      Rearranged left right mem mem' ∧ j' < i' ∧ i ≤ i' ∧ j' ≤ j := by
  induction passes generalizing mem i j with
  | zero => omega
  | succ passes ih =>
      rw [partition]
      by_cases hij : i ≤ j
      · obtain ⟨mem₁, i₁, j₁, hround, hpassed, -⟩ :=
          round_spec hc h0 hl hr hrounds hsplit (hguard hij)
        have hup := hpassed.up
        have hdown := hpassed.down
        have hcloser := hpassed.closer
        obtain ⟨mem', i', j', hrest, hsplit', hre, hlt, hi, hj⟩ :=
          ih (by omega) (by omega) hpassed.split hpassed.guarded
        refine ⟨mem', i', j', ?_, hsplit', hpassed.rearranged.trans hre, hlt, by omega, by omega⟩
        rw [if_pos hij, hround, Option.bind_some]
        exact hrest
      · rw [if_neg hij]
        exact ⟨mem, i, j, rfl, hsplit, Rearranged.refl _ _ _, by omega, le_rfl, le_rfl⟩

/-- Around one of its own elements a range falls into two shorter ones. -/
theorem partition_shrinks {mem : Nat → α} {m : Nat} (hc : Compares before after key)
    (h0 : 0 ≤ left) (hl : s.first ≤ left) (hr : right ≤ s.last)
    (hrounds : right - left + 2 ≤ rounds) (hlm : left ≤ m) (hmr : m ≤ right) :
    ∃ mem' i j, partition s (before (mem m)) (after (mem m)) rounds rounds mem left right =
        some (mem', i, j) ∧ Split key (key (mem m)) left right mem' i j ∧
      Rearranged left right mem mem' ∧ j < i ∧ left < i ∧ j < right := by
  have hsplit : Split key (key (mem m)) left right mem left right :=
    ⟨le_rfl, le_rfl, fun p hp hp' => by omega, fun p hp hp' => by omega⟩
  have hguard : Guarded key (key (mem m)) left right mem left right :=
    ⟨⟨m, hlm, hmr, le_rfl⟩, ⟨m, hlm, hmr, le_rfl⟩⟩
  obtain ⟨mem₁, i₁, j₁, hround, hpassed, hstrict⟩ :=
    round_spec hc h0 hl hr hrounds hsplit hguard
  obtain ⟨hi₁, hj₁⟩ := hstrict m hlm hmr rfl
  obtain ⟨passes, rfl⟩ : ∃ passes, rounds = passes + 1 := ⟨rounds - 1, by omega⟩
  obtain ⟨mem', i, j, hrest, hsplit', hre, hlt, hi, hj⟩ :=
    @partition_spec _ _ _ key before after s left right (passes + 1) mem₁ (mem m) i₁ j₁ passes
      hc h0 hl hr hrounds (by omega) (by omega) hpassed.split hpassed.guarded
  refine ⟨mem', i, j, ?_, hsplit', hpassed.rearranged.trans hre, hlt, by omega, by omega⟩
  rw [partition, if_pos (by omega), hround, Option.bind_some]
  exact hrest

/-! ### The sort -/

def Sorted (key : α → κ) (left right : Int) (mem : Nat → α) : Prop :=
  ∀ p q : Nat, left ≤ p → p ≤ q → q ≤ right → key (mem p) ≤ key (mem q)

theorem sorted_of_le {mem : Nat → α} (h : right ≤ left) : Sorted key left right mem := by
  intro p q hp hpq hq
  have heq : p = q := by omega
  rw [heq]

/-- A range that is rearranged elsewhere stays sorted. -/
theorem Sorted.frame {mem mem' : Nat → α} {l r : Int} (h : Sorted key l r mem)
    (hre : Rearranged left right mem mem') (hout : r < left ∨ right < l) :
    Sorted key l r mem' := by
  intro p q hp hpq hq
  rw [hre.frame (by omega), hre.frame (by omega)]
  exact h p q hp hpq hq

theorem Split.rearrange_left {mem mem' : Nat → α} {pivot : κ} {i j : Int}
    (h : Split key pivot left right mem i j) (hlt : j < i) (hre : Rearranged left j mem mem') :
    Split key pivot left right mem' i j := by
  refine ⟨h.left_le, h.le_right, ?_, ?_⟩
  · intro p hl hp
    by_cases hpj : (p : Int) ≤ j
    · exact hre.all (P := fun x => key x ≤ pivot) (fun p hp hpj => h.low p hp (by omega)) hl hpj
    · rw [hre.frame (by omega)]
      exact h.low p hl hp
  · intro p hp hr
    rw [hre.frame (by omega)]
    exact h.high p hp hr

theorem Split.rearrange_right {mem mem' : Nat → α} {pivot : κ} {i j : Int}
    (h : Split key pivot left right mem i j) (hlt : j < i) (hre : Rearranged i right mem mem') :
    Split key pivot left right mem' i j := by
  refine ⟨h.left_le, h.le_right, ?_, ?_⟩
  · intro p hl hp
    rw [hre.frame (by omega)]
    exact h.low p hl hp
  · intro p hp hr
    by_cases hpi : i ≤ (p : Int)
    · exact hre.all (P := fun x => pivot ≤ key x) (fun p hip hr => h.high p (by omega) hr) hpi hr
    · rw [hre.frame (by omega)]
      exact h.high p hp hr

/-- Sorted halves on both sides of the pivot make a sorted range. -/
theorem Split.sorted {mem : Nat → α} {pivot : κ} {i j : Int}
    (h : Split key pivot left right mem i j) (hlow : Sorted key left j mem)
    (hhigh : Sorted key i right mem) : Sorted key left right mem := by
  intro p q hp hpq hq
  by_cases hqj : (q : Int) ≤ j
  · exact hlow p q hp hpq hqj
  by_cases hip : i ≤ (p : Int)
  · exact hhigh p q hip hpq hq
  calc key (mem p) ≤ pivot := h.low p hp (by omega)
    _ ≤ key (mem q) := h.high q (by omega) hq

/-- With a middle that lies between its bounds, the sort ends inside its span with the range in
order. -/
theorem sort_spec {mid : Int → Int → Int} {mem : Nat → α} {depth : Nat}
    (hc : Compares before after key) (hfirst : 0 ≤ s.first)
    (hmid : ∀ l r, s.first ≤ l → l ≤ r → r ≤ s.last → l ≤ mid l r ∧ mid l r ≤ r)
    (hl : s.first ≤ left) (hle : left ≤ right) (hr : right ≤ s.last)
    (hrounds : s.last - s.first + 2 ≤ rounds) (hdepth : right - left < depth) :
    ∃ mem', sort s before after mid rounds depth mem left right = some mem' ∧
      Rearranged left right mem mem' ∧ Sorted key left right mem' := by
  induction depth generalizing mem left right with
  | zero => omega
  | succ depth ih =>
      obtain ⟨hlm, hmr⟩ := hmid left right hl hle hr
      obtain ⟨m, hm⟩ : ∃ m : Nat, mid left right = m := ⟨(mid left right).toNat, by omega⟩
      rw [hm] at hlm hmr
      obtain ⟨mem₁, i, j, hpart, hsplit, hre₁, hlt, hi, hj⟩ :=
        @partition_shrinks _ _ _ key before after s left right rounds mem m hc (by omega) hl hr
          (by omega) hlm hmr
      obtain ⟨mem₂, hleft, hre₂, hlow⟩ :
          ∃ mem₂, (if left < j then sort s before after mid rounds depth mem₁ left j
            else some mem₁) = some mem₂ ∧ Rearranged left j mem₁ mem₂ ∧
            Sorted key left j mem₂ := by
        by_cases hlj : left < j
        · rw [if_pos hlj]
          exact ih hl hlj.le (by omega) (by omega)
        · rw [if_neg hlj]
          exact ⟨mem₁, rfl, Rearranged.refl _ _ _, sorted_of_le (by omega)⟩
      obtain ⟨mem₃, hright, hre₃, hhigh⟩ :
          ∃ mem₃, (if i < right then sort s before after mid rounds depth mem₂ i right
            else some mem₂) = some mem₃ ∧ Rearranged i right mem₂ mem₃ ∧
            Sorted key i right mem₃ := by
        by_cases hir : i < right
        · rw [if_pos hir]
          exact ih (by omega) hir.le hr (by omega)
        · rw [if_neg hir]
          exact ⟨mem₂, rfl, Rearranged.refl _ _ _, sorted_of_le (by omega)⟩
      have hsplit₃ := (hsplit.rearrange_left hlt hre₂).rearrange_right hlt hre₃
      have hre : Rearranged left right mem mem₃ :=
        (hre₁.trans (hre₂.mono le_rfl hj.le)).trans (hre₃.mono hi.le le_rfl)
      refine ⟨mem₃, ?_, hre, hsplit₃.sorted (hlow.frame hre₃ (by omega)) hhigh⟩
      have hload : s.load mem (m : Int) = some (mem m) := load_of_mem (by omega) (by omega)
      rw [sort, hm, hload, Option.bind_some, hpart, Option.bind_some]
      dsimp only
      rw [hleft, Option.bind_some, hright]

end

end Hprd.Core.Hoare

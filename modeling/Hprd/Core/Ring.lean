import Mathlib.Tactic

/-!
# Cells of a circular buffer

A circular buffer of capacity `cap` keeps the element at stream position `p` in
cell `p % cap`. `window` is the content seen from the stream positions, `block`
the content seen from the cells, and `store` copies a block into the cells. The
lemmas say when the two views agree and what a copy at the write position does to
the window behind it.
-/

namespace Hprd.Core.Ring

variable {α : Type*}

def block (mem : Nat → α) (off n : Nat) : List α := (List.range n).map fun i => mem (off + i)

def window (cap : Nat) (mem : Nat → α) (p n : Nat) : List α :=
  (List.range n).map fun i => mem ((p + i) % cap)

/-- Copy `xs` into the cells from `off` on. -/
def store (mem : Nat → α) (off : Nat) (xs : List α) : Nat → α := fun i =>
  if off ≤ i then (xs[i - off]?).getD (mem i) else mem i

@[simp] theorem block_length (mem : Nat → α) (off n : Nat) : (block mem off n).length = n := by
  simp [block]

@[simp] theorem window_length (cap : Nat) (mem : Nat → α) (p n : Nat) :
    (window cap mem p n).length = n := by
  simp [window]

@[simp] theorem window_zero (cap : Nat) (mem : Nat → α) (p : Nat) : window cap mem p 0 = [] := rfl

theorem window_add (cap : Nat) (mem : Nat → α) (p m n : Nat) :
    window cap mem p (m + n) = window cap mem p m ++ window cap mem (p + m) n := by
  simp [window, List.range_add, Nat.add_assoc, Function.comp_def]

/-- While the positions stay below the end of the buffer, a window is one block of cells. -/
theorem window_eq_block {cap : Nat} (mem : Nat → α) {p n : Nat} (h : p % cap + n ≤ cap) :
    window cap mem p n = block mem (p % cap) n := by
  unfold window block
  apply List.map_congr_left
  intro i hi
  have hi : i < n := by simpa using hi
  rw [Nat.add_mod, Nat.mod_eq_of_lt (a := i) (by omega), Nat.mod_eq_of_lt (by omega)]

theorem block_drop (mem : Nat → α) (off m n : Nat) :
    (block mem off (m + n)).drop m = block mem (off + m) n := by
  simp [block, List.range_add, Nat.add_assoc, Function.comp_def]

theorem window_congr {cap : Nat} {mem mem' : Nat → α} {p n : Nat}
    (h : ∀ i, i < n → mem' ((p + i) % cap) = mem ((p + i) % cap)) :
    window cap mem' p n = window cap mem p n := by
  unfold window
  exact List.map_congr_left fun i hi => h i (by simpa using hi)

theorem store_of_lt {mem : Nat → α} {off i : Nat} (xs : List α) (h : i < off) :
    store mem off xs i = mem i := by
  simp [store, Nat.not_le.mpr h]

theorem store_of_ge {mem : Nat → α} {off i : Nat} {xs : List α} (h : off + xs.length ≤ i) :
    store mem off xs i = mem i := by
  have hn : xs[i - off]? = none := by
    rw [List.getElem?_eq_none_iff]
    omega
  simp [store, hn]

@[simp] theorem store_nil (mem : Nat → α) (off : Nat) : store mem off [] = mem := by
  funext i
  simp [store]

theorem store_singleton (mem : Nat → α) (off : Nat) (x : α) :
    store mem off [x] = Function.update mem off x := by
  funext i
  rcases Nat.lt_trichotomy i off with hlt | rfl | hgt
  · rw [store_of_lt _ hlt, Function.update_of_ne (Nat.ne_of_lt hlt)]
  · simp [store]
  · rw [store_of_ge (by simpa using hgt), Function.update_of_ne (Nat.ne_of_gt hgt)]

theorem block_store (mem : Nat → α) (off : Nat) (xs : List α) :
    block (store mem off xs) off xs.length = xs := by
  apply List.ext_getElem
  · simp
  · intro i h₁ h₂
    simp [block, store, h₂]

theorem block_add (mem : Nat → α) (off m n : Nat) :
    block mem off (m + n) = block mem off m ++ block mem (off + m) n := by
  simp [block, List.range_add, Nat.add_assoc, Function.comp_def]

theorem block_store_of_le {mem : Nat → α} {off off' n : Nat} (xs : List α) (h : off + n ≤ off') :
    block (store mem off' xs) off n = block mem off n := by
  unfold block
  apply List.map_congr_left
  intro i hi
  have hi : i < n := by simpa using hi
  exact store_of_lt xs (by omega)

theorem block_store_append (mem : Nat → α) (off n : Nat) (xs : List α) :
    block (store mem (off + n) xs) off (n + xs.length) = block mem off n ++ xs := by
  rw [block_add, block_store_of_le xs le_rfl, block_store]

/-- Two stream positions less than one lap apart use different cells. -/
theorem mod_ne_of_lt {cap p q : Nat} (hlt : p < q) (hlap : q < p + cap) : p % cap ≠ q % cap := by
  intro h
  have hd : cap ∣ q - p := (Nat.modEq_iff_dvd' (Nat.le_of_lt hlt)).mp h
  have := Nat.le_of_dvd (by omega) hd
  omega

/-- A copy at stream position `b` that stays before the physical end leaves the cell of every
position behind it, up to one lap. -/
theorem store_behind {cap : Nat} (mem : Nat → α) {p b : Nat} (xs : List α) (hp : p < b)
    (hend : b % cap + xs.length ≤ cap) (hlap : b + xs.length ≤ p + cap) :
    store mem (b % cap) xs (p % cap) = mem (p % cap) := by
  by_cases hb : p % cap < b % cap
  · exact store_of_lt xs hb
  · apply store_of_ge
    by_contra hin
    have hmod : (b + (p % cap - b % cap)) % cap = p % cap := by
      rw [Nat.add_mod, Nat.mod_eq_of_lt (a := p % cap - b % cap) (by omega),
        show b % cap + (p % cap - b % cap) = p % cap by omega, Nat.mod_mod]
    exact mod_ne_of_lt (by omega) (by omega) hmod.symm

/-- A copy at stream position `p + n`, inside one lap and before the physical end,
leaves the `n` elements behind it and appends the copied ones. -/
theorem window_store_append {cap : Nat} (mem : Nat → α) {p n : Nat} (xs : List α)
    (hend : (p + n) % cap + xs.length ≤ cap) (hlap : n + xs.length ≤ cap) :
    window cap (store mem ((p + n) % cap) xs) p (n + xs.length) = window cap mem p n ++ xs := by
  rw [window_add, window_eq_block _ hend, block_store]
  congr 1
  apply window_congr
  intro i hi
  exact store_behind mem xs (by omega) hend (by omega)

/-! ## Streams -/

/-- The cells hold the elements of a stream at the positions from `a` on and before `b`. -/
def Holds (cap : Nat) (mem stream : Nat → α) (a b : Nat) : Prop :=
  ∀ p, a ≤ p → p < b → mem (p % cap) = stream p

section

variable {cap : Nat} {mem stream : Nat → α} {a b : Nat}

theorem Holds.mono {a' b' : Nat} (h : Holds cap mem stream a b) (ha : a ≤ a') (hb : b' ≤ b) :
    Holds cap mem stream a' b' :=
  fun p hlo hhi => h p (ha.trans hlo) (hhi.trans_le hb)

theorem Holds.congr {stream' : Nat → α} (h : Holds cap mem stream a b)
    (hs : ∀ p, a ≤ p → p < b → stream' p = stream p) : Holds cap mem stream' a b :=
  fun p hlo hhi => (h p hlo hhi).trans (hs p hlo hhi).symm

theorem store_inside {off i : Nat} {xs : List α} (h : i < xs.length) :
    store mem off xs (off + i) = xs[i] := by
  have hi : off + i - off = i := by omega
  simp [store, hi, h]

theorem Holds.store {xs : List α} (h : Holds cap mem stream a b)
    (hend : b % cap + xs.length ≤ cap) (hlap : b + xs.length ≤ a + cap)
    (hxs : ∀ i (hi : i < xs.length), stream (b + i) = xs[i]) :
    Holds cap (store mem (b % cap) xs) stream a (b + xs.length) := by
  intro p hlo hhi
  by_cases hp : p < b
  · rw [store_behind mem xs hp hend (by omega)]
    exact h p hlo hp
  · rcases Nat.exists_eq_add_of_le (Nat.le_of_not_lt hp) with ⟨i, rfl⟩
    have hi : i < xs.length := by omega
    have hcell : (b + i) % cap = b % cap + i := by
      rw [Nat.add_mod, Nat.mod_eq_of_lt (a := i) (by omega), Nat.mod_eq_of_lt (by omega)]
    rw [hcell, store_inside hi, hxs i hi]

theorem Holds.block {p n : Nat} (h : Holds cap mem stream a b) (hlo : a ≤ p) (hhi : p + n ≤ b)
    (hend : p % cap + n ≤ cap) : block mem (p % cap) n = (List.range' p n).map stream := by
  rw [← window_eq_block mem hend, window, List.range'_eq_map_range, List.map_map]
  apply List.map_congr_left
  intro i hi
  have hi : i < n := by simpa using hi
  exact h (p + i) (by omega) (by omega)

end

/-! ## Marked positions -/

/-- The marked positions from `a` on and before `b`. -/
def marked (mark : Nat → Bool) (a b : Nat) : List Nat := (List.range' a (b - a)).filter mark

/-- The first marked position from `a` on. -/
structure IsFirst (mark : Nat → Bool) (a p : Nat) : Prop where
  le : a ≤ p
  here : mark p = true
  before : ∀ q, a ≤ q → q < p → mark q = false

section

variable {mark : Nat → Bool} {a b c p : Nat}

theorem mem_marked : p ∈ marked mark a b ↔ a ≤ p ∧ p < b ∧ mark p = true := by
  rw [marked, List.mem_filter, List.mem_range'_1]
  constructor
  · rintro ⟨⟨hle, hlt⟩, hmark⟩
    exact ⟨hle, by omega, hmark⟩
  · rintro ⟨hle, hlt, hmark⟩
    exact ⟨⟨hle, by omega⟩, hmark⟩

theorem marked_append (hab : a ≤ b) (hbc : b ≤ c) :
    marked mark a c = marked mark a b ++ marked mark b c := by
  obtain ⟨m, rfl⟩ := Nat.exists_eq_add_of_le hab
  obtain ⟨n, rfl⟩ := Nat.exists_eq_add_of_le hbc
  have h₁ : a + m + n - a = m + n := by omega
  have h₂ : a + m - a = m := by omega
  have h₃ : a + m + n - (a + m) = n := by omega
  rw [marked, marked, marked, h₁, h₂, h₃, ← List.filter_append, List.range'_append_1]

theorem marked_eq_nil (h : ∀ q, a ≤ q → q < b → mark q = false) : marked mark a b = [] := by
  rw [List.eq_nil_iff_forall_not_mem]
  intro p hp
  obtain ⟨hle, hlt, hmark⟩ := mem_marked.mp hp
  rw [h p hle hlt] at hmark
  cases hmark

theorem marked_singleton (h : mark a = true) : marked mark a (a + 1) = [a] := by
  have h₁ : a + 1 - a = 1 := by omega
  rw [marked, h₁, List.range'_one]
  simp [h]

theorem marked_succ (hab : a ≤ b) (h : mark b = true) :
    marked mark a (b + 1) = marked mark a b ++ [b] := by
  rw [marked_append hab (Nat.le_succ b), marked_singleton h]

/-- The positions of a first marked one and all behind it. -/
theorem IsFirst.marked_eq (h : IsFirst mark a p) (hp : p < b) :
    marked mark a b = p :: marked mark (p + 1) b := by
  rw [marked_append h.le (Nat.le_of_lt hp), marked_eq_nil h.before, List.nil_append,
    marked_append (Nat.le_succ p) hp, marked_singleton h.here, List.singleton_append]

/-- Marks that repeat are found within one period. -/
theorem IsFirst.lt_add {period : Nat} (hpos : 0 < period)
    (hmark : ∀ q, mark (q + period) = mark q) (h : IsFirst mark a p) : p < a + period := by
  by_contra hle
  have hq := h.before (p - period) (by omega) (by omega)
  rw [← hmark, Nat.sub_add_cancel (by omega), h.here] at hq
  cases hq

end

end Hprd.Core.Ring

import Mathlib.Data.List.TakeWhile
import Hprd.Core.Bytes

/-!
# Blocks of memory with checked accesses

A load or a store outside its block has no value, and neither has a string whose
terminator is not inside. A `Block n` keeps its size whatever is stored in it.
-/

namespace Hprd.Core

def load (p : Bytes) (i n : Nat) : Option Bytes :=
  if i + n ≤ p.length then some ((p.drop i).take n) else none

/-- The string at offset `i`, without its terminator. -/
def cString (p : Bytes) (i : Nat) : Option Bytes :=
  if 0 ∈ p.drop i then some ((p.drop i).takeWhile (· != 0)) else none

theorem load_eq_some_iff {p bs : Bytes} {i n : Nat} :
    load p i n = some bs ↔ i + n ≤ p.length ∧ (p.drop i).take n = bs := by
  simp [load]

theorem load_of_le {p : Bytes} {i n : Nat} (h : i + n ≤ p.length) :
    load p i n = some ((p.drop i).take n) :=
  load_eq_some_iff.mpr ⟨h, rfl⟩

theorem load_eq_none_iff {p : Bytes} {i n : Nat} : load p i n = none ↔ p.length < i + n := by
  simp [load]

theorem length_of_load {p bs : Bytes} {i n : Nat} (h : load p i n = some bs) : bs.length = n := by
  obtain ⟨hle, rfl⟩ := load_eq_some_iff.mp h
  rw [List.length_take, List.length_drop]
  omega

theorem load_append (p bs q : Bytes) : load (p ++ (bs ++ q)) p.length bs.length = some bs := by
  apply load_eq_some_iff.mpr
  constructor
  · simp
  · simp

theorem cString_eq_some_iff {p s : Bytes} {i : Nat} :
    cString p i = some s ↔ 0 ∉ s ∧ ∃ q, p.drop i = s ++ 0 :: q := by
  generalize hd : p.drop i = d
  rw [cString, hd]
  constructor
  · intro h
    obtain ⟨hmem, hs⟩ := Option.ite_none_right_eq_some.mp h
    cases hs
    have h0 : 0 ∉ d.takeWhile (· != 0) := fun h => by simpa using List.mem_takeWhile_imp h
    refine ⟨h0, ?_⟩
    have hrest : d.dropWhile (· != 0) ≠ [] := by
      intro hnil
      have hall := List.dropWhile_eq_nil_iff.mp hnil 0 hmem
      simp at hall
    obtain ⟨b, q, hbq⟩ := List.exists_cons_of_ne_nil hrest
    have hb := List.head_dropWhile_not (· != 0) hrest
    simp only [hbq, List.head_cons] at hb
    have hb0 : b = 0 := by simpa using hb
    subst hb0
    refine ⟨q, ?_⟩
    rw [← hbq, List.takeWhile_append_dropWhile]
  · rintro ⟨h0, q, rfl⟩
    rw [if_pos (by simp), List.takeWhile_append_of_pos]
    · simp
    · intro b hb
      simp only [bne_iff_ne]
      rintro rfl
      exact h0 hb

theorem cString_append {s : Bytes} (p q : Bytes) (h : 0 ∉ s) :
    cString (p ++ (s ++ 0 :: q)) p.length = some s :=
  cString_eq_some_iff.mpr ⟨h, q, by simp⟩

@[ext]
structure Block (n : Nat) where
  bytes : Bytes
  length_eq : bytes.length = n

namespace Block

variable {n : Nat}

def zero (n : Nat) : Block n := ⟨List.replicate n 0, List.length_replicate⟩

def read (b : Block n) (i k : Nat) : Bytes := (b.bytes.drop i).take k

/-- `memcpy` of `bs` to offset `i`. -/
def store (b : Block n) (i : Nat) (bs : Bytes) : Option (Block n) :=
  if h : i + bs.length ≤ n then
    some ⟨b.bytes.take i ++ (bs ++ b.bytes.drop (i + bs.length)), by
      have hb := b.length_eq
      simp only [List.length_append, List.length_take, List.length_drop]
      omega⟩
  else none

theorem store_eq_none_iff {b : Block n} {i : Nat} {bs : Bytes} :
    b.store i bs = none ↔ n < i + bs.length := by
  simp [store]

theorem le_of_store {b c : Block n} {i : Nat} {bs : Bytes} (h : b.store i bs = some c) :
    i + bs.length ≤ n := by
  by_contra hlt
  rw [store_eq_none_iff.mpr (by omega)] at h
  cases h

theorem exists_store (b : Block n) (i : Nat) (bs : Bytes) (h : i + bs.length ≤ n) :
    ∃ c, b.store i bs = some c :=
  ⟨_, dif_pos h⟩

theorem load_bytes (b : Block n) {i k : Nat} (h : i + k ≤ n) :
    load b.bytes i k = some (b.read i k) :=
  load_of_le (by rwa [b.length_eq])

theorem bytes_of_store {b c : Block n} {i : Nat} {bs : Bytes} (h : b.store i bs = some c) :
    c.bytes = b.bytes.take i ++ (bs ++ b.bytes.drop (i + bs.length)) := by
  have hle := le_of_store h
  rw [store, dif_pos hle] at h
  cases h
  rfl

theorem read_store {b c : Block n} {i : Nat} {bs : Bytes} (h : b.store i bs = some c) :
    c.read i bs.length = bs := by
  have hle := le_of_store h
  have hb := b.length_eq
  have htake : (b.bytes.take i).length = i := by
    rw [List.length_take]
    omega
  rw [read, bytes_of_store h, List.drop_left' htake]
  simp

theorem read_store_before {b c : Block n} {i j k : Nat} {bs : Bytes}
    (h : b.store i bs = some c) (hjk : j + k ≤ i) : c.read j k = b.read j k := by
  have hle := le_of_store h
  have hb := b.length_eq
  have htake : (b.bytes.take i).length = i := by
    rw [List.length_take]
    omega
  rw [read, read, bytes_of_store h, List.drop_append_of_le_length (by omega),
    List.take_append_of_le_length (by rw [List.length_drop]; omega), List.drop_take,
    List.take_take, Nat.min_eq_left (by omega)]

theorem read_store_behind {b c : Block n} {i j k : Nat} {bs : Bytes}
    (h : b.store i bs = some c) (hij : i + bs.length ≤ j) : c.read j k = b.read j k := by
  have hle := le_of_store h
  have hb := b.length_eq
  have htake : (b.bytes.take i).length = i := by
    rw [List.length_take]
    omega
  obtain ⟨d, rfl⟩ : ∃ d, j = i + (bs.length + d) := ⟨j - i - bs.length, by omega⟩
  rw [read, read, bytes_of_store h, ← List.drop_drop, List.drop_left' htake, ← List.drop_drop,
    List.drop_left' rfl, List.drop_drop]
  congr 2
  omega

theorem read_add (b : Block n) (i k l : Nat) :
    b.read i (k + l) = b.read i k ++ b.read (i + k) l := by
  rw [read, read, read, List.take_add, List.drop_drop]

/-- A store that changes nothing found its bytes already there. -/
theorem store_same_iff {b c : Block n} {i : Nat} {bs : Bytes} (h : b.store i bs = some c) :
    c = b ↔ b.read i bs.length = bs := by
  constructor
  · rintro rfl
    exact read_store h
  · intro hread
    have hrest : bs ++ b.bytes.drop (i + bs.length) = b.bytes.drop i := by
      calc bs ++ b.bytes.drop (i + bs.length)
          = b.read i bs.length ++ (b.bytes.drop i).drop bs.length := by rw [hread, List.drop_drop]
        _ = b.bytes.drop i := List.take_append_drop ..
    ext1
    rw [bytes_of_store h, hrest, List.take_append_drop]

end Block

end Hprd.Core

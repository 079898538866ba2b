import Hprd.Core.Machine

/-!
# Runs with labels deleted

The unwinding argument for a property of two runs: what a hidden label does keeps a
relation to a state that does not take the label, and a label both take keeps it too.
Then a run and the same run without its hidden labels end in related states.
-/

namespace Hprd.Core

universe u v

namespace Machine

variable {σ : Type u} {α : Type v}

/-- The labels `as` lead from a state to another one, and each of them meets `ok`. -/
inductive Path (M : Machine σ α) (ok : σ → α → Prop) : σ → List α → σ → Prop where
  | nil {s} : Path M ok s [] s
  | cons {s a t as u} : ok s a → M.step s a = some t → Path M ok t as u → Path M ok s (a :: as) u

variable {M : Machine σ α} {ok ok' : σ → α → Prop}

theorem Path.exec {s t : σ} {as : List α} (h : M.Path ok s as t) : M.exec s as = some t := by
  induction h with
  | nil => rfl
  | cons _ hs _ ih => exact (exec_cons hs).trans ih

theorem Path.unwinding {R : σ → σ → Prop} {hidden : α → Bool}
    (hide : ∀ s a t u, R s u → hidden a = true → ok s a → M.step s a = some t → R t u)
    (keep : ∀ s a t u v, R s u → hidden a = false → ok s a → ok' u a → M.step s a = some t →
      M.step u a = some v → R t v)
    {s t u v : σ} {as : List α} (hR : R s u) (h : M.Path ok s as t)
    (h' : M.Path ok' u (as.filter fun a => !hidden a) v) : R t v := by
  induction h generalizing u with
  | nil =>
      cases h'
      exact hR
  | @cons s a t as w hok hs _ ih =>
      cases ha : hidden a with
      | true =>
          rw [List.filter_cons_of_neg (by simp [ha])] at h'
          exact ih (hide _ _ _ _ hR ha hok hs) h'
      | false =>
          rw [List.filter_cons_of_pos (by simp [ha])] at h'
          cases h' with
          | cons hok' hs' hrest => exact ih (keep _ _ _ _ _ hR ha hok hok' hs hs') hrest

end Machine

end Hprd.Core

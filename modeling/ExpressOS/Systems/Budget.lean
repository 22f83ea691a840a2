import Mathlib

/-!
# Budgets with failures that stay

A writer has a budget, and each write has a cost. A write that the budget does not cover fails,
and no later write takes the failure back. Costs are elements of an ordered monoid, such as pairs
of two resources, and a run of writes fails unless the budget covers their sum.
-/

namespace Systems

/-- What a writer of states `σ` has left, and whether it has failed. -/
structure Budget (σ M : Type*) where
  failed : σ → Prop
  left : σ → M

namespace Budget

/-- The step from `s` to `t` costs `k`. -/
structure Pays {σ M : Type*} [Add M] [LE M] (B : Budget σ M) (k : M) (s t : σ) : Prop where
  sticky : B.failed s → B.failed t
  covered_iff : ¬ B.failed s → (¬ B.failed t ↔ k ≤ B.left s)
  spent : ¬ B.failed t → B.left s = B.left t + k

namespace Pays

variable {σ M : Type*} [AddCommMonoid M] [PartialOrder M] [CanonicallyOrderedAdd M]
  {B : Budget σ M} {k l : M} {s t u : σ}

lemma refl (s : σ) : B.Pays 0 s s where
  sticky := id
  covered_iff h := iff_of_true h zero_le
  spent _ := (add_zero _).symm

/-- Two steps cost the sum, whichever of them the budget does not cover. -/
theorem trans [IsOrderedCancelAddMonoid M] (h : B.Pays k s t) (h' : B.Pays l t u) :
    B.Pays (k + l) s u where
  sticky hs := h'.sticky (h.sticky hs)
  covered_iff hs := by
    constructor
    · intro hu
      have ht : ¬ B.failed t := mt h'.sticky hu
      have hrest : l ≤ B.left t := (h'.covered_iff ht).mp hu
      rw [h.spent ht, add_comm]
      exact add_le_add_left hrest k
    · intro hcovered
      have hfirst : k ≤ B.left s := le_self_add.trans hcovered
      have ht := (h.covered_iff hs).mpr hfirst
      rw [h.spent ht, add_comm] at hcovered
      exact (h'.covered_iff ht).mpr (le_of_add_le_add_right hcovered)
  spent hu := by
    rw [h.spent (mt h'.sticky hu), h'.spent hu, add_assoc, add_comm l k]

end Pays

end Budget

end Systems

import ExpressOS.Systems.Machine

/-!
# Refinement between machines

A machine refines another along a map of its states when each of its steps is a run of the other
between the images. What the abstract machine keeps then holds of the images of all states that the
concrete machine reaches.
-/

namespace Systems

variable {σ τ ℓ κ : Type} {C : Machine σ ℓ} {A : Machine τ κ} {abs : σ → τ}

lemma Machine.run_singleton (M : Machine σ ℓ) (s : σ) (l : ℓ) : M.run s [l] = M.step s l :=
  Option.bind_fun_some _

structure Machine.Refines (C : Machine σ ℓ) (A : Machine τ κ) (abs : σ → τ) : Prop where
  start : abs C.start = A.start
  step : ∀ s l s', C.step s l = some s' → ∃ ks, A.run (abs s) ks = some (abs s')

namespace Machine.Refines

/-- What the abstract machine keeps holds of the images, and each step of the concrete machine may
rely on it for what it keeps itself. -/
theorem invariant (h : C.Refines A abs) {I : τ → Prop} {J : σ → Prop} (hstart : I A.start)
    (hstep : ∀ t k t', I t → A.step t k = some t' → I t') (hstart' : J C.start)
    (hstep' : ∀ s l s', I (abs s) → J s → C.step s l = some s' → J s') {s : σ} {ls : List ℓ}
    (hrun : C.Reaches ls s) : I (abs s) ∧ J s := by
  refine C.invariant (I := fun s => I (abs s) ∧ J s) ⟨h.start ▸ hstart, hstart'⟩ ?_ hrun
  rintro s l s' ⟨hI, hJ⟩ hs
  obtain ⟨ks, hks⟩ := h.step s l s' hs
  exact ⟨A.run_invariant hstep hI hks, hstep' s l s' hI hJ hs⟩

end Machine.Refines

end Systems

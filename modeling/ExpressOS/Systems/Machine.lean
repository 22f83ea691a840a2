import Mathlib

/-!
# Machines that take labelled steps

A machine has a start state and an executable step for each label; a step that is not enabled
gives `none`. Facts about all runs come from one step by the rules of this file.
-/

namespace Systems

structure Machine (σ ℓ : Type) where
  start : σ
  step : σ → ℓ → Option σ

namespace Machine

variable {σ ℓ : Type} (M : Machine σ ℓ)

def run : σ → List ℓ → Option σ
  | s, [] => some s
  | s, l :: ls => (M.step s l).bind (fun s' => run s' ls)

lemma run_append (s : σ) (ls ls' : List ℓ) :
    M.run s (ls ++ ls') = (M.run s ls).bind (fun s' => M.run s' ls') := by
  induction ls generalizing s with
  | nil => rfl
  | cons l ls ih =>
    change (M.step s l).bind _ = ((M.step s l).bind _).bind _
    rw [Option.bind_assoc]
    exact congrArg _ (funext ih)

/-- The labels `ls` lead from the start to `s`. -/
def Reaches (ls : List ℓ) (s : σ) : Prop :=
  M.run M.start ls = some s

lemma run_invariant {I : σ → Prop} (hstep : ∀ s l s', I s → M.step s l = some s' → I s')
    {s s' : σ} {ls : List ℓ} (hs : I s) (hrun : M.run s ls = some s') : I s' := by
  induction ls generalizing s with
  | nil =>
    cases hrun
    exact hs
  | cons l ls ih =>
    obtain ⟨t, ht, hrest⟩ := Option.bind_eq_some_iff.mp hrun
    exact ih (hstep s l t hs ht) hrest

/-- Where an invariant lets every step be taken, every run exists. -/
lemma run_total {I : σ → Prop} (hstep : ∀ s l, I s → ∃ s', M.step s l = some s' ∧ I s') {s : σ}
    (hs : I s) (ls : List ℓ) : ∃ s', M.run s ls = some s' ∧ I s' := by
  induction ls generalizing s with
  | nil => exact ⟨s, rfl, hs⟩
  | cons l ls ih =>
    obtain ⟨t, ht, hI⟩ := hstep s l hs
    obtain ⟨s', hrest, hs'⟩ := ih hI
    exact ⟨s', Option.bind_eq_some_iff.mpr ⟨t, ht, hrest⟩, hs'⟩

/-- What holds at the start and is kept by every step holds in every state reached. -/
theorem invariant {I : σ → Prop} (hstart : I M.start)
    (hstep : ∀ s l s', I s → M.step s l = some s' → I s') {ls : List ℓ} {s : σ}
    (h : M.Reaches ls s) : I s :=
  M.run_invariant hstep hstart h

/-- `P` holds at `s` and at every state that the labels lead to from there. -/
def Along (P : σ → Prop) : σ → List ℓ → Prop
  | s, [] => P s
  | s, l :: ls => P s ∧ ∀ s', M.step s l = some s' → Along P s' ls

/-- Every step that the labels take from `s` meets the condition `C`. -/
def Meets (C : σ → ℓ → Prop) : σ → List ℓ → Prop
  | _, [] => True
  | s, l :: ls => ∀ s', M.step s l = some s' → C s l ∧ Meets C s' ls

section Conditions

variable {M} {I P : σ → Prop} {C : σ → ℓ → Prop}

lemma Along.here {s : σ} {ls : List ℓ} (h : M.Along P s ls) : P s := by
  cases ls with
  | nil => exact h
  | cons l ls => exact h.1

lemma Along.imp {Q : σ → Prop} {s : σ} {ls : List ℓ} (h : M.Along P s ls)
    (hPQ : ∀ s, P s → Q s) : M.Along Q s ls := by
  induction ls generalizing s with
  | nil => exact hPQ s h
  | cons l ls ih => exact ⟨hPQ s h.1, fun s' hstep => ih (h.2 s' hstep)⟩

lemma Along.run {s s' : σ} {ls : List ℓ} (h : M.Along P s ls) (hrun : M.run s ls = some s') :
    P s' := by
  induction ls generalizing s with
  | nil =>
    cases hrun
    exact h
  | cons l ls ih =>
    obtain ⟨t, ht, hrest⟩ := Option.bind_eq_some_iff.mp hrun
    exact ih (h.2 t ht) hrest

instance decidableMeets [∀ s l, Decidable (C s l)] :
    ∀ (s : σ) (ls : List ℓ), Decidable (M.Meets C s ls)
  | _, [] => isTrue trivial
  | s, l :: ls =>
    match h : M.step s l with
    | none => isTrue fun s' hs' => by rw [h] at hs'; cases hs'
    | some t =>
      haveI := decidableMeets t ls
      decidable_of_iff (C s l ∧ M.Meets C t ls)
        ⟨fun hmeets s' hs' => Option.some.inj (h.symm.trans hs') ▸ hmeets,
          fun hmeets => hmeets t h⟩

/-- A condition on steps that decides whether a step keeps `P` decides whether a run does. -/
theorem along_iff_meets (hI : ∀ s l s', I s → M.step s l = some s' → I s')
    (hP : ∀ s l s', I s → P s → M.step s l = some s' → (P s' ↔ C s l)) {s : σ} {ls : List ℓ}
    (hs : I s) (h : P s) : M.Along P s ls ↔ M.Meets C s ls := by
  induction ls generalizing s with
  | nil => exact iff_of_true h trivial
  | cons l ls ih =>
    constructor
    · intro halong s' hstep
      have hrest := halong.2 s' hstep
      have hs' := hI s l s' hs hstep
      exact ⟨(hP s l s' hs h hstep).mp hrest.here, (ih hs' hrest.here).mp hrest⟩
    · intro hmeets
      refine ⟨h, fun s' hstep => ?_⟩
      obtain ⟨hcond, hrest⟩ := hmeets s' hstep
      exact (ih (hI s l s' hs hstep) ((hP s l s' hs h hstep).mpr hcond)).mpr hrest

/-- In a run whose steps all meet `C`, what such steps keep holds in every state reached. -/
lemma along_of_meets (hP : ∀ s l s', P s → C s l → M.step s l = some s' → P s') {s : σ}
    {ls : List ℓ} (h : P s) (hmeets : M.Meets C s ls) : M.Along P s ls := by
  induction ls generalizing s with
  | nil => exact h
  | cons l ls ih =>
    refine ⟨h, fun s' hstep => ?_⟩
    obtain ⟨hcond, hrest⟩ := hmeets s' hstep
    exact ih (hP s l s' h hcond hstep) hrest

end Conditions

/-- The state after the labels `ls`, for a run that exists. -/
def after (ls : List ℓ) : σ := (M.run M.start ls).getD M.start

lemma reaches_after {ls : List ℓ} (h : (M.run M.start ls).isSome = true) :
    M.Reaches ls (M.after ls) := by
  obtain ⟨s, hs⟩ := Option.isSome_iff_exists.mp h
  rw [Reaches, after, hs]
  rfl

end Machine

end Systems

import Mathlib

/-!
# Scanners

A scanner reads its input from the left and stops when it has seen enough; at the end of the input
it has a result as well. An input on which it stops settles the result, whatever follows.
-/

namespace Systems

structure Scanner (σ α ρ : Type*) where
  step : σ → α → σ ⊕ ρ
  atEnd : σ → ρ

namespace Scanner

variable {σ α ρ : Type*} (S : Scanner σ α ρ)

def run : σ → List α → ρ
  | s, [] => S.atEnd s
  | s, a :: as =>
    match S.step s a with
    | .inl t => run t as
    | .inr r => r

/-- The state after an input on which the scanner does not stop. -/
def advance : σ → List α → Option σ
  | s, [] => some s
  | s, a :: as =>
    match S.step s a with
    | .inl t => advance t as
    | .inr _ => none

variable {S} {s t : σ} {as : List α}

lemma run_append_of_advance (h : S.advance s as = some t) (bs : List α) :
    S.run s (as ++ bs) = S.run t bs := by
  induction as generalizing s with
  | nil =>
    cases h
    rfl
  | cons a as ih =>
    rw [List.cons_append, run]
    rw [advance] at h
    cases hstep : S.step s a with
    | inl u =>
      rw [hstep] at h
      exact ih h
    | inr r =>
      rw [hstep] at h
      cases h

lemma run_append_of_stopped (h : S.advance s as = none) (bs : List α) :
    S.run s (as ++ bs) = S.run s as := by
  induction as generalizing s with
  | nil => cases h
  | cons a as ih =>
    rw [List.cons_append, run, run]
    rw [advance] at h
    cases hstep : S.step s a with
    | inl u =>
      rw [hstep] at h
      exact ih h
    | inr r => rfl

lemma advance_append_of_advance (h : S.advance s as = some t) (bs : List α) :
    S.advance s (as ++ bs) = S.advance t bs := by
  induction as generalizing s with
  | nil =>
    cases h
    rfl
  | cons a as ih =>
    rw [List.cons_append, advance]
    rw [advance] at h
    cases hstep : S.step s a with
    | inl u =>
      rw [hstep] at h
      exact ih h
    | inr r =>
      rw [hstep] at h
      cases h

/-- What holds of the states of a scanner from a step on holds of the state it is in. -/
lemma advance_induction {P : σ → Prop} (hs : P s)
    (hstep : ∀ t a u, P t → S.step t a = .inl u → P u) (h : S.advance s as = some t) : P t := by
  induction as generalizing s with
  | nil =>
    cases h
    exact hs
  | cons a as ih =>
    rw [advance] at h
    cases hnext : S.step s a with
    | inl u =>
      rw [hnext] at h
      exact ih (hstep s a u hs hnext) h
    | inr r =>
      rw [hnext] at h
      cases h

end Scanner

end Systems

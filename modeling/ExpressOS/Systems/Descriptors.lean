import Mathlib

/-!
# Descriptors of a process

A table from numbers to open files. An `open` takes the lowest number that is free, below a limit;
a `dup2` replaces the file of a number.
-/

namespace Systems

abbrev Descriptors (F : Type) := ℕ → Option F

namespace Descriptors

variable {F : Type} (limit : ℕ) (d : Descriptors F)

/-- The lowest free descriptor. -/
def lowest : Option ℕ := (List.range limit).find? fun k => (d k).isNone

/-- The descriptor of a file that is opened, and the table with it. -/
def openFile (f : F) : Option (ℕ × Descriptors F) :=
  (d.lowest limit).map fun k => (k, Function.update d k (some f))

/-- The table after a `dup2`, which fails for a number that is not open and for one out of range. -/
def dup2 (src dst : ℕ) : Option (Descriptors F) :=
  (d src).bind fun f => if dst < limit then some (Function.update d dst (some f)) else none

def close (k : ℕ) : Descriptors F := Function.update d k none

variable {limit d}

lemma lowest_spec {n : ℕ} (h : d.lowest limit = some n) :
    n < limit ∧ d n = none ∧ ∀ k < n, d k ≠ none := by
  obtain ⟨hn, hlt, hbelow⟩ := List.find?_range_eq_some.mp h
  refine ⟨List.mem_range.mp hlt, Option.isNone_iff_eq_none.mp hn, fun k hk hnone => ?_⟩
  simpa [hnone] using hbelow k hk

lemma dup2_eq_some {src dst : ℕ} {d' : Descriptors F} {f : F} (hsrc : d src = some f)
    (h : d.dup2 limit src dst = some d') :
    d' = Function.update d dst (some f) ∧ d' src = some f ∧ d' dst = some f := by
  rw [dup2, hsrc, Option.bind_some] at h
  split_ifs at h
  cases h
  refine ⟨rfl, ?_, Function.update_self ..⟩
  by_cases heq : src = dst
  · rw [heq, Function.update_self]
  · rw [Function.update_of_ne heq, hsrc]

end Descriptors

end Systems

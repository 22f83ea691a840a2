import Mathlib

/-!
# Terminated strings

A string in memory is a run of units that are not zero, and a zero after them. The units are
numbered from the start of the string, so that the file fits strings of bytes and of wider units.
-/

namespace Systems

variable {β : Type} [Zero β]

/-- The units from `f 0` on are those of `cs`, and then comes the terminator. -/
structure Terminated (f : ℕ → β) (cs : List β) : Prop where
  unit : ∀ i < cs.length, cs[i]? = some (f i)
  terminator : f cs.length = 0
  nonzero : 0 ∉ cs

namespace Terminated

variable {f : ℕ → β} {cs cs' : List β}

lemma unit_ne_zero (h : Terminated f cs) {i : ℕ} (hi : i < cs.length) : f i ≠ 0 := by
  intro hzero
  apply h.nonzero
  rw [← hzero]
  exact List.mem_of_getElem? (h.unit i hi)

lemma length_le (h : Terminated f cs) (h' : Terminated f cs') : cs.length ≤ cs'.length := by
  by_contra hlt
  exact h.unit_ne_zero (not_le.mp hlt) h'.terminator

lemma nil (h : f 0 = 0) : Terminated f [] :=
  ⟨nofun, h, List.not_mem_nil⟩

lemma congr {f' : ℕ → β} (h : Terminated f cs) (heq : ∀ i ≤ cs.length, f' i = f i) :
    Terminated f' cs where
  unit i hi := by rw [heq i hi.le, h.unit i hi]
  terminator := by rw [heq _ le_rfl, h.terminator]
  nonzero := h.nonzero

lemma tail {c : β} (h : Terminated f (c :: cs)) : Terminated (fun i => f (i + 1)) cs where
  unit i hi := by
    rw [← h.unit (i + 1) (by simpa using hi)]
    rfl
  terminator := h.terminator
  nonzero hmem := h.nonzero (List.mem_cons_of_mem c hmem)

lemma cons {c : β} (hunit : f 0 = c) (hne : c ≠ 0) (h : Terminated (fun i => f (i + 1)) cs) :
    Terminated f (c :: cs) where
  unit i hi := by
    cases i with
    | zero => rw [hunit, List.getElem?_cons_zero]
    | succ i => exact h.unit i (by simpa using hi)
  terminator := h.terminator
  nonzero hmem := (List.mem_cons.mp hmem).elim hne.symm h.nonzero

/-- A run of units in front of a string. -/
lemma append {us : List β} (hunit : ∀ i < us.length, us[i]? = some (f i)) (hnonzero : 0 ∉ us)
    (h : Terminated (fun i => f (us.length + i)) cs) : Terminated f (us ++ cs) where
  unit i hi := by
    rw [List.length_append] at hi
    by_cases hus : i < us.length
    · rw [List.getElem?_append_left hus, hunit i hus]
    · rw [List.getElem?_append_right (by omega), h.unit _ (by omega)]
      congr 2
      omega
  terminator := by
    rw [List.length_append]
    exact h.terminator
  nonzero hmem := (List.mem_append.mp hmem).elim hnonzero h.nonzero

/-- One string starts at each place. -/
theorem unique (h : Terminated f cs) (h' : Terminated f cs') : cs = cs' := by
  have hlength := (h.length_le h').antisymm (h'.length_le h)
  apply List.ext_getElem?
  intro i
  by_cases hi : i < cs.length
  · rw [h.unit i hi, h'.unit i (hlength ▸ hi)]
  · rw [List.getElem?_eq_none (by omega), List.getElem?_eq_none (by omega)]

end Terminated

end Systems

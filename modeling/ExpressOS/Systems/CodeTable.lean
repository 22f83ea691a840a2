import Mathlib

/-!
# Tables of code words

The labels of a switch: distinct numbers for the members of an enumeration.
-/

namespace Systems

structure CodeTable (α : Type) where
  all : List α
  mem_all : ∀ a, a ∈ all
  code : α → ℕ
  code_injective : Function.Injective code

namespace CodeTable

variable {α : Type} (table : CodeTable α)

/-- The label a number selects; `none` is the default label. -/
def decode (w : ℕ) : Option α :=
  table.all.find? (fun a => table.code a = w)

@[simp] lemma decode_code (a : α) : table.decode (table.code a) = some a := by
  have hsome : (table.all.find? (fun b => decide (table.code b = table.code a))).isSome := by
    rw [List.find?_isSome]
    exact ⟨a, table.mem_all a, by simp⟩
  obtain ⟨b, hb⟩ := Option.isSome_iff_exists.mp hsome
  have hcode : table.code b = table.code a := by simpa using List.find?_some hb
  rw [decode, hb, table.code_injective hcode]

lemma code_of_decode {w : ℕ} {a : α} (h : table.decode w = some a) : table.code a = w := by
  simpa using List.find?_some h

end CodeTable

end Systems

import ExpressOS.Systems.Numerals

/-!
# Decimal numbers in a text

What `%d` prints for a number that is not negative, and a reader that takes the text apart again:
fixed words are stripped, and a number ends where the digits end.
-/

namespace Systems

def decimalText (n : ℕ) : List UInt8 :=
  (numeral 10 n).map (fun d => UInt8.ofNat (48 + d))

def isDecimalDigit (b : UInt8) : Bool := 48 ≤ b ∧ b ≤ 57

/-- The number at the front, and what comes after its digits. -/
def takeDecimal (s : List UInt8) : ℕ × List UInt8 :=
  (ofNumeral 10 ((s.takeWhile isDecimalDigit).map (fun b => b.toNat - 48)),
    s.dropWhile isDecimalDigit)

/-- What comes after a fixed text at the front. -/
def stripText (fixed s : List UInt8) : Option (List UInt8) :=
  if fixed <+: s then some (s.drop fixed.length) else none

@[simp] lemma stripText_append (fixed s : List UInt8) : stripText fixed (fixed ++ s) = some s := by
  rw [stripText, if_pos (List.prefix_append fixed s), List.drop_left]

lemma digit_facts : ∀ d < 10, isDecimalDigit (UInt8.ofNat (48 + d)) = true ∧
    (UInt8.ofNat (48 + d)).toNat - 48 = d := by
  decide

lemma isDecimalDigit_of_mem {n : ℕ} {b : UInt8} (h : b ∈ decimalText n) :
    isDecimalDigit b = true := by
  obtain ⟨d, hd, rfl⟩ := List.mem_map.mp h
  exact (digit_facts d (lt_of_mem_numeral (by decide) hd)).1

lemma zero_notMem_decimalText (n : ℕ) : 0 ∉ decimalText n := by
  intro h
  have hdigit := isDecimalDigit_of_mem h
  revert hdigit
  decide

lemma length_decimalText_le {n k : ℕ} (hk : 0 < k) (h : n < 10 ^ k) :
    (decimalText n).length ≤ k := by
  rw [decimalText, List.length_map]
  exact length_numeral_le (by decide) hk h

theorem takeDecimal_append (n : ℕ) {rest : List UInt8}
    (hrest : ∀ b ∈ rest.head?, isDecimalDigit b = false) :
    takeDecimal (decimalText n ++ rest) = (n, rest) := by
  have hall : ∀ b ∈ decimalText n, isDecimalDigit b = true := fun b => isDecimalDigit_of_mem
  have hnone : rest.takeWhile isDecimalDigit = [] ∧ rest.dropWhile isDecimalDigit = rest := by
    cases rest with
    | nil => exact ⟨rfl, rfl⟩
    | cons b rest =>
      have hb := hrest b rfl
      rw [List.takeWhile_cons, List.dropWhile_cons, hb]
      exact ⟨rfl, rfl⟩
  have hvalues : (decimalText n).map (fun b => b.toNat - 48) = numeral 10 n := by
    rw [decimalText, List.map_map]
    refine (List.map_congr_left (fun d hd => ?_)).trans (List.map_id _)
    exact (digit_facts d (lt_of_mem_numeral (by decide) hd)).2
  unfold takeDecimal
  rw [List.takeWhile_append_of_pos hall, List.dropWhile_append_of_pos hall, hnone.1, hnone.2,
    List.append_nil, hvalues, ofNumeral_numeral]

end Systems

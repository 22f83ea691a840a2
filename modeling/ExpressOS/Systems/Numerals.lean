import Mathlib

/-!
# Numerals spelled out

The digits of a number in a base, the most significant first, and the text that names these digits
one after the other with a separator between them. Splitting the text at the separators and reading
the names gives the number back.
-/

namespace Systems

/-- The digits of `n` in base `b`, the most significant first. Zero has one digit. -/
def numeral (b n : ℕ) : List ℕ :=
  if n = 0 then [0] else (b.digits n).reverse

def ofNumeral (b : ℕ) (ds : List ℕ) : ℕ :=
  Nat.ofDigits b ds.reverse

section Numerals

variable {b n : ℕ}

lemma numeral_of_lt (h : n < b) : numeral b n = [n] := by
  unfold numeral
  by_cases hn : n = 0
  · rw [if_pos hn, hn]
  · rw [if_neg hn, Nat.digits_of_lt b n hn h]
    rfl

lemma numeral_of_le (hb : 1 < b) (h : b ≤ n) : numeral b n = numeral b (n / b) ++ [n % b] := by
  have hquot : n / b ≠ 0 := (Nat.div_pos h (by omega)).ne'
  unfold numeral
  rw [if_neg (by omega), if_neg hquot, Nat.digits_def' hb (by omega), List.reverse_cons]

lemma numeral_ne_nil : numeral b n ≠ [] := by
  unfold numeral
  split_ifs with hn
  · exact List.cons_ne_nil 0 []
  · rw [ne_eq, List.reverse_eq_nil_iff]
    exact Nat.digits_ne_nil_iff_ne_zero.mpr hn

lemma lt_of_mem_numeral (hb : 1 < b) {d : ℕ} (h : d ∈ numeral b n) : d < b := by
  unfold numeral at h
  split_ifs at h
  · rw [List.mem_singleton.mp h]
    omega
  · exact Nat.digits_lt_base hb (List.mem_reverse.mp h)

lemma length_numeral_le (hb : 1 < b) {k : ℕ} (hk : 0 < k) (h : n < b ^ k) :
    (numeral b n).length ≤ k := by
  unfold numeral
  split_ifs
  · exact hk
  · rw [List.length_reverse]
    exact (Nat.digits_length_le_iff hb n).mpr h

@[simp] lemma ofNumeral_numeral (b n : ℕ) : ofNumeral b (numeral b n) = n := by
  unfold ofNumeral numeral
  split_ifs with hn
  · rw [hn]
    simp
  · rw [List.reverse_reverse, Nat.ofDigits_digits]

end Numerals

/-- Names for the digits of a base, and a separator that none of them contains. -/
structure DigitNames (α : Type) where
  base : ℕ
  one_lt_base : 1 < base
  sep : α
  name : ℕ → List α
  name_ne_nil : ∀ d < base, name d ≠ []
  sep_notMem : ∀ d < base, sep ∉ name d
  name_injective : ∀ d < base, ∀ d' < base, name d = name d' → d = d'

namespace DigitNames

variable {α : Type} (names : DigitNames α)

/-- The names of the digits `ds`, with separators between them. -/
def text (ds : List ℕ) : List α :=
  [names.sep].intercalate (ds.map names.name)

def spell (n : ℕ) : List α :=
  names.text (numeral names.base n)

lemma text_cons (d : ℕ) {ds : List ℕ} (h : ds ≠ []) :
    names.text (d :: ds) = names.name d ++ names.sep :: names.text ds := by
  unfold text
  rw [List.map_cons, List.intercalate_cons_of_ne_nil (by simpa using h), List.append_assoc]
  rfl

@[simp] lemma text_singleton (d : ℕ) : names.text [d] = names.name d :=
  List.intercalate_singleton

lemma length_text_le {k : ℕ} {ds : List ℕ} (h : ∀ d ∈ ds, (names.name d).length ≤ k) :
    (names.text ds).length ≤ (k + 1) * ds.length - 1 := by
  induction ds with
  | nil => exact Nat.zero_le _
  | cons d ds ih =>
    have hd := h d List.mem_cons_self
    by_cases hds : ds = []
    · subst hds
      rw [text_singleton, List.length_singleton]
      omega
    · have hrest := ih (fun d' hd' => h d' (List.mem_cons_of_mem d hd'))
      have hpos : 0 < ds.length := List.length_pos_of_ne_nil hds
      have hone : k + 1 ≤ (k + 1) * ds.length := Nat.le_mul_of_pos_right _ hpos
      rw [text_cons _ _ hds, List.length_append, List.length_cons, List.length_cons, Nat.mul_succ]
      omega

section Reading

variable {ds : List ℕ}

/-- A text neither begins nor ends with a separator. -/
lemma head?_text_ne_sep (h : ∀ d ∈ ds, d < names.base) :
    (names.text ds).head? ≠ some names.sep := by
  cases ds with
  | nil => exact nofun
  | cons d ds =>
    have hd := h d List.mem_cons_self
    have hhead : (names.text (d :: ds)).head? = (names.name d).head? := by
      by_cases hds : ds = []
      · rw [hds, text_singleton]
      · rw [text_cons _ _ hds, List.head?_append_of_ne_nil _ (names.name_ne_nil d hd)]
    rw [hhead]
    intro hsep
    exact names.sep_notMem d hd (List.mem_of_mem_head? hsep)

lemma getLast?_text_ne_sep (h : ∀ d ∈ ds, d < names.base) :
    (names.text ds).getLast? ≠ some names.sep := by
  induction ds with
  | nil => exact nofun
  | cons d ds ih =>
    by_cases hds : ds = []
    · subst hds
      rw [text_singleton]
      intro hsep
      exact names.sep_notMem d (h d List.mem_cons_self) (List.mem_of_getLast? hsep)
    · have hrest := ih (fun d' hd' => h d' (List.mem_cons_of_mem d hd'))
      have hne : names.text ds ≠ [] := by
        intro hnil
        obtain ⟨d', ds', rfl⟩ := List.exists_cons_of_ne_nil hds
        have hd' := names.name_ne_nil d' (h d' (by simp))
        by_cases hds' : ds' = []
        · rw [hds', text_singleton] at hnil
          exact hd' hnil
        · rw [text_cons _ _ hds'] at hnil
          exact hd' (List.append_eq_nil_iff.mp hnil).1
      rw [text_cons _ _ hds, List.append_cons, List.getLast?_append_of_ne_nil _ hne]
      exact hrest

variable [DecidableEq α]

lemma splitOn_text (h : ∀ d ∈ ds, d < names.base) (hds : ds ≠ []) :
    (names.text ds).splitOn names.sep = ds.map names.name := by
  apply List.splitOn_intercalate
  · intro w hw
    obtain ⟨d, hd, rfl⟩ := List.mem_map.mp hw
    exact names.sep_notMem d (h d hd)
  · simpa using hds

def digitOf (w : List α) : Option ℕ :=
  (List.range names.base).find? (fun d => names.name d = w)

lemma digitOf_name {d : ℕ} (hd : d < names.base) : names.digitOf (names.name d) = some d := by
  have hsome : (names.digitOf (names.name d)).isSome := by
    unfold digitOf
    rw [List.find?_isSome]
    exact ⟨d, List.mem_range.mpr hd, by simp⟩
  obtain ⟨d', hd'⟩ := Option.isSome_iff_exists.mp hsome
  have hname : names.name d' = names.name d := by simpa using List.find?_some hd'
  have hlt : d' < names.base := List.mem_range.mp (List.mem_of_find?_eq_some hd')
  rw [hd', names.name_injective d' hlt d hd hname]

/-- The number that a text spells. -/
def read (cs : List α) : Option ℕ :=
  ((cs.splitOn names.sep).mapM names.digitOf).map (ofNumeral names.base)

lemma mapM_digitOf (h : ∀ d ∈ ds, d < names.base) :
    (ds.map names.name).mapM names.digitOf = some ds := by
  induction ds with
  | nil => rfl
  | cons d ds ih =>
    have hrest := ih (fun d' hd' => h d' (List.mem_cons_of_mem d hd'))
    rw [List.map_cons, List.mapM_cons, names.digitOf_name (h d List.mem_cons_self), hrest]
    rfl

@[simp] theorem read_spell (n : ℕ) : names.read (names.spell n) = some n := by
  have hlt : ∀ d ∈ numeral names.base n, d < names.base :=
    fun d hd => lt_of_mem_numeral names.one_lt_base hd
  unfold read spell
  rw [names.splitOn_text hlt numeral_ne_nil, names.mapM_digitOf hlt, Option.map_some,
    ofNumeral_numeral]

theorem spell_injective : Function.Injective names.spell := by
  intro n n' h
  have hread := congrArg names.read h
  rw [read_spell, read_spell] at hread
  exact Option.some.inj hread

end Reading

end DigitNames

end Systems

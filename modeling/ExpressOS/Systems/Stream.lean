import Mathlib

/-!
# Streams of self-delimiting items

A `StreamCode` writes items as byte strings such that the first item of a stream can be told from
its front. The whole items at the front of a stream, and what follows them, are then determined.
-/

namespace Systems

/-- Items written over an alphabet, and the split of a stream into its first item and the rest. -/
structure StreamCode (α β : Type) where
  encode : β → List α
  split : List α → Option (β × List α)
  split_encode : ∀ b rest, split (encode b ++ rest) = some (b, rest)
  encode_of_split : ∀ {as b rest}, split as = some (b, rest) → as = encode b ++ rest
  encode_ne_nil : ∀ b, encode b ≠ []

namespace StreamCode

variable {α β : Type} (code : StreamCode α β)

def encodeAll (bs : List β) : List α :=
  bs.flatMap code.encode

@[simp] lemma encodeAll_nil : code.encodeAll [] = [] := rfl

@[simp] lemma encodeAll_cons (b : β) (bs : List β) :
    code.encodeAll (b :: bs) = code.encode b ++ code.encodeAll bs := by
  simp [encodeAll]

lemma eq_nil_of_encodeAll {bs : List β} (h : code.encodeAll bs = []) : bs = [] := by
  cases bs with
  | nil => rfl
  | cons b bs =>
    rw [encodeAll_cons] at h
    exact absurd (List.append_eq_nil_iff.mp h).1 (code.encode_ne_nil b)

lemma encode_length_pos (b : β) : 0 < (code.encode b).length :=
  List.length_pos_of_ne_nil (code.encode_ne_nil b)

@[simp] lemma split_nil : code.split [] = none := by
  rcases h : code.split [] with _ | ⟨b, rest⟩
  · rfl
  · have hnil := code.encode_of_split h
    exact absurd (List.append_eq_nil_iff.mp hnil.symm).1 (code.encode_ne_nil b)

/-- The whole items at the front of a stream, and what follows them. -/
def decodeAll (as : List α) : List β × List α :=
  match _h : code.split as with
  | none => ([], as)
  | some (b, rest) =>
    let (bs, tail) := decodeAll rest
    (b :: bs, tail)
termination_by as.length
decreasing_by
  have hpos := code.encode_length_pos b
  rw [code.encode_of_split _h, List.length_append]
  omega

lemma decodeAll_of_none {as : List α} (h : code.split as = none) :
    code.decodeAll as = ([], as) := by
  rw [decodeAll]
  split
  · rfl
  · rename_i h'
    rw [h] at h'
    cases h'

lemma decodeAll_of_some {as rest : List α} {b : β} (h : code.split as = some (b, rest)) :
    code.decodeAll as = (b :: (code.decodeAll rest).1, (code.decodeAll rest).2) := by
  rw [decodeAll]
  split
  · rename_i h'
    rw [h] at h'
    cases h'
  · rename_i h'
    rw [h] at h'
    cases h'
    rfl

lemma encodeAll_decodeAll (as : List α) :
    code.encodeAll (code.decodeAll as).1 ++ (code.decodeAll as).2 = as := by
  fun_induction decodeAll code as with
  | case1 as h => simp
  | case2 as b rest h bs tail ht ih =>
    rw [ht] at ih
    rw [code.encode_of_split h, encodeAll_cons, List.append_assoc, ih]

lemma split_decodeAll (as : List α) : code.split (code.decodeAll as).2 = none := by
  fun_induction decodeAll code as with
  | case1 as h => exact h
  | case2 as b rest h bs tail ht ih =>
    rw [ht] at ih
    exact ih

/-- Decoding is unambiguous: items in front of something that starts with no item decode to
exactly these. -/
lemma decodeAll_append {tail : List α} (ht : code.split tail = none) (bs : List β) :
    code.decodeAll (code.encodeAll bs ++ tail) = (bs, tail) := by
  induction bs with
  | nil => exact code.decodeAll_of_none ht
  | cons b bs ih =>
    rw [encodeAll_cons, List.append_assoc,
      code.decodeAll_of_some (code.split_encode b (code.encodeAll bs ++ tail)), ih]

lemma prefix_decodeAll {as tail : List α} {bs : List β} (h : as = code.encodeAll bs ++ tail) :
    bs <+: (code.decodeAll as).1 := by
  induction bs generalizing as with
  | nil => exact List.nil_prefix
  | cons b bs ih =>
    rw [encodeAll_cons, List.append_assoc] at h
    rw [h, code.decodeAll_of_some (code.split_encode b _)]
    exact List.cons_prefix_cons.mpr ⟨rfl, ih rfl⟩

lemma encodeAll_append (bs bs' : List β) :
    code.encodeAll (bs ++ bs') = code.encodeAll bs ++ code.encodeAll bs' :=
  List.flatMap_append

section Places

variable {pre pre' post post' : List β} {b b' : β}

/-- An item begins before another one or behind it. -/
lemma begins_before_or_behind (h : pre ++ b :: post = pre' ++ b' :: post') :
    (code.encodeAll pre).length ≤ (code.encodeAll pre').length ∨
      (code.encodeAll pre').length + (code.encode b').length ≤ (code.encodeAll pre).length := by
  obtain ⟨cs, rfl, -⟩ | ⟨cs, rfl, hcs⟩ := List.append_eq_append_iff.mp h
  · rw [encodeAll_append, List.length_append]
    exact .inl (Nat.le_add_right _ _)
  · cases cs with
    | nil =>
      rw [List.append_nil]
      exact .inl le_rfl
    | cons c cs =>
      obtain ⟨rfl, -⟩ := List.cons.inj hcs
      rw [encodeAll_append, encodeAll_cons, List.length_append, List.length_append]
      exact .inr (by omega)

/-- One item begins at each place. -/
lemma eq_of_begins (h : pre ++ b :: post = pre' ++ b' :: post')
    (hlength : (code.encodeAll pre).length = (code.encodeAll pre').length) :
    pre = pre' ∧ b = b' := by
  have hsame : ∀ {pre pre' post post' : List β} {b b' : β},
      pre ++ b :: post = pre' ++ b' :: post' →
      (code.encodeAll pre).length = (code.encodeAll pre').length → pre.length ≤ pre'.length := by
    intro pre pre' post post' b b' h hlength
    by_contra hlt
    obtain ⟨cs, rfl, -⟩ | ⟨cs, rfl, -⟩ := List.append_eq_append_iff.mp h
    · rw [List.length_append] at hlt
      omega
    · rw [encodeAll_append, List.length_append] at hlength
      have hnil : code.encodeAll cs = [] := List.length_eq_zero_iff.mp (by omega)
      rw [code.eq_nil_of_encodeAll hnil, List.append_nil] at hlt
      omega
  have hle := hsame h hlength
  have hge := hsame h.symm hlength.symm
  obtain ⟨hpre, hrest⟩ := List.append_inj h (by omega)
  exact ⟨hpre, (List.cons.inj hrest).1⟩

end Places

end StreamCode

end Systems

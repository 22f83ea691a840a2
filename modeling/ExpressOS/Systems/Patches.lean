import ExpressOS.Systems.Memory

/-!
# Adding a value to many words

One value is added to each word of a list, in place and in the order of the list. As long as two
listed words are the same or do not meet, this is a relocation: every word gets the value as often
as it is listed, and the order plays no role.
-/

namespace Systems

def WordsApart (a b : ℕ) : Prop :=
  a + 4 ≤ b ∨ b + 4 ≤ a

instance (a b : ℕ) : Decidable (WordsApart a b) :=
  inferInstanceAs (Decidable (_ ∨ _))

lemma WordsApart.symm {a b : ℕ} (h : WordsApart a b) : WordsApart b a :=
  Or.symm h

def EqualOrApart (as : List ℕ) : Prop :=
  ∀ a ∈ as, ∀ b ∈ as, a = b ∨ WordsApart a b

instance (as : List ℕ) : Decidable (EqualOrApart as) :=
  inferInstanceAs (Decidable (∀ a ∈ as, ∀ b ∈ as, _))

namespace Memory

variable {m m' : Memory} {a b v w x : ℕ} {as bs : List ℕ}

def addWord (m : Memory) (v a : ℕ) : Memory :=
  m.setWord a (m.word a + v)

def addWords (m : Memory) (v : ℕ) (as : List ℕ) : Memory :=
  as.foldl (fun m a => m.addWord v a) m

lemma word_lt (m : Memory) (a : ℕ) : m.word a < 2 ^ 32 :=
  leNat_lt_word (by simp)

@[simp] lemma word_setWord_self (m : Memory) (a v : ℕ) : (m.setWord a v).word a = v % 2 ^ 32 := by
  rw [word, read_setWord_self, leNat_leBytes]
  norm_num

lemma setWord_comm (h : WordsApart a b) :
    (m.setWord a v).setWord b w = (m.setWord b w).setWord a v := by
  funext x
  by_cases ha : a ≤ x ∧ x < a + 4
  · rw [setWord_of_disjoint (by unfold WordsApart at h; omega)]
    unfold setWord write
    simp [ha]
  · rw [setWord_of_disjoint (a := a) (m := m.setWord b w) (by omega)]
    by_cases hb : b ≤ x ∧ x < b + 4
    · unfold setWord write
      simp [hb]
    · rw [setWord_of_disjoint (by omega), setWord_of_disjoint (by omega),
        setWord_of_disjoint (by omega)]

lemma addWord_comm (h : a = b ∨ WordsApart a b) :
    (m.addWord v a).addWord v b = (m.addWord v b).addWord v a := by
  rcases h with rfl | h
  · rfl
  · unfold addWord
    rw [word_setWord_of_disjoint h.symm, word_setWord_of_disjoint h, setWord_comm h]

@[simp] lemma addWords_nil (m : Memory) (v : ℕ) : m.addWords v [] = m := rfl

@[simp] lemma addWords_cons (m : Memory) (v a : ℕ) (as : List ℕ) :
    m.addWords v (a :: as) = (m.addWord v a).addWords v as := rfl

lemma addWords_append (m : Memory) (v : ℕ) (as bs : List ℕ) :
    m.addWords v (as ++ bs) = (m.addWords v as).addWords v bs :=
  List.foldl_append

lemma addWords_of_apart (h : ∀ a ∈ as, x < a ∨ a + 4 ≤ x) : m.addWords v as x = m x := by
  induction as generalizing m with
  | nil => rfl
  | cons a as ih =>
    obtain ⟨hhead, htail⟩ := List.forall_mem_cons.mp h
    rw [addWords_cons, ih htail, addWord, setWord_of_disjoint hhead]

/-- A word has the value added as often as it is listed. -/
theorem word_addWords (h : ∀ b ∈ as, a = b ∨ WordsApart a b) :
    (m.addWords v as).word a = (m.word a + as.count a * v) % 2 ^ 32 := by
  induction as generalizing m with
  | nil =>
    rw [addWords_nil, List.count_nil, Nat.zero_mul, Nat.add_zero]
    exact (Nat.mod_eq_of_lt (word_lt m a)).symm
  | cons b as ih =>
    obtain ⟨hhead, htail⟩ := List.forall_mem_cons.mp h
    rw [addWords_cons, ih htail, addWord]
    by_cases hab : b = a
    · subst hab
      rw [word_setWord_self, List.count_cons_self, Nat.mod_add_mod, Nat.add_mul, Nat.one_mul,
        Nat.add_assoc, Nat.add_comm v]
    · have hapart := hhead.resolve_left (Ne.symm hab)
      rw [word_setWord_of_disjoint hapart, List.count_cons_of_ne hab]

lemma word_addWords_of_apart (h : ∀ b ∈ as, WordsApart a b) :
    (m.addWords v as).word a = m.word a := by
  have hno : a ∉ as := by
    intro ha
    have hself := h a ha
    unfold WordsApart at hself
    omega
  rw [word_addWords (fun b hb => .inr (h b hb)), List.count_eq_zero_of_not_mem hno, Nat.zero_mul,
    Nat.add_zero]
  exact Nat.mod_eq_of_lt (word_lt m a)

/-- The order of the list plays no role. -/
theorem addWords_perm (hperm : as.Perm bs) (h : EqualOrApart as) :
    m.addWords v as = m.addWords v bs := by
  apply hperm.foldl_eq'
  intro a ha b hb m
  exact addWord_comm (h a ha b hb)

/-- Memories that agree wherever `T` does not hold still do so afterwards, if no listed word meets
`T`. -/
lemma addWords_congr {T : ℕ → Prop} (h : ∀ x, ¬ T x → m x = m' x)
    (hapart : ∀ a ∈ as, ∀ x, a ≤ x → x < a + 4 → ¬ T x) (hx : ¬ T x) :
    m.addWords v as x = m'.addWords v as x := by
  induction as generalizing m m' with
  | nil => exact h x hx
  | cons a as ih =>
    obtain ⟨hhead, htail⟩ := List.forall_mem_cons.mp hapart
    rw [addWords_cons, addWords_cons]
    refine ih ?_ htail
    intro y hy
    have hword : m.word a = m'.word a := by
      unfold word
      rw [read_congr (fun z hz hz' => h z (hhead z hz hz'))]
    unfold addWord
    rw [hword]
    exact setWord_congr (fun _ => h y hy)

end Memory

end Systems

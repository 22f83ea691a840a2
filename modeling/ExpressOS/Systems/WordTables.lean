import ExpressOS.Systems.WideStrings

/-!
# Tables of words in memory

`Memory.words` is the list of the four-byte words of a table. What a table holds depends on its
own bytes only, and a table is grown by a word behind it.
-/

namespace Systems.Memory

/-- The `n` words of the table at `p`. -/
def words (m : Memory) (p : ℕ) : ℕ → List ℕ
  | 0 => []
  | n + 1 => m.word p :: words m (p + 4) n

@[simp] lemma length_words (m : Memory) (p n : ℕ) : (m.words p n).length = n := by
  induction n generalizing p with
  | zero => rfl
  | succ n ih => simp [words, ih]

lemma words_add (m : Memory) (p j k : ℕ) :
    m.words p (j + k) = m.words p j ++ m.words (p + 4 * j) k := by
  induction j generalizing p with
  | zero => simp [words]
  | succ j ih =>
    rw [Nat.add_right_comm, words, ih, words, List.cons_append]
    congr 3
    omega

lemma words_one (m : Memory) (p : ℕ) : m.words p 1 = [m.word p] := rfl

/-- Equal bytes make equal tables. -/
lemma words_copy {m m' : Memory} {p p' n : ℕ} (h : m'.read p' (4 * n) = m.read p (4 * n)) :
    m'.words p' n = m.words p n := by
  induction n generalizing p p' with
  | zero => rfl
  | succ n ih =>
    have hhead : m'.word p' = m.word p := word_part (k := 0) h (by omega)
    have htail : m'.read (p' + 4) (4 * n) = m.read (p + 4) (4 * n) := by
      apply read_part h
      omega
    rw [words, words, hhead, ih htail]

lemma getElem?_words (m : Memory) (p : ℕ) {n i : ℕ} (hi : i < n) :
    (m.words p n)[i]? = some (m.word (p + 4 * i)) := by
  induction n generalizing p i with
  | zero => omega
  | succ n ih =>
    cases i with
    | zero => simp [words]
    | succ i =>
      rw [words, List.getElem?_cons_succ, ih (p + 4) (by omega)]
      congr 2
      omega

/-- A word is in the table where one of its places holds it. -/
lemma mem_words_iff {m : Memory} {p n w : ℕ} :
    w ∈ m.words p n ↔ ∃ i < n, m.word (p + 4 * i) = w := by
  constructor
  · intro hw
    obtain ⟨i, hi⟩ := List.mem_iff_getElem?.mp hw
    have hlt : i < n := by
      by_contra hge
      rw [List.getElem?_eq_none (by simpa using hge)] at hi
      cases hi
    rw [getElem?_words m p hlt] at hi
    exact ⟨i, hlt, Option.some.inj hi⟩
  · rintro ⟨i, hi, rfl⟩
    exact List.mem_of_getElem? (getElem?_words m p hi)

/-- Runs of equal bytes, wherever they are. -/
lemma read_eq_read {m m' : Memory} {a a' n : ℕ} (h : ∀ k < n, m' (a' + k) = m (a + k)) :
    m'.read a' n = m.read a n := by
  apply List.ext_getElem?
  intro k
  by_cases hk : k < n
  · rw [getElem?_read m' a' n k hk, getElem?_read m a n k hk, h k hk]
  · rw [List.getElem?_eq_none (by simpa using hk), List.getElem?_eq_none (by simpa using hk)]

lemma word_setWord_of_lt {m : Memory} {p v : ℕ} (hv : v < 2 ^ 32) :
    (m.setWord p v).word p = v := by
  rw [word, read_setWord_self, leNat_leBytes_word hv]

end Systems.Memory

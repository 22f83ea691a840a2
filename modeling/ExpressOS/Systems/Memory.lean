import Mathlib

/-!
# Byte memory and little-endian words

A memory is a function from addresses to bytes. `Memory.read` and `Memory.write` move byte
strings, `Memory.word` and `Memory.setWord` move four-byte little-endian words, and the frame
lemmas say which reads a write leaves alone.
-/

namespace Systems

/-- The number spelled by bytes in little-endian order. -/
def leNat : List UInt8 → ℕ
  | [] => 0
  | b :: bs => b.toNat + 256 * leNat bs

/-- The `n` low bytes of `v` in little-endian order. -/
def leBytes : ℕ → ℕ → List UInt8
  | 0, _ => []
  | n + 1, v => UInt8.ofNat v :: leBytes n (v / 256)

@[simp] lemma length_leBytes (n v : ℕ) : (leBytes n v).length = n := by
  induction n generalizing v with
  | zero => rfl
  | succ n ih => simp [leBytes, ih]

lemma leNat_lt (bs : List UInt8) : leNat bs < 256 ^ bs.length := by
  induction bs with
  | nil => simp [leNat]
  | cons b bs ih =>
    have hb : b.toNat < 256 := b.toNat_lt
    simp only [leNat, List.length_cons, pow_succ]
    omega

lemma leNat_lt_word {bs : List UInt8} (h : bs.length ≤ 4) : leNat bs < 2 ^ 32 :=
  calc leNat bs < 256 ^ bs.length := leNat_lt bs
    _ ≤ 256 ^ 4 := Nat.pow_le_pow_right (by omega) h
    _ = 2 ^ 32 := by norm_num

@[simp] lemma leNat_leBytes (n v : ℕ) : leNat (leBytes n v) = v % 256 ^ n := by
  induction n generalizing v with
  | zero => simp [leBytes, leNat, Nat.mod_one]
  | succ n ih =>
    have hlow : (UInt8.ofNat v).toNat = v % 256 := by simp
    rw [leBytes, leNat, ih, hlow, pow_succ, Nat.mul_comm (256 ^ n) 256, Nat.mod_mul]

lemma leNat_leBytes_word {v : ℕ} (h : v < 2 ^ 32) : leNat (leBytes 4 v) = v := by
  rw [leNat_leBytes]
  exact Nat.mod_eq_of_lt h

lemma leBytes_leNat (bs : List UInt8) : leBytes bs.length (leNat bs) = bs := by
  induction bs with
  | nil => rfl
  | cons b bs ih =>
    have hb : b.toNat < 256 := b.toNat_lt
    have hdiv : (b.toNat + 256 * leNat bs) / 256 = leNat bs := by omega
    have hlow : UInt8.ofNat (b.toNat + 256 * leNat bs) = b := by
      apply UInt8.toNat_inj.mp
      simp only [UInt8.toNat_ofNat']
      omega
    simp only [List.length_cons, leNat, leBytes, hdiv, ih, hlow]

abbrev Memory := ℕ → UInt8

namespace Memory

def read (m : Memory) (a : ℕ) : ℕ → List UInt8
  | 0 => []
  | n + 1 => m a :: read m (a + 1) n

/-- The memory with the bytes `bs` stored from address `a`. -/
def write (m : Memory) (a : ℕ) (bs : List UInt8) : Memory :=
  fun x => if a ≤ x ∧ x < a + bs.length then bs.getD (x - a) 0 else m x

/-- The four-byte little-endian word at `a`. -/
def word (m : Memory) (a : ℕ) : ℕ :=
  leNat (m.read a 4)

/-- The memory with the word `v` stored at `a`. -/
def setWord (m : Memory) (a v : ℕ) : Memory :=
  m.write a (leBytes 4 v)

@[simp] lemma length_read (m : Memory) (a n : ℕ) : (m.read a n).length = n := by
  induction n generalizing a with
  | zero => rfl
  | succ n ih => simp [read, ih]

@[simp] lemma read_zero (m : Memory) (a : ℕ) : m.read a 0 = [] := rfl

lemma read_add (m : Memory) (a n k : ℕ) : m.read a (n + k) = m.read a n ++ m.read (a + n) k := by
  induction n generalizing a with
  | zero => simp
  | succ n ih =>
    have hshift : n + 1 + k = (n + k) + 1 := by omega
    rw [hshift, read, ih, read, List.cons_append, show a + 1 + n = a + (n + 1) by omega]

lemma read_congr {m m' : Memory} {a n : ℕ} (h : ∀ x, a ≤ x → x < a + n → m x = m' x) :
    m.read a n = m'.read a n := by
  induction n generalizing a with
  | zero => rfl
  | succ n ih =>
    have hhead : m a = m' a := h a (by omega) (by omega)
    have htail : m.read (a + 1) n = m'.read (a + 1) n :=
      ih (fun x hx hx' => h x (by omega) (by omega))
    rw [read, read, hhead, htail]

lemma getElem?_read (m : Memory) (a n i : ℕ) (h : i < n) : (m.read a n)[i]? = some (m (a + i)) := by
  induction n generalizing a i with
  | zero => omega
  | succ n ih =>
    cases i with
    | zero => simp [read]
    | succ i =>
      simp only [read, List.getElem?_cons_succ]
      rw [ih (a + 1) i (by omega), show a + 1 + i = a + (i + 1) by omega]

lemma read_drop (m : Memory) {a n k : ℕ} (h : k ≤ n) :
    (m.read a n).drop k = m.read (a + k) (n - k) := by
  obtain ⟨j, rfl⟩ := Nat.exists_eq_add_of_le h
  rw [read_add, List.drop_left' (by simp), show k + j - k = j by omega]

lemma read_take (m : Memory) {a n k : ℕ} (h : k ≤ n) : (m.read a n).take k = m.read a k := by
  obtain ⟨j, rfl⟩ := Nat.exists_eq_add_of_le h
  rw [read_add, List.take_left' (by simp)]

lemma read_of_append {m : Memory} {a n : ℕ} {bs cs : List UInt8} (h : m.read a n = bs ++ cs) :
    m.read a bs.length = bs ∧ m.read (a + bs.length) cs.length = cs := by
  have hn : n = bs.length + cs.length := by
    have hlen := congrArg List.length h
    simpa using hlen
  subst hn
  rw [read_add] at h
  exact List.append_inj h (by simp)

lemma write_of_lt {m : Memory} {a x : ℕ} {bs : List UInt8} (h : x < a) : m.write a bs x = m x := by
  rw [write, if_neg (by omega)]

lemma write_of_ge {m : Memory} {a x : ℕ} {bs : List UInt8} (h : a + bs.length ≤ x) :
    m.write a bs x = m x := by
  rw [write, if_neg (by omega)]

lemma read_write_of_le {m : Memory} {a b n : ℕ} {bs : List UInt8} (h : b + n ≤ a) :
    (m.write a bs).read b n = m.read b n :=
  read_congr (fun _ _ hx => write_of_lt (by omega))

lemma read_write_of_ge {m : Memory} {a b n : ℕ} {bs : List UInt8} (h : a + bs.length ≤ b) :
    (m.write a bs).read b n = m.read b n :=
  read_congr (fun _ hx _ => write_of_ge (by omega))

@[simp] lemma read_write_self (m : Memory) (a : ℕ) (bs : List UInt8) :
    (m.write a bs).read a bs.length = bs := by
  apply List.ext_getElem?
  intro i
  by_cases hi : i < bs.length
  · rw [getElem?_read _ _ _ _ hi, write, if_pos (by omega), show a + i - a = i by omega]
    simp [List.getD, hi]
  · rw [List.getElem?_eq_none (by simpa using hi), List.getElem?_eq_none (by simpa using hi)]

lemma getElem?_write (m : Memory) (a : ℕ) {bs : List UInt8} {i : ℕ} (h : i < bs.length) :
    bs[i]? = some (m.write a bs (a + i)) := by
  rw [← getElem?_read _ a bs.length i h, read_write_self]

lemma word_eq_of_read {m : Memory} {a n i : ℕ} {bs : List UInt8} (h : m.read a n = bs)
    (hi : i + 4 ≤ n) : m.word (a + i) = leNat ((bs.drop i).take 4) := by
  rw [← h, read_drop _ (by omega), read_take _ (by omega), word]

lemma read_setWord_of_disjoint {m : Memory} {a b n v : ℕ} (h : b + n ≤ a ∨ a + 4 ≤ b) :
    (m.setWord a v).read b n = m.read b n := by
  unfold setWord
  rcases h with h | h
  · exact read_write_of_le h
  · exact read_write_of_ge (by simpa using h)

@[simp] lemma read_setWord_self (m : Memory) (a v : ℕ) :
    (m.setWord a v).read a 4 = leBytes 4 v := by
  simpa [setWord] using read_write_self m a (leBytes 4 v)

lemma setWord_of_disjoint {m : Memory} {a v x : ℕ} (h : x < a ∨ a + 4 ≤ x) :
    m.setWord a v x = m x := by
  rcases h with h | h
  · exact write_of_lt h
  · exact write_of_ge (by simpa using h)

lemma setWord_congr {m m' : Memory} {a v x : ℕ} (h : ¬ (a ≤ x ∧ x < a + 4) → m x = m' x) :
    m.setWord a v x = m'.setWord a v x := by
  by_cases hx : a ≤ x ∧ x < a + 4
  · unfold setWord write
    simp [hx]
  · rw [setWord_of_disjoint (by omega), setWord_of_disjoint (by omega)]
    exact h hx

lemma word_setWord_of_disjoint {m : Memory} {a b v : ℕ} (h : b + 4 ≤ a ∨ a + 4 ≤ b) :
    (m.setWord a v).word b = m.word b := by
  unfold word
  rw [read_setWord_of_disjoint h]

end Memory

end Systems

import ExpressOS.Systems.Memory
import ExpressOS.Systems.Strings

/-!
# Strings of 16-bit units in memory

Where a string starts, its units are the little-endian half words from there on. What is copied
with its terminator is the same string at the new place.
-/

namespace Systems

/-- `while (f (len)) len++`, for at most `fuel` tests. -/
def scanLength (f : ℕ → ℕ) : ℕ → ℕ → Option ℕ
  | 0, _ => none
  | fuel + 1, len => if f len = 0 then some len else scanLength f fuel (len + 1)

lemma Terminated.scanLength_from {f : ℕ → ℕ} {cs : List ℕ} (h : Terminated f cs) {fuel len : ℕ}
    (hlen : len ≤ cs.length) (hfuel : cs.length < len + fuel) :
    scanLength f fuel len = some cs.length := by
  induction fuel generalizing len with
  | zero => omega
  | succ fuel ih =>
    rw [scanLength]
    by_cases hend : len = cs.length
    · rw [hend, if_pos h.terminator]
    · rw [if_neg (h.unit_ne_zero (by omega))]
      exact ih (by omega) (by omega)

lemma Terminated.scanLength {f : ℕ → ℕ} {cs : List ℕ} (h : Terminated f cs) {fuel : ℕ}
    (hfuel : cs.length < fuel) : scanLength f fuel 0 = some cs.length :=
  h.scanLength_from (Nat.zero_le _) (by omega)

namespace Memory

/-- The units of the string at `p`. -/
def units (m : Memory) (p i : ℕ) : ℕ :=
  leNat (m.read (p + 2 * i) 2)

/-- Two equal runs of bytes have equal parts. -/
lemma read_part {m m' : Memory} {a a' n : ℕ} (h : m.read a n = m'.read a' n) {k l : ℕ}
    (hkl : k + l ≤ n) : m.read (a + k) l = m'.read (a' + k) l := by
  obtain ⟨j, rfl⟩ := Nat.exists_eq_add_of_le hkl
  have hpart := congrArg (fun bs => (bs.drop k).take l) h
  rwa [read_drop _ (by omega), read_drop _ (by omega), read_take _ (by omega),
    read_take _ (by omega)] at hpart

lemma word_part {m m' : Memory} {a a' n : ℕ} (h : m.read a n = m'.read a' n) {k : ℕ}
    (hk : k + 4 ≤ n) : m.word (a + k) = m'.word (a' + k) :=
  congrArg leNat (read_part h hk)

/-- Bytes that are all the same make units that are all the same. -/
lemma units_of_replicate {m : Memory} {p n i : ℕ} {x : UInt8}
    (h : m.read p n = List.replicate n x) (hi : 2 * i + 2 ≤ n) :
    m.units p i = leNat [x, x] := by
  have hread : m.read (p + 2 * i) 2 = [x, x] :=
    calc m.read (p + 2 * i) 2 = ((m.read p n).drop (2 * i)).take 2 := by
          rw [read_drop _ (by omega), read_take _ (by omega)]
      _ = List.replicate (min 2 (n - 2 * i)) x := by
          rw [h, List.drop_replicate, List.take_replicate]
      _ = [x, x] := by
          rw [Nat.min_eq_left (by omega)]
          rfl
  rw [units, hread]

lemma units_eq {m m' : Memory} {p p' n : ℕ} (h : m.read p (2 * n) = m'.read p' (2 * n)) {i : ℕ}
    (hi : i < n) : m.units p i = m'.units p' i :=
  congrArg leNat (read_part h (by omega))

/-- A copy of a string and its terminator. -/
lemma terminated_copy {m m' : Memory} {p p' : ℕ} {cs : List ℕ}
    (h : Terminated (m.units p) cs)
    (hcopy : m'.read p' (2 * (cs.length + 1)) = m.read p (2 * (cs.length + 1))) :
    Terminated (m'.units p') cs where
  unit i hi := by rw [units_eq hcopy (by omega), h.unit i hi]
  terminator := by rw [units_eq hcopy (by omega), h.terminator]
  nonzero := h.nonzero

end Memory

end Systems

import ExpressOS.Systems.Patches
import ExpressOS.Venus.Confinement

/-!
# Patching as relocation

`patch_payload_ptr` reads its table from the payload that it patches. When the patched words do not
meet the table, what it does is the relocation of `Systems/Patches.lean` for the table as it was at
the start.
-/

namespace ExpressOS
open Systems

/-- The words that the first `n` entries of a patch table name. -/
def patchWords (mem : Memory) (buf table n : ℕ) : List ℕ :=
  (List.range n).map (fun i => (buf + mem.word (table + 4 * i)) % 2 ^ 32)

/-- The table and the words it names lie in the `size` bytes of the payload, no word meets the
table, and any two words are the same or do not meet. -/
structure Relocatable (mem : Memory) (buf size table n : ℕ) : Prop where
  top : buf + size ≤ 2 ^ 32
  entries_inside : ∀ i < n, buf ≤ table + 4 * i ∧ table + 4 * i + 4 ≤ buf + size
  words_inside : ∀ a ∈ patchWords mem buf table n, buf ≤ a ∧ a + 4 ≤ buf + size
  off_table : ∀ a ∈ patchWords mem buf table n, ∀ i < n, WordsApart a (table + 4 * i)
  equal_or_apart : EqualOrApart (patchWords mem buf table n)

def InTable (table n x : ℕ) : Prop :=
  table ≤ x ∧ x < table + 4 * n

def patchEntries (mem : Memory) (table n : ℕ) : List ℕ :=
  (List.range n).map (fun i => mem.word (table + 4 * i))

/-- Each word has the address of the payload added as often as the table names it, all else is as
before, and the same table in another order has the same effect. -/
structure Relocated (mem : Memory) (buf entries offset : ℕ) : Prop where
  word : let words := patchWords mem buf ((buf + offset) % 2 ^ 32) (toSigned entries).toNat
    ∀ a ∈ words, (patchPayloadPtr mem buf entries offset).mem.word a =
      (mem.word a + words.count a * buf) % 2 ^ 32
  others : ∀ x, (∀ a ∈ patchWords mem buf ((buf + offset) % 2 ^ 32) (toSigned entries).toNat,
      x < a ∨ a + 4 ≤ x) → (patchPayloadPtr mem buf entries offset).mem x = mem x
  table : ∀ x, InTable ((buf + offset) % 2 ^ 32) (toSigned entries).toNat x →
    (patchPayloadPtr mem buf entries offset).mem x = mem x
  permuted : ∀ mem' : Memory,
    (∀ x, ¬ InTable ((buf + offset) % 2 ^ 32) (toSigned entries).toNat x → mem' x = mem x) →
      (patchEntries mem' ((buf + offset) % 2 ^ 32) (toSigned entries).toNat).Perm
        (patchEntries mem ((buf + offset) % 2 ^ 32) (toSigned entries).toNat) →
      ∀ x, ¬ InTable ((buf + offset) % 2 ^ 32) (toSigned entries).toNat x →
        (patchPayloadPtr mem' buf entries offset).mem x =
          (patchPayloadPtr mem buf entries offset).mem x

section Relocation

variable {mem mem' : Memory} {buf size table n : ℕ}

lemma patchWords_succ (mem : Memory) (buf table n : ℕ) :
    patchWords mem buf table (n + 1) =
      patchWords mem buf table n ++ [(buf + mem.word (table + 4 * n)) % 2 ^ 32] := by
  simp [patchWords, List.range_succ]

/-- The loop is a relocation: an entry is still as it was when its turn comes. -/
lemma patchRun_eq_addWords (hentries : ∀ i < n, table + 4 * i < 2 ^ 32)
    (hoff : ∀ a ∈ patchWords mem buf table n, ∀ i < n, WordsApart a (table + 4 * i)) :
    (patchRun mem buf table n).mem = mem.addWords buf (patchWords mem buf table n) := by
  induction n with
  | zero => rfl
  | succ n ih =>
    have hsub : ∀ a ∈ patchWords mem buf table n, a ∈ patchWords mem buf table (n + 1) := by
      intro a ha
      rw [patchWords_succ]
      exact List.mem_append_left _ ha
    have hearlier := ih (fun i hi => hentries i (by omega))
      (fun a ha i hi => hoff a (hsub a ha) i (by omega))
    have hentry : (patchRun mem buf table n).mem.word (table + 4 * n) =
        mem.word (table + 4 * n) := by
      rw [hearlier]
      apply Memory.word_addWords_of_apart
      intro a ha
      exact (hoff a (hsub a ha) n (by omega)).symm
    rw [patchRun_succ, patchTurn]
    dsimp only
    rw [Nat.mod_eq_of_lt (hentries n (by omega)), hentry, hearlier, patchWords_succ,
      Memory.addWords_append]
    rfl

lemma patchWords_perm (hperm : (patchEntries mem' table n).Perm (patchEntries mem table n)) :
    (patchWords mem' buf table n).Perm (patchWords mem buf table n) := by
  have hmap := hperm.map (fun e => (buf + e) % 2 ^ 32)
  rw [patchEntries, patchEntries, List.map_map, List.map_map] at hmap
  exact hmap

namespace Relocatable

lemma entries_lt (h : Relocatable mem buf size table n) : ∀ i < n, table + 4 * i < 2 ^ 32 := by
  intro i hi
  have hinside := (h.entries_inside i hi).2
  have htop := h.top
  omega

lemma run_eq (h : Relocatable mem buf size table n) :
    (patchRun mem buf table n).mem = mem.addWords buf (patchWords mem buf table n) :=
  patchRun_eq_addWords h.entries_lt h.off_table

lemma not_inTable (h : Relocatable mem buf size table n) {a x : ℕ}
    (ha : a ∈ patchWords mem buf table n) (hle : a ≤ x) (hlt : x < a + 4) :
    ¬ InTable table n x := by
  rintro ⟨hlow, hhigh⟩
  have hapart := h.off_table a ha ((x - table) / 4) (by omega)
  unfold WordsApart at hapart
  omega

/-- A table in another order names the same words, and none of its words meets it. -/
lemma run_perm (h : Relocatable mem buf size table n)
    (hsame : ∀ x, ¬ InTable table n x → mem' x = mem x)
    (hperm : (patchEntries mem' table n).Perm (patchEntries mem table n)) {x : ℕ}
    (hx : ¬ InTable table n x) :
    (patchRun mem' buf table n).mem x = (patchRun mem buf table n).mem x := by
  have hwords : (patchWords mem' buf table n).Perm (patchWords mem buf table n) :=
    patchWords_perm hperm
  have hrun : (patchRun mem' buf table n).mem =
      mem'.addWords buf (patchWords mem' buf table n) := by
    apply patchRun_eq_addWords h.entries_lt
    intro a ha
    exact h.off_table a (hwords.subset ha)
  rw [hrun, h.run_eq, ← Memory.addWords_perm hwords.symm h.equal_or_apart]
  exact Memory.addWords_congr hsame (fun a ha y hle hlt => h.not_inTable ha hle hlt) hx

end Relocatable

end Relocation

/-- `patch_payload_ptr` relocates every payload whose table and words lie apart. -/
theorem patchPayloadPtr_relocates {mem : Memory} {buf size entries offset : ℕ}
    (h : Relocatable mem buf size ((buf + offset) % 2 ^ 32) (toSigned entries).toNat) :
    Relocated mem buf entries offset := by
  have hrun : (patchPayloadPtr mem buf entries offset).mem = mem.addWords buf
      (patchWords mem buf ((buf + offset) % 2 ^ 32) (toSigned entries).toNat) := h.run_eq
  have hothers : ∀ x, (∀ a ∈ patchWords mem buf ((buf + offset) % 2 ^ 32)
      (toSigned entries).toNat, x < a ∨ a + 4 ≤ x) →
        (patchPayloadPtr mem buf entries offset).mem x = mem x := by
    intro x hx
    rw [hrun]
    exact Memory.addWords_of_apart hx
  constructor
  · intro words a ha
    rw [hrun]
    exact Memory.word_addWords (h.equal_or_apart a ha)
  · exact hothers
  · intro x hx
    apply hothers
    intro a ha
    by_contra hmeets
    exact h.not_inTable ha (by omega) (by omega) hx
  · intro mem' hsame hperm x hx
    exact h.run_perm hsame hperm hx

/-- Twelve bytes, and a table that names the words at 1, 6, and 1 again. -/
def samplePayload : List UInt8 :=
  [0, 1, 2, 3, 4, 5, 6, 7, 8, 9, 10, 11, 1, 0, 0, 0, 6, 0, 0, 0, 1, 0, 0, 0]

theorem samplePayload_relocated :
    Relocatable (memoryOf samplePayload) 4096 24 ((4096 + 12) % 2 ^ 32) (toSigned 3).toNat ∧
      Relocated (memoryOf samplePayload) 4096 3 12 := by
  have h : Relocatable (memoryOf samplePayload) 4096 24 ((4096 + 12) % 2 ^ 32)
      (toSigned 3).toNat :=
    ⟨by decide, by decide, by decide +kernel, by decide +kernel, by decide +kernel⟩
  exact ⟨h, patchPayloadPtr_relocates h⟩

end ExpressOS

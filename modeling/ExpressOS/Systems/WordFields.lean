import ExpressOS.Systems.Memory

/-!
# Words at the front of a message

A message that begins with a fixed number of four-byte words. `takeWords` takes them off, and
`wordBytes` puts them there; each undoes the other.
-/

namespace Systems

def wordBytes (ws : List ℕ) : List UInt8 :=
  ws.flatMap (leBytes 4)

/-- The first `n` words, and the bytes behind them. -/
def takeWords : ℕ → List UInt8 → Option (List ℕ × List UInt8)
  | 0, bs => some ([], bs)
  | n + 1, bs =>
    if bs.length < 4 then none
    else (takeWords n (bs.drop 4)).map (fun (ws, rest) => (leNat (bs.take 4) :: ws, rest))

@[simp] lemma wordBytes_nil : wordBytes [] = [] := rfl

@[simp] lemma wordBytes_cons (w : ℕ) (ws : List ℕ) :
    wordBytes (w :: ws) = leBytes 4 w ++ wordBytes ws := List.flatMap_cons

@[simp] lemma length_wordBytes (ws : List ℕ) : (wordBytes ws).length = 4 * ws.length := by
  induction ws with
  | nil => rfl
  | cons w ws ih =>
    rw [wordBytes_cons, List.length_append, length_leBytes, ih, List.length_cons]
    omega

lemma takeWords_wordBytes {ws : List ℕ} (h : ∀ w ∈ ws, w < 2 ^ 32) (rest : List UInt8) :
    takeWords ws.length (wordBytes ws ++ rest) = some (ws, rest) := by
  induction ws with
  | nil => rfl
  | cons w ws ih =>
    have hlong : ¬ (wordBytes (w :: ws) ++ rest).length < 4 := by
      rw [List.length_append, length_wordBytes, List.length_cons]
      omega
    have hrest := ih (fun v hv => h v (List.mem_cons_of_mem _ hv))
    rw [List.length_cons, takeWords, if_neg hlong, wordBytes_cons, List.append_assoc,
      List.drop_left' (length_leBytes 4 w), List.take_left' (length_leBytes 4 w), hrest,
      leNat_leBytes_word (h w List.mem_cons_self)]
    rfl

lemma wordBytes_of_takeWords {n : ℕ} {bs rest : List UInt8} {ws : List ℕ}
    (h : takeWords n bs = some (ws, rest)) :
    bs = wordBytes ws ++ rest ∧ ws.length = n ∧ ∀ w ∈ ws, w < 2 ^ 32 := by
  induction n generalizing bs ws with
  | zero =>
    cases h
    exact ⟨rfl, rfl, nofun⟩
  | succ n ih =>
    rw [takeWords] at h
    split_ifs at h with hshort
    obtain ⟨⟨vs, tail⟩, htake, hpair⟩ := Option.map_eq_some_iff.mp h
    obtain ⟨rfl, rfl⟩ := Prod.mk.inj hpair
    obtain ⟨hbytes, hlength, hwords⟩ := ih htake
    have hfour : (bs.take 4).length = 4 := List.length_take_of_le (not_lt.mp hshort)
    have hword := leBytes_leNat (bs.take 4)
    rw [hfour] at hword
    refine ⟨?_, by rw [List.length_cons, hlength], ?_⟩
    · rw [wordBytes_cons, hword, List.append_assoc, ← hbytes, List.take_append_drop]
    · intro w hw
      obtain rfl | hlater := List.mem_cons.mp hw
      · exact leNat_lt_word hfour.le
      · exact hwords w hlater

end Systems

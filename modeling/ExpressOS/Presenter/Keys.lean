import ExpressOS.Presenter.Slides

/-!
# The keys

`key_handler` reads one byte of each datagram into a variable that lives as long as the loop, and
an empty datagram leaves the variable as it is.
-/

namespace ExpressOS

abbrev Datagram := List UInt8

/-- One byte is asked for, and the rest of the datagram is lost. The result is the length, and the
buffer afterwards. -/
def recvfrom (c : UInt8) : Datagram → ℕ × UInt8
  | [] => (0, c)
  | b :: _ => (1, b)

/-- The switch of `key_handler`. -/
def keyAction (c : UInt8) : Option Action :=
  if c = 'N'.toUInt8 ∨ c = 'n'.toUInt8 then some .nextSlide
  else if c = 'P'.toUInt8 ∨ c = 'p'.toUInt8 then some .prevSlide
  else if c = 'b'.toUInt8 ∨ c = 'B'.toUInt8 then some .toggleBlank
  else none

/-- The loop of `key_handler`: the calls of `signalAction` for the datagrams that arrive. The
variable has no value of its own before the first of them. -/
def keyHandler (c : UInt8) : List Datagram → List Action
  | [] => []
  | d :: ds =>
    -- the length is not looked at
    let c := (recvfrom c d).2
    (keyAction c).toList ++ keyHandler c ds

/-- One action for each datagram that begins with a key. -/
def keyActions (ds : List Datagram) : List Action :=
  ds.filterMap fun d => d.head?.bind keyAction

def lastByte (c : UInt8) (ds : List Datagram) : UInt8 :=
  (ds.filterMap List.head?).getLast?.getD c

/-- No empty datagram comes when the variable holds a key. -/
def NoStaleKey (c : UInt8) (ds : List Datagram) : Prop :=
  ∀ before after, ds = before ++ [] :: after → keyAction (lastByte c before) = none

lemma lastByte_cons (c : UInt8) (d : Datagram) (ds : List Datagram) :
    lastByte c (d :: ds) = lastByte (recvfrom c d).2 ds := by
  cases d with
  | nil => rfl
  | cons b d => exact congrArg (Option.getD · c) List.getLast?_cons

lemma noStaleKey_nil (c : UInt8) : NoStaleKey c [] := by
  intro before after h
  exact absurd h.symm (by simp)

lemma noStaleKey_cons (c : UInt8) (d : Datagram) (ds : List Datagram) :
    NoStaleKey c (d :: ds) ↔
      (d = [] → keyAction c = none) ∧ NoStaleKey (recvfrom c d).2 ds := by
  constructor
  · intro h
    refine ⟨fun hd => h [] ds (by rw [hd]; rfl), fun before after hds => ?_⟩
    rw [← lastByte_cons]
    exact h (d :: before) after (by rw [hds]; rfl)
  · rintro ⟨hfirst, hrest⟩ before after h
    cases before with
    | nil =>
      obtain ⟨hd, -⟩ := List.cons.inj h
      exact hfirst hd
    | cons d' before =>
      obtain ⟨rfl, hds⟩ := List.cons.inj h
      rw [lastByte_cons]
      exact hrest before after hds

lemma keyActions_cons (b : UInt8) (d : Datagram) (ds : List Datagram) :
    keyActions ((b :: d) :: ds) = (keyAction b).toList ++ keyActions ds := by
  unfold keyActions
  rw [List.filterMap_cons, List.head?_cons, Option.bind_some]
  cases keyAction b <;> rfl

lemma length_keyActions_le (c : UInt8) (ds : List Datagram) :
    (keyActions ds).length ≤ (keyHandler c ds).length := by
  induction ds generalizing c with
  | nil => exact le_rfl
  | cons d ds ih =>
    cases d with
    | nil =>
      have hskip : keyActions ([] :: ds) = keyActions ds := rfl
      rw [hskip, keyHandler, List.length_append]
      exact (ih c).trans (Nat.le_add_left ..)
    | cons b d =>
      rw [keyActions_cons, keyHandler, List.length_append, List.length_append]
      exact Nat.add_le_add_left (ih b) _

/-- Each datagram acts exactly once, and an empty one not at all, if and only if no empty datagram
comes when the variable holds a key: it repeats the action of that key. -/
theorem keyHandler_eq_iff (c : UInt8) (ds : List Datagram) :
    keyHandler c ds = keyActions ds ↔ NoStaleKey c ds := by
  induction ds generalizing c with
  | nil => exact iff_of_true rfl (noStaleKey_nil c)
  | cons d ds ih =>
    rw [noStaleKey_cons, keyHandler, ← ih]
    cases d with
    | nil =>
      have hskip : keyActions ([] :: ds) = keyActions ds := rfl
      rw [hskip, recvfrom]
      cases hkey : keyAction c with
      | none => exact (and_iff_right fun _ => rfl).symm
      | some a =>
        apply iff_of_false
        · intro h
          have hlength := congrArg List.length h
          have hle := length_keyActions_le c ds
          simp only [Option.toList_some, List.length_append, List.length_singleton] at hlength
          omega
        · rintro ⟨hnone, -⟩
          cases hnone rfl
    | cons b d =>
      rw [keyActions_cons, recvfrom, List.append_right_inj]
      exact (and_iff_right fun hempty => by cases hempty).symm

/-- After a key, an empty datagram turns the page once more. -/
theorem empty_datagram_repeats :
    keyHandler 0 [['n'.toUInt8], []] = [.nextSlide, .nextSlide] ∧
      keyHandler 0 [['n'.toUInt8], []] ≠ keyActions [['n'.toUInt8], []] := by decide

end ExpressOS

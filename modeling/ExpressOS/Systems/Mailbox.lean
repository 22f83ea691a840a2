import Mathlib

/-!
# A one-place mailbox and its history

A mailbox holds at most one letter. Putting a letter into a full mailbox replaces the one in it;
the mailbox remembers what has been taken and what has been replaced by what. `History` relates
that to the letters put so far.
-/

namespace Systems

structure Mailbox (α : Type) where
  slot : Option α
  taken : List α
  replaced : List (α × α)

namespace Mailbox

variable {α : Type}

def empty : Mailbox α := ⟨none, [], []⟩

def put (m : Mailbox α) (x : α) : Mailbox α where
  slot := some x
  taken := m.taken
  replaced := m.replaced ++ (m.slot.map (fun y => (y, x))).toList

def take (m : Mailbox α) : Option (α × Mailbox α) :=
  m.slot.map (fun x => (x, { m with slot := none, taken := m.taken ++ [x] }))

lemma take_eq_some_iff {m m' : Mailbox α} {x : α} :
    m.take = some (x, m') ↔ m.slot = some x ∧ ⟨none, m.taken ++ [x], m.replaced⟩ = m' := by
  unfold take
  cases h : m.slot with
  | none => simp
  | some y =>
    simp only [Option.map_some, Option.some.injEq, Prod.mk.injEq]
    constructor <;> rintro ⟨rfl, rfl⟩ <;> exact ⟨rfl, rfl⟩

/-- The letters `puts` have been put, in this order: those taken and the one in the mailbox are
among them in the order of posting, each letter is in exactly one place, and a replaced letter was
replaced by a later one. -/
structure History (m : Mailbox α) (puts : List α) : Prop where
  order : (m.taken ++ m.slot.toList).Sublist puts
  places : (m.taken ++ m.slot.toList ++ m.replaced.map Prod.fst).Perm puts
  later : ∀ p ∈ m.replaced, [p.1, p.2].Sublist puts

lemma history_empty : (empty : Mailbox α).History [] :=
  ⟨List.Sublist.refl _, List.Perm.refl _, fun _ h => by cases h⟩

namespace History

variable {m : Mailbox α} {puts : List α}

lemma put (h : m.History puts) (x : α) : (m.put x).History (puts ++ [x]) := by
  have htaken : m.taken.Sublist puts := (List.sublist_append_left _ _).trans h.order
  refine ⟨htaken.append (List.Sublist.refl [x]), ?_, ?_⟩
  · have hmap : (m.put x).replaced.map Prod.fst = m.replaced.map Prod.fst ++ m.slot.toList := by
      rcases hslot : m.slot with _ | y <;> simp [Mailbox.put, hslot]
    have hmove : (m.taken ++ [x] ++ (m.replaced.map Prod.fst ++ m.slot.toList)).Perm
        (m.taken ++ m.slot.toList ++ m.replaced.map Prod.fst ++ [x]) := by
      rw [List.append_assoc, List.append_assoc, List.append_assoc]
      refine List.Perm.append_left _ ?_
      rw [← List.append_assoc]
      exact List.perm_append_comm.trans
        (List.perm_append_comm.append_left _)
    change (m.taken ++ [x] ++ (m.put x).replaced.map Prod.fst).Perm (puts ++ [x])
    rw [hmap]
    exact hmove.trans (h.places.append_right [x])
  · intro p hp
    rcases List.mem_append.mp hp with hold | hnew
    · exact (h.later p hold).trans (List.sublist_append_left _ _)
    · obtain ⟨y, hy, rfl⟩ : ∃ y, m.slot = some y ∧ p = (y, x) := by
        cases hslot : m.slot with
        | none => simp [hslot] at hnew
        | some y => exact ⟨y, rfl, by simpa [hslot] using hnew⟩
      have hput : [y].Sublist puts := by
        have horder := h.order
        rw [hy] at horder
        exact (List.sublist_append_right _ _).trans horder
      exact hput.append (List.Sublist.refl [x])

lemma take (h : m.History puts) {x : α} {m' : Mailbox α} (hx : m.take = some (x, m')) :
    m'.History puts := by
  obtain ⟨hslot, rfl⟩ := take_eq_some_iff.mp hx
  have horder := h.order
  have hplaces := h.places
  rw [hslot] at horder hplaces
  exact ⟨by simpa using horder, by simpa using hplaces, h.later⟩

/-- A letter is taken, in the mailbox, or replaced by a later letter and then never taken. -/
lemma accounted (h : m.History puts) (hnodup : puts.Nodup) {x : α} (hx : x ∈ puts) :
    x ∈ m.taken ∨ m.slot = some x ∨
      x ∉ m.taken ∧ ∃ y, (x, y) ∈ m.replaced ∧ [x, y].Sublist puts := by
  have hplace := h.places.mem_iff.mpr hx
  have hdisjoint := (List.nodup_append.mp (h.places.nodup_iff.mpr hnodup)).2.2
  rcases List.mem_append.mp hplace with hkept | hgone
  · rcases List.mem_append.mp hkept with htaken | hslot
    · exact .inl htaken
    · exact .inr (.inl (Option.mem_toList.mp hslot))
  · obtain ⟨p, hp, rfl⟩ := List.mem_map.mp hgone
    refine .inr (.inr ⟨fun htaken => ?_, p.2, hp, h.later p hp⟩)
    exact hdisjoint _ (List.mem_append_left _ htaken) _ hgone rfl

end History

end Mailbox

end Systems

import ExpressOS.BenchBinder.BinderIo
import ExpressOS.Systems.WordTables

/-!
# What a message says

A message is a list of items: words, strings and objects. An object that the driver is to
translate is named in the offsets, a null reference is not. The bytes between a string and the
next word are free, so that a message is a relation between memory and items.
-/

namespace ExpressOS
open Systems

def binderTypeBinder : ℕ := 0x73622a85
def binderTypeHandle : ℕ := 0x73682a85

/-- `0x7f | FLAT_BINDER_FLAG_ACCEPTS_FDS` -/
def objectFlags : ℕ := 0x17f

/-- `sizeof(struct binder_object)` -/
def objectSize : ℕ := 16

/-- The word that stands for a string that is not there. -/
def noString : ℕ := 0xffffffff

inductive Item
  | word (n : ℕ)
  | text (cs : List ℕ)
  | noText
  | object (type pointer : ℕ)
  | nullRef
  deriving DecidableEq, Repr

namespace Item

/-- The bytes of an item in the data of a message. -/
def size : Item → ℕ
  | word _ | noText => 4
  | text cs => messageSize cs.length
  | object _ _ | nullRef => objectSize

/-- The entries of an item in the offsets of a message. -/
def entries : Item → ℕ
  | object _ _ => 1
  | _ => 0

/-- The bytes and the entries that an item takes. -/
def cost (i : Item) : ℕ × ℕ :=
  (i.size, i.entries)

def costs (items : List Item) : ℕ × ℕ :=
  (items.map cost).sum

/-- The places of the listed objects of a message whose first item is at `place`. -/
def offsets : ℕ → List Item → List ℕ
  | _, [] => []
  | place, i :: items =>
    let rest := offsets (place + i.size) items
    match i with
    | object _ _ => place :: rest
    | _ => rest

@[simp] lemma costs_nil : costs [] = 0 := rfl

@[simp] lemma costs_cons (i : Item) (items : List Item) :
    costs (i :: items) = i.cost + costs items := by
  simp [costs]

lemma costs_append (items items' : List Item) :
    costs (items ++ items') = costs items + costs items' := by
  simp [costs]

lemma costs_singleton (i : Item) : costs [i] = i.cost := by
  simp [costs]

lemma offsets_cons (place : ℕ) (i : Item) (items : List Item) :
    offsets place (i :: items) =
      (if i.entries = 1 then [place] else []) ++ offsets (place + i.size) items := by
  cases i <;> simp [offsets, entries]

lemma offsets_append (place : ℕ) (items items' : List Item) :
    offsets place (items ++ items') =
      offsets place items ++ offsets (place + (costs items).1) items' := by
  induction items generalizing place with
  | nil => simp [offsets]
  | cons i items ih =>
    rw [List.cons_append, offsets_cons, ih, offsets_cons, List.append_assoc, costs_cons]
    simp [cost, Nat.add_assoc]

lemma size_pos (i : Item) : 0 < i.size := by
  cases i <;> simp [size, objectSize, messageSize]

lemma mem_offsets_bounds {place o : ℕ} {items : List Item} (h : o ∈ offsets place items) :
    place ≤ o ∧ o + objectSize ≤ place + (costs items).1 := by
  induction items generalizing place with
  | nil => cases h
  | cons i items ih =>
    rw [offsets_cons, List.mem_append] at h
    have hcosts : (costs (i :: items)).1 = i.size + (costs items).1 := by simp [cost]
    rw [hcosts]
    obtain hhere | hlater := h
    · cases i with
      | object type pointer =>
        obtain rfl := List.mem_singleton.mp hhere
        simp only [size]
        omega
      | _ => simp [entries] at hhere
    · have hrest := ih hlater
      omega

/-- Behind an item are the objects of those that follow it. -/
lemma mem_offsets_cons_of_le {place o : ℕ} {i : Item} {items : List Item}
    (h : place + i.size ≤ o) :
    o ∈ offsets place (i :: items) ↔ o ∈ offsets (place + i.size) items := by
  have hsize := i.size_pos
  rw [offsets_cons, List.mem_append]
  apply or_iff_right
  intro hmem
  split_ifs at hmem
  · have heq := List.mem_singleton.mp hmem
    omega
  · cases hmem

/-- Before the end of an item there is no object but itself. -/
lemma mem_offsets_cons_of_lt {place o : ℕ} {i : Item} {items : List Item}
    (h : o < place + i.size) : o ∈ offsets place (i :: items) ↔ i.entries = 1 ∧ o = place := by
  have hlater : o ∉ offsets (place + i.size) items := by
    intro hmem
    have hbounds := mem_offsets_bounds hmem
    omega
  rw [offsets_cons, List.mem_append, or_iff_left hlater]
  by_cases hentries : i.entries = 1
  · rw [if_pos hentries, List.mem_singleton, and_iff_right hentries]
  · rw [if_neg hentries]
    exact iff_of_false List.not_mem_nil (fun hboth => hentries hboth.1)

end Item

/-- The four words of a `struct binder_object`. -/
structure HoldsObject (m : Memory) (p type pointer : ℕ) : Prop where
  type : m.word p = type
  flags : m.word (p + 4) = objectFlags
  pointer : m.word (p + 8) = pointer
  cookie : m.word (p + 12) = 0

namespace Item

/-- The bytes at `p` begin with the item. -/
def Held (m : Memory) (p : ℕ) : Item → Prop
  | word n => m.word p = n
  | text cs => HoldsString m p (messageSize cs.length) cs
  | noText => m.word p = noString
  | object type pointer => HoldsObject m p type pointer
  | nullRef => HoldsObject m p binderTypeHandle 0

/-- The items are at `p`, one behind the other. -/
def Laid (m : Memory) : ℕ → List Item → Prop
  | _, [] => True
  | p, i :: items => i.Held m p ∧ Laid m (p + i.size) items

variable {m m' : Memory} {p p' : ℕ} {items items' : List Item}

lemma laid_append : Laid m p (items ++ items') ↔
    Laid m p items ∧ Laid m (p + (costs items).1) items' := by
  induction items generalizing p with
  | nil => simp [Laid]
  | cons i items ih =>
    rw [List.cons_append, Laid, ih, Laid, costs_cons, and_assoc]
    simp [cost, Nat.add_assoc]

lemma laid_singleton {i : Item} : Laid m p [i] ↔ i.Held m p := by
  simp [Laid]

/-- A copy of the bytes of an item is the item. -/
lemma Held.copy {i : Item} (h : i.Held m p) (hcopy : m'.read p' i.size = m.read p i.size) :
    i.Held m' p' := by
  have hword {k : ℕ} (hk : k + 4 ≤ i.size) : m'.word (p' + k) = m.word (p + k) :=
    Memory.word_part hcopy hk
  have hobject {type pointer : ℕ} (hsize : i.size = objectSize)
      (hobj : HoldsObject m p type pointer) : HoldsObject m' p' type pointer := by
    unfold objectSize at hsize
    constructor
    · exact (hword (k := 0) (by omega)).trans hobj.type
    · exact (hword (by omega)).trans hobj.flags
    · exact (hword (by omega)).trans hobj.pointer
    · exact (hword (by omega)).trans hobj.cookie
  cases i with
  | word n => exact (hword (k := 0) le_rfl).trans h
  | text cs => exact HoldsString.copy h hcopy
  | noText => exact (hword (k := 0) le_rfl).trans h
  | object type pointer => exact hobject rfl h
  | nullRef => exact hobject rfl h

/-- A copy of the bytes of a message says the same. -/
lemma Laid.copy (h : Laid m p items)
    (hcopy : m'.read p' (costs items).1 = m.read p (costs items).1) : Laid m' p' items := by
  induction items generalizing p p' with
  | nil => trivial
  | cons i items ih =>
    have hcosts : (costs (i :: items)).1 = i.size + (costs items).1 := by simp [cost]
    rw [hcosts] at hcopy
    constructor
    · apply h.1.copy
      exact Memory.read_part (k := 0) hcopy (by omega)
    · apply ih h.2
      exact Memory.read_part hcopy le_rfl

end Item

end ExpressOS

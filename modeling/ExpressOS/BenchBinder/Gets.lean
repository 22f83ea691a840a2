import ExpressOS.BenchBinder.Items

/-!
# Reading a message

The get functions of `bench-binder/binder.c`. On any message they look at its own bytes only, and
items that are laid in a message are got back in their order, up to the first null reference: an
object that the offsets do not name is not got, and nothing is got after it.
-/

namespace ExpressOS
open Systems

/-- What a get leaves that has found nothing: the message has no more data. -/
def BinderIo.exhaust (bio : BinderIo) : BinderIo :=
  { bio.setFlag bioOverflow with dataAvail := 0 }

/-- `_bio_get_obj` -/
def bioGetObj (m : Memory) (bio : BinderIo) : ℕ × BinderIo :=
  let off := bio.data - bio.data0
  if ∃ n < bio.offsAvail, m.word (bio.offs + 4 * n) = off then bioGet bio objectSize
  else (0, bio.exhaust)

def bioGetRef (m : Memory) (bio : BinderIo) : ℕ × BinderIo :=
  let (obj, bio) := bioGetObj m bio
  if obj = 0 then (0, bio)
  else if m.word obj = binderTypeHandle then (m.word (obj + 8), bio)
  else (0, bio)

/-- A call of one of the get functions. -/
inductive Get
  | uint32
  | string16
  | ref
  deriving DecidableEq, Repr

/-- What a get returns, for a string with the length that it stores. -/
inductive Got
  | uint32 (n : ℕ)
  | string16 (str len : ℕ)
  | ref (ptr : ℕ)
  deriving DecidableEq, Repr

def Get.run (m : Memory) (bio : BinderIo) : Get → Got × BinderIo
  | uint32 =>
    let (n, bio) := bioGetUint32 m bio
    (.uint32 n, bio)
  | string16 =>
    let got := bioGetString16 m bio
    (.string16 got.str got.len, got.bio)
  | ref =>
    let (ptr, bio) := bioGetRef m bio
    (.ref ptr, bio)

def getAll (m : Memory) (bio : BinderIo) : List Get → List Got × BinderIo
  | [] => ([], bio)
  | get :: gets =>
    let (got, bio) := get.run m bio
    let (gots, bio) := getAll m bio gets
    (got :: gots, bio)

/-! ### Any message -/

/-- The cursor of a message whose data are `n` bytes at `p`, and whose offsets are `k` words. -/
structure Reading (p n offs k : ℕ) (bio : BinderIo) : Prop where
  data0 : bio.data0 = p
  offs : bio.offs = offs
  offsAvail : bio.offsAvail = k
  data_ge : p ≤ bio.data
  data_end : bio.data + bio.dataAvail ≤ p + n

/-- Memories with the same message. -/
structure SameMessage (p n offs k : ℕ) (m m' : Memory) : Prop where
  data : m'.read p n = m.read p n
  offs : m'.read offs (4 * k) = m.read offs (4 * k)

section AnyMessage

variable {p n offs k : ℕ} {m m' : Memory} {bio : BinderIo}

lemma reading_bioInitFromTxn (txn : BinderTxn) :
    Reading txn.data txn.dataSize txn.offs (txn.offsSize / 4) (bioInitFromTxn txn) :=
  ⟨rfl, rfl, rfl, le_rfl, le_rfl⟩

lemma Reading.exhaust (h : Reading p n offs k bio) : Reading p n offs k bio.exhaust :=
  { h with data_end := (Nat.le_add_right _ _).trans h.data_end }

lemma Reading.bioGet (h : Reading p n offs k bio) (size : ℕ) :
    Reading p n offs k (bioGet bio size).2 := by
  by_cases hle : roundToWord size ≤ bio.dataAvail
  · rw [bioGet_of_le hle]
    have hge := h.data_ge
    have hend := h.data_end
    constructor
    · exact h.data0
    · exact h.offs
    · exact h.offsAvail
    · simp only [BinderIo.advance]
      omega
    · simp only [BinderIo.advance]
      omega
  · rw [bioGet_of_lt (not_le.mp hle)]
    exact h.exhaust

/-- A region that a get returns lies in the message. -/
lemma Reading.region (h : Reading p n offs k bio) (size : ℕ)
    (hptr : (ExpressOS.bioGet bio size).1 ≠ 0) :
    p ≤ (ExpressOS.bioGet bio size).1 ∧
      (ExpressOS.bioGet bio size).1 + roundToWord size ≤ p + n := by
  by_cases hle : roundToWord size ≤ bio.dataAvail
  · rw [bioGet_of_le hle]
    have hge := h.data_ge
    have hend := h.data_end
    dsimp only
    omega
  · rw [bioGet_of_lt (not_le.mp hle)] at hptr
    exact absurd rfl hptr

lemma SameMessage.word (h : SameMessage p n offs k m m') {a : ℕ} (hge : p ≤ a)
    (hle : a + 4 ≤ p + n) : m'.word a = m.word a := by
  have hpart := Memory.word_part h.data (k := a - p) (by omega)
  rwa [Nat.add_sub_cancel' hge] at hpart

lemma SameMessage.entry (h : SameMessage p n offs k m m') {i : ℕ} (hi : i < k) :
    m'.word (offs + 4 * i) = m.word (offs + 4 * i) :=
  Memory.word_part h.offs (by omega)

lemma SameMessage.getUint32 (h : SameMessage p n offs k m m') (hr : Reading p n offs k bio) :
    bioGetUint32 m' bio = bioGetUint32 m bio := by
  have hregion := hr.region 4
  unfold bioGetUint32
  generalize bioGet bio 4 = got at hregion
  obtain ⟨ptr, bio'⟩ := got
  dsimp only at hregion ⊢
  by_cases hptr : ptr ≠ 0
  · rw [if_pos hptr, if_pos hptr, h.word (hregion hptr).1 (hregion hptr).2]
  · rw [if_neg hptr, if_neg hptr]

lemma Reading.getUint32 (h : Reading p n offs k bio) :
    Reading p n offs k (bioGetUint32 m bio).2 :=
  h.bioGet 4

lemma SameMessage.getString16 (h : SameMessage p n offs k m m') (hr : Reading p n offs k bio) :
    bioGetString16 m' bio = bioGetString16 m bio := by
  rw [bioGetString16, h.getUint32 hr, bioGetString16]

lemma Reading.getString16 (h : Reading p n offs k bio) :
    Reading p n offs k (bioGetString16 m bio).bio :=
  (h.getUint32 (m := m)).bioGet _

lemma SameMessage.getObj (h : SameMessage p n offs k m m') (hr : Reading p n offs k bio) :
    bioGetObj m' bio = bioGetObj m bio := by
  have hfound : (∃ i < bio.offsAvail, m'.word (bio.offs + 4 * i) = bio.data - bio.data0) ↔
      ∃ i < bio.offsAvail, m.word (bio.offs + 4 * i) = bio.data - bio.data0 := by
    apply exists_congr
    intro i
    rw [hr.offs, hr.offsAvail]
    exact and_congr_right (fun hi => by rw [h.entry hi])
  unfold bioGetObj
  exact if_congr hfound rfl rfl

lemma Reading.getObj (h : Reading p n offs k bio) :
    Reading p n offs k (bioGetObj m bio).2 ∧
      ((bioGetObj m bio).1 ≠ 0 →
        p ≤ (bioGetObj m bio).1 ∧ (bioGetObj m bio).1 + objectSize ≤ p + n) := by
  unfold bioGetObj
  dsimp only
  split
  · exact ⟨h.bioGet objectSize, h.region objectSize⟩
  · exact ⟨h.exhaust, fun hne => absurd rfl hne⟩

lemma bioGetRef_snd : (bioGetRef m bio).2 = (bioGetObj m bio).2 := by
  unfold bioGetRef
  dsimp only
  split_ifs <;> rfl

lemma SameMessage.getRef (h : SameMessage p n offs k m m') (hr : Reading p n offs k bio) :
    bioGetRef m' bio = bioGetRef m bio := by
  obtain ⟨-, hregion⟩ := hr.getObj (m := m)
  unfold bioGetRef
  rw [h.getObj hr]
  generalize bioGetObj m bio = got at hregion
  obtain ⟨obj, bio'⟩ := got
  dsimp only at hregion ⊢
  by_cases hobj : obj = 0
  · rw [if_pos hobj, if_pos hobj]
  · obtain ⟨hge, hle⟩ := hregion hobj
    unfold objectSize at hle
    rw [if_neg hobj, if_neg hobj, h.word (by omega) (by omega), h.word (by omega) (by omega)]

lemma Reading.get (h : Reading p n offs k bio) (get : Get) :
    Reading p n offs k (get.run m bio).2 := by
  cases get with
  | uint32 => exact h.getUint32 (m := m)
  | string16 => exact h.getString16 (m := m)
  | ref =>
    rw [show (Get.run m bio .ref).2 = (bioGetObj m bio).2 from bioGetRef_snd]
    exact h.getObj.1

lemma SameMessage.get (h : SameMessage p n offs k m m') (hr : Reading p n offs k bio) (get : Get) :
    get.run m' bio = get.run m bio := by
  cases get with
  | uint32 => rw [Get.run, Get.run, h.getUint32 hr]
  | string16 => rw [Get.run, Get.run, h.getString16 hr]
  | ref => rw [Get.run, Get.run, h.getRef hr]

lemma getAll_cons (m : Memory) (bio : BinderIo) (get : Get) (gets : List Get) :
    getAll m bio (get :: gets) =
      ((get.run m bio).1 :: (getAll m (get.run m bio).2 gets).1,
        (getAll m (get.run m bio).2 gets).2) :=
  rfl

/-- The cursor stays in the message, whatever is got. -/
lemma Reading.getAll (h : Reading p n offs k bio) (gets : List Get) :
    Reading p n offs k (getAll m bio gets).2 := by
  induction gets generalizing bio with
  | nil => exact h
  | cons get gets ih => exact ih (h.get get)

/-- What is got depends on the bytes of the message only. -/
lemma SameMessage.getAll (h : SameMessage p n offs k m m') (hr : Reading p n offs k bio)
    (gets : List Get) : getAll m' bio gets = ExpressOS.getAll m bio gets := by
  induction gets generalizing bio with
  | nil => rfl
  | cons get gets ih =>
    rw [getAll_cons, h.get hr, ih (hr.get get), getAll_cons]

lemma word_lt (m : Memory) (p : ℕ) : m.word p < 2 ^ 32 :=
  leNat_lt_word (by simp)

/-- A string that is returned has its length before it. -/
lemma bioGetString16_str (h : Reading p n offs k bio)
    (hstr : (bioGetString16 m bio).str ≠ 0) :
    p + 4 ≤ (bioGetString16 m bio).str ∧ (bioGetString16 m bio).len < 2 ^ 32 ∧
      (bioGetString16 m bio).str + roundToWord (stringSize (bioGetString16 m bio).len) ≤
        p + n := by
  have hregion := (h.getUint32 (m := m)).region _ hstr
  have hlen : (bioGetUint32 m bio).1 < 2 ^ 32 := by
    unfold bioGetUint32
    dsimp only
    split_ifs
    · exact word_lt m _
    · decide
  refine ⟨?_, hlen, hregion.2⟩
  have hge := h.data_ge
  by_cases hword : roundToWord 4 ≤ bio.dataAvail
  · have hcursor : (bioGetUint32 m bio).2 = bio.advance 4 := by
      rw [bioGetUint32, bioGet_of_le hword]
      rfl
    have hfit : roundToWord (stringSize (bioGetUint32 m bio).1) ≤ (bio.advance 4).dataAvail := by
      by_contra hlt
      apply hstr
      rw [bioGetString16]
      dsimp only
      rw [hcursor, bioGet_of_lt (not_le.mp hlt)]
    have hreturned : (bioGetString16 m bio).str = bio.data + 4 := by
      rw [bioGetString16]
      dsimp only
      rw [hcursor, bioGet_of_le hfit]
      rfl
    omega
  · have hcursor : bioGetUint32 m bio = (0, bio.exhaust) := by
      rw [bioGetUint32, bioGet_of_lt (not_le.mp hword)]
      rfl
    apply absurd _ hstr
    rw [bioGetString16, hcursor]
    dsimp only
    rw [bioGet_of_lt (show 0 < roundToWord (stringSize 0) by decide)]

/-- A string that is returned lies in the message with its terminator, unless its length makes
the size in bytes wrap. -/
theorem bioGetString16_inside_iff (h : Reading p n offs k bio) (hn : p + n ≤ 2 ^ 32)
    (hstr : (bioGetString16 m bio).str ≠ 0) :
    (p ≤ (bioGetString16 m bio).str ∧
      (bioGetString16 m bio).str + 2 * ((bioGetString16 m bio).len + 1) ≤ p + n) ↔
      (bioGetString16 m bio).len < 2 ^ 31 - 2 := by
  obtain ⟨hbefore, hlen, hregion⟩ := bioGetString16_str h hstr
  constructor
  · intro hinside
    omega
  · intro hshort
    have hsize : 2 * ((bioGetString16 m bio).len + 1) ≤
        roundToWord (stringSize (bioGetString16 m bio).len) := by
      unfold roundToWord stringSize
      omega
    omega

lemma bioGetString16_of_mem {bio : BinderIo} {gets : List Get} {str len : ℕ}
    (h : Reading p n offs k bio) (hgot : Got.string16 str len ∈ (getAll m bio gets).1) :
    ∃ bio', Reading p n offs k bio' ∧ (bioGetString16 m bio').str = str ∧
      (bioGetString16 m bio').len = len := by
  induction gets generalizing bio with
  | nil => cases hgot
  | cons get gets ih =>
    rw [getAll_cons] at hgot
    obtain hhere | hlater := List.mem_cons.mp hgot
    · cases get with
      | string16 =>
        obtain ⟨rfl, rfl⟩ := Got.string16.inj hhere
        exact ⟨bio, h, rfl, rfl⟩
      | uint32 => cases hhere
      | ref => cases hhere
    · exact ih (h.get get) hlater

/-- Whatever message the driver delivers and whatever is got from it: the bytes of the message
decide, the cursor stays inside, and a string that is returned lies inside with its terminator
exactly where its length is less than `2 ^ 31 - 2`. -/
theorem getAll_inside (m : Memory) (txn : BinderTxn) (gets : List Get)
    (hdata : txn.data + txn.dataSize ≤ 2 ^ 32) :
    (∀ m', SameMessage txn.data txn.dataSize txn.offs (txn.offsSize / 4) m m' →
      getAll m' (bioInitFromTxn txn) gets = getAll m (bioInitFromTxn txn) gets) ∧
    Reading txn.data txn.dataSize txn.offs (txn.offsSize / 4)
      (getAll m (bioInitFromTxn txn) gets).2 ∧
    ∀ str len, Got.string16 str len ∈ (getAll m (bioInitFromTxn txn) gets).1 → str ≠ 0 →
      (txn.data ≤ str ∧ str + 2 * (len + 1) ≤ txn.data + txn.dataSize ↔ len < 2 ^ 31 - 2) := by
  have hreading := reading_bioInitFromTxn txn
  refine ⟨fun m' hsame => hsame.getAll hreading gets, hreading.getAll gets, ?_⟩
  intro str len hgot hstr
  obtain ⟨bio, hbio, rfl, rfl⟩ := bioGetString16_of_mem hreading hgot
  exact bioGetString16_inside_iff hbio hdata hstr

/-- A message that says there is no string: the place returned is the end of the message. -/
theorem getAll_inside_noString :
    ¬ (100 ≤ 104 ∧ 104 + 2 * (noString + 1) ≤ 100 + 4) := by
  have hinside := (getAll_inside (Memory.setWord (fun _ => 0) 100 noString)
    ⟨0, 0, 1, 0, 0, 0, 4, 0, 100, 200⟩ [.string16] (by decide)).2.2 104 noString (by decide)
  exact fun h => absurd ((hinside (by decide)).mp h) (by decide)

end AnyMessage

section Flags

variable {m : Memory} {bio : BinderIo}

lemma shared_exhaust (bio : BinderIo) :
    bio.exhaust.flags &&& bioShared = bio.flags &&& bioShared := by
  rw [BinderIo.exhaust, BinderIo.setFlag, Nat.and_or_distrib_right]
  exact Nat.or_zero _

lemma shared_bioGet (bio : BinderIo) (size : ℕ) :
    (bioGet bio size).2.flags &&& bioShared = bio.flags &&& bioShared := by
  by_cases hle : roundToWord size ≤ bio.dataAvail
  · rw [bioGet_of_le hle]
    rfl
  · rw [bioGet_of_lt (not_le.mp hle)]
    exact shared_exhaust bio

/-- No get clears the flag that the buffer is to be freed. -/
lemma shared_get (get : Get) :
    (get.run m bio).2.flags &&& bioShared = bio.flags &&& bioShared := by
  cases get with
  | uint32 => exact shared_bioGet bio 4
  | string16 => exact (shared_bioGet _ _).trans (shared_bioGet bio 4)
  | ref =>
    rw [show (Get.run m bio .ref).2 = (bioGetObj m bio).2 from bioGetRef_snd, bioGetObj]
    split
    · exact shared_bioGet bio objectSize
    · exact shared_exhaust bio

end Flags

/-! ### Items that are got back -/

namespace Item

/-- The get function for an item. -/
def get : Item → Get
  | word _ => .uint32
  | text _ | noText => .string16
  | object _ _ | nullRef => .ref

/-- What the get of an item at `p` returns. The place of a string that is not there is the place
of what follows it. -/
def got (p : ℕ) : Item → Got
  | word n => .uint32 n
  | text cs => .string16 (p + 4) cs.length
  | noText => .string16 (p + 4) noString
  | object type pointer => .ref (if type = binderTypeHandle then pointer else 0)
  | nullRef => .ref 0

/-- What a get returns where there is nothing left. -/
def missed : Item → Got
  | word _ => .uint32 0
  | text _ | noText => .string16 0 0
  | object _ _ | nullRef => .ref 0

/-- What the gets of the items at `p` return: nothing is left after a null reference. -/
def gots : ℕ → List Item → List Got
  | _, [] => []
  | p, i :: items =>
    i.got p :: (match i with
      | nullRef => items.map missed
      | _ => gots (p + i.size) items)

/-- What the receiver looks at of an item at `p`. -/
def Shown (m : Memory) (p : ℕ) : Item → Prop
  | object type pointer => m.word p = type ∧ m.word (p + 8) = pointer
  | nullRef => True
  | i => i.Held m p

/-- The receiver sees the items at `p`. -/
def AllShown (m : Memory) : ℕ → List Item → Prop
  | _, [] => True
  | p, i :: items => i.Shown m p ∧ AllShown m (p + i.size) items

lemma Held.shown {m : Memory} {p : ℕ} {i : Item} (h : i.Held m p) : i.Shown m p := by
  cases i with
  | object type pointer => exact ⟨HoldsObject.type h, HoldsObject.pointer h⟩
  | nullRef => trivial
  | _ => exact h

end Item

section RoundTrip

variable {m : Memory} {bio : BinderIo} {items : List Item}

/-- The place of the cursor is in the offsets. -/
def BinderIo.Listed (m : Memory) (bio : BinderIo) : Prop :=
  ∃ n < bio.offsAvail, m.word (bio.offs + 4 * n) = bio.data - bio.data0

lemma BinderIo.listed_iff :
    bio.Listed m ↔ bio.data - bio.data0 ∈ m.words bio.offs bio.offsAvail :=
  Memory.mem_words_iff.symm

lemma bioGetObj_of_listed (h : bio.Listed m) (hfit : objectSize ≤ bio.dataAvail) :
    bioGetObj m bio = (bio.data, bio.advance objectSize) :=
  (if_pos h).trans (bioGet_of_le hfit)

lemma bioGetObj_of_unlisted (h : ¬ bio.Listed m) : bioGetObj m bio = (0, bio.exhaust) :=
  if_neg h

lemma bioGetObj_of_exhausted (havail : bio.dataAvail = 0) :
    bioGetObj m bio = (0, bio.exhaust) := by
  by_cases hlisted : bio.Listed m
  · refine (if_pos hlisted).trans (bioGet_of_lt ?_)
    rw [havail]
    decide
  · exact bioGetObj_of_unlisted hlisted

lemma bioGetRef_of_missing (h : bioGetObj m bio = (0, bio.exhaust)) :
    bioGetRef m bio = (0, bio.exhaust) := by
  rw [bioGetRef, h]
  rfl

lemma bioGetUint32_of_exhausted (havail : bio.dataAvail = 0) :
    bioGetUint32 m bio = (0, bio.exhaust) := by
  rw [bioGetUint32, bioGet_of_lt (havail ▸ show 0 < roundToWord 4 by decide)]
  rfl

lemma bioGetString16_of_exhausted (havail : bio.dataAvail = 0) :
    bioGetString16 m bio = ⟨0, 0, bio.exhaust.exhaust⟩ := by
  rw [bioGetString16, bioGetUint32_of_exhausted havail]
  dsimp only
  rw [bioGet_of_lt (show 0 < roundToWord (stringSize 0) by decide)]
  rfl

lemma Item.missed_of_exhausted (i : Item) (havail : bio.dataAvail = 0) :
    (i.get.run m bio).1 = i.missed ∧ (i.get.run m bio).2.dataAvail = 0 := by
  have hword := bioGetUint32_of_exhausted (m := m) havail
  have hstring := bioGetString16_of_exhausted (m := m) havail
  have hobj := bioGetRef_of_missing (bioGetObj_of_exhausted (m := m) havail)
  cases i <;> simp [Item.get, Item.missed, Get.run, hword, hstring, hobj, BinderIo.exhaust]

/-- Where there is no data left, every get finds nothing. -/
lemma getAll_exhausted (items : List Item) (havail : bio.dataAvail = 0) :
    (getAll m bio (items.map Item.get)).1 = items.map Item.missed := by
  induction items generalizing bio with
  | nil => rfl
  | cons i items ih =>
    obtain ⟨hgot, hnone⟩ := i.missed_of_exhausted (m := m) havail
    rw [List.map_cons, getAll_cons, hgot, ih hnone, List.map_cons]

/-- The cursor is at items, and the offsets name those of them that are listed. -/
structure AtItems (m : Memory) (bio : BinderIo) (items : List Item) : Prop where
  data_pos : 0 < bio.data
  data_ge : bio.data0 ≤ bio.data
  avail : bio.dataAvail = (Item.costs items).1
  shown : Item.AllShown m bio.data items
  offsets : ∀ o, bio.data - bio.data0 ≤ o →
    (o ∈ m.words bio.offs bio.offsAvail ↔ o ∈ Item.offsets (bio.data - bio.data0) items)

/-- Behind the first item is the cursor at the others. -/
lemma AtItems.advance {i : Item} (h : AtItems m bio (i :: items)) :
    AtItems m (bio.advance i.size) items where
  data_pos := h.data_pos.trans_le (Nat.le_add_right _ _)
  data_ge := h.data_ge.trans (Nat.le_add_right _ _)
  avail := by
    have havail := h.avail
    rw [Item.costs_cons] at havail
    simp only [BinderIo.advance, havail]
    exact Nat.add_sub_cancel_left _ _
  shown := h.shown.2
  offsets o ho := by
    have hge := h.data_ge
    simp only [BinderIo.advance] at ho ⊢
    have hplace : bio.data + i.size - bio.data0 = bio.data - bio.data0 + i.size := by omega
    rw [hplace] at ho ⊢
    rw [h.offsets o (by omega), Item.mem_offsets_cons_of_le ho]

lemma AtItems.size_le {i : Item} (h : AtItems m bio (i :: items)) : i.size ≤ bio.dataAvail := by
  rw [h.avail, Item.costs_cons]
  exact Nat.le_add_right _ _

/-- An item of the message is got, and the cursor goes behind it, unless it is a null
reference. -/
lemma AtItems.get {i : Item} (h : AtItems m bio (i :: items)) (hi : i ≠ .nullRef) :
    i.get.run m bio = (i.got bio.data, bio.advance i.size) := by
  have hdata := h.data_pos.ne'
  have hsize := h.size_le
  have hshown := h.shown.1
  cases i with
  | word n =>
    rw [Item.get, Get.run, bioGetUint32_of_le hdata hsize]
    exact congrArg (fun n => (Got.uint32 n, _)) hshown
  | text cs =>
    have hholds : HoldsString m bio.data bio.dataAvail cs := { hshown with size := hsize }
    rw [Item.get, Get.run, bioGetString16_of_holds hdata hholds]
    rfl
  | noText =>
    have hlen : m.word bio.data = noString := hshown
    rw [Item.get, Get.run, bioGetString16, bioGetUint32_of_le hdata hsize, hlen]
    dsimp only
    rw [bioGet_of_le (show roundToWord (stringSize noString) ≤ _ from Nat.zero_le _),
      BinderIo.advance_advance]
    rfl
  | object type pointer =>
    have hlisted : bio.Listed m := by
      rw [BinderIo.listed_iff, h.offsets _ le_rfl]
      exact List.mem_cons_self
    rw [Item.get, Get.run, bioGetRef, bioGetObj_of_listed hlisted hsize]
    dsimp only
    rw [if_neg hdata, hshown.1, hshown.2]
    by_cases htype : type = binderTypeHandle
    · rw [if_pos htype, Item.got, if_pos htype]
      rfl
    · rw [if_neg htype, Item.got, if_neg htype]
      rfl
  | nullRef => exact absurd rfl hi

/-- A null reference is not got. -/
lemma AtItems.get_nullRef (h : AtItems m bio (.nullRef :: items)) :
    Get.run m bio .ref = (.ref 0, bio.exhaust) := by
  have hunlisted : ¬ bio.Listed m := by
    rw [BinderIo.listed_iff, h.offsets _ le_rfl,
      Item.mem_offsets_cons_of_lt (Nat.lt_add_of_pos_right (Item.size_pos _))]
    exact fun hlisted => nomatch hlisted.1
  rw [Get.run, bioGetRef_of_missing (bioGetObj_of_unlisted hunlisted)]

/-- The items are got back one by one, up to the first null reference. -/
theorem AtItems.getAll (h : AtItems m bio items) :
    (getAll m bio (items.map Item.get)).1 = Item.gots bio.data items := by
  induction items generalizing bio with
  | nil => rfl
  | cons i items ih =>
    by_cases hi : i = .nullRef
    · subst hi
      have hrest : (ExpressOS.getAll m bio.exhaust (items.map Item.get)).1 =
        items.map Item.missed := getAll_exhausted items rfl
      rw [List.map_cons, getAll_cons, Item.get, h.get_nullRef, hrest]
      rfl
    · rw [List.map_cons, getAll_cons, h.get hi, ih h.advance]
      cases i with
      | nullRef => exact absurd rfl hi
      | _ => rfl

end RoundTrip

end ExpressOS

import ExpressOS.BenchBinder.Items
import ExpressOS.Systems.Budget

/-!
# Building a message

The put functions of `bench-binder/binder.c`. Whatever is put, the writes stay in the buffer and
the offsets name objects; and the flag is clear exactly when everything has fitted, in which case
the message says what was put.
-/

namespace ExpressOS
open Systems

/-- The `struct binder_object` at `obj`. -/
def Memory.storeObject (m : Memory) (obj type pointer : ℕ) : Memory :=
  (((m.setWord (obj + 4) objectFlags).setWord obj type).setWord (obj + 8) pointer).setWord
    (obj + 12) 0

/-- Without an entry for the object its bytes are taken all the same. -/
def bioAllocObj (m : Memory) (bio : BinderIo) : ℕ × Memory × BinderIo :=
  let (obj, bio) := bioAlloc bio objectSize
  if obj ≠ 0 ∧ bio.offsAvail ≠ 0 then
    (obj, m.setWord bio.offs (obj - bio.data0),
      { bio with offsAvail := bio.offsAvail - 1, offs := bio.offs + 4 })
  else (0, m, bio.setFlag bioOverflow)

def bioPutObj (m : Memory) (bio : BinderIo) (ptr : ℕ) : Memory × BinderIo :=
  let (obj, m, bio) := bioAllocObj m bio
  (if obj ≠ 0 then Memory.storeObject m obj binderTypeBinder ptr else m, bio)

def bioPutRef (m : Memory) (bio : BinderIo) (ptr : ℕ) : Memory × BinderIo :=
  let (obj, m, bio) :=
    if ptr ≠ 0 then bioAllocObj m bio
    else
      let (obj, bio) := bioAlloc bio objectSize
      (obj, m, bio)
  (if obj ≠ 0 then Memory.storeObject m obj binderTypeHandle ptr else m, bio)

/-- The bytes of the string at `p`. -/
def Memory.bytes (m : Memory) (p i : ℕ) : ℕ :=
  (m (p + i)).toNat

/-- `while (*str) *ptr++ = *str++; *ptr++ = 0` -/
def widen : ℕ → Memory → ℕ → ℕ → Option Memory
  | 0, _, _, _ => none
  | fuel + 1, m, ptr, str =>
    if m str = 0 then some (m.write ptr [0, 0])
    else widen fuel (m.write ptr [m str, 0]) (ptr + 2) (str + 1)

/-- Addresses have 32 bits, so that a string that is not found to end in `2 ^ 32` steps never is,
which is `none`. -/
def bioPutString16X (m : Memory) (bio : BinderIo) (str : ℕ) : Option (Memory × BinderIo) :=
  if str = 0 then some (bioPutUint32 m bio noString)
  else do
    let len ← scanLength (Memory.bytes m str) (2 ^ 32) 0
    if len ≥ maxBioSize / 2 then return bioPutUint32 m bio noString
    let (m, bio) := bioPutUint32 m bio len
    let (ptr, bio) := bioAlloc bio (stringSize len)
    if ptr = 0 then return (m, bio)
    let m ← widen (2 ^ 32) m ptr str
    return (m, bio)

/-- A call of one of the put functions. -/
inductive Put
  | uint32 (n : ℕ)
  | string16 (str : ℕ)
  | string16X (str : ℕ)
  | obj (ptr : ℕ)
  | ref (ptr : ℕ)
  deriving DecidableEq, Repr

def Put.run (m : Memory) (bio : BinderIo) : Put → Option (Memory × BinderIo)
  | uint32 n => some (bioPutUint32 m bio n)
  | string16 str => bioPutString16 m bio str
  | string16X str => bioPutString16X m bio str
  | obj ptr => some (bioPutObj m bio ptr)
  | ref ptr => some (bioPutRef m bio ptr)

def putAll (m : Memory) (bio : BinderIo) : List Put → Option (Memory × BinderIo)
  | [] => some (m, bio)
  | put :: puts => do
    let (m, bio) ← put.run m bio
    putAll m bio puts

/-- A string of bytes or of units at `str`, wholly outside of the buffer. -/
structure Source (units : ℕ → ℕ) (width str lo hi : ℕ) (cs : List ℕ) : Prop where
  string : Terminated units cs
  length_lt : cs.length < 2 ^ 32
  apart : str + width * (cs.length + 1) ≤ lo ∨ hi ≤ str

/-- What the put functions read as a string they put as text, unless it is too long. -/
def textItem (cs : List ℕ) : Item :=
  if cs.length < maxBioSize / 2 then .text cs else .noText

/-- The item that a put is for, with its strings in `m` outside of the buffer. -/
inductive PutsItem (m : Memory) (lo hi : ℕ) : Put → Item → Prop
  | uint32 {n : ℕ} (h : n < 2 ^ 32) : PutsItem m lo hi (.uint32 n) (.word n)
  | string16 {str : ℕ} {cs : List ℕ} (hstr : str ≠ 0) (h : Source (m.units str) 2 str lo hi cs) :
    PutsItem m lo hi (.string16 str) (textItem cs)
  | string16X {str : ℕ} {cs : List ℕ} (hstr : str ≠ 0)
    (h : Source (Memory.bytes m str) 1 str lo hi cs) :
    PutsItem m lo hi (.string16X str) (textItem cs)
  | noString16 : PutsItem m lo hi (.string16 0) .noText
  | noString16X : PutsItem m lo hi (.string16X 0) .noText
  | obj {ptr : ℕ} (h : ptr < 2 ^ 32) : PutsItem m lo hi (.obj ptr) (.object binderTypeBinder ptr)
  | ref {ptr : ℕ} (hptr : ptr ≠ 0) (h : ptr < 2 ^ 32) :
    PutsItem m lo hi (.ref ptr) (.object binderTypeHandle ptr)
  | nullRef : PutsItem m lo hi (.ref 0) .nullRef

/-! ### The buffer while it is written -/

/-- The offsets are at `lo` and the data from `mid` to `hi`. -/
structure Writing (lo mid hi : ℕ) (bio : BinderIo) : Prop where
  lo_pos : 0 < lo
  hi_le : hi ≤ 2 ^ 32
  offs0 : bio.offs0 = lo
  data0 : bio.data0 = mid
  offs_ge : lo ≤ bio.offs
  offs_end : bio.offs + 4 * bio.offsAvail = mid
  data_ge : mid ≤ bio.data
  aligned : (bio.data - mid) % 4 = 0
  data_end : bio.data + bio.dataAvail = hi

def BinderIo.Overflowed (bio : BinderIo) : Prop :=
  bio.flags &&& bioOverflow ≠ 0

instance (bio : BinderIo) : Decidable bio.Overflowed :=
  inferInstanceAs (Decidable (_ ≠ _))

/-- Bytes of data and entries of the offsets. -/
def messageBudget : Budget BinderIo (ℕ × ℕ) where
  failed := BinderIo.Overflowed
  left bio := (bio.dataAvail, bio.offsAvail)

/-- Memory differs only where the cursors of the message have passed. -/
def WrittenBetween (bio bio' : BinderIo) (m m' : Memory) : Prop :=
  ∀ x, x < bio.offs ∨ bio'.offs ≤ x → x < bio.data ∨ bio'.data ≤ x → m' x = m x

/-- The entries of the offsets name whole objects of the data, each behind the one before. -/
structure NamesObjects (m : Memory) (bio : BinderIo) (entries : List ℕ) : Prop where
  table : m.words bio.offs0 entries.length = entries
  full : bio.offs = bio.offs0 + 4 * entries.length
  object : ∀ o ∈ entries, o % 4 = 0 ∧ bio.data0 + o + objectSize ≤ bio.data ∧
    ∃ type pointer, HoldsObject m (bio.data0 + o) type pointer
  apart : entries.Pairwise (fun o o' => o + objectSize ≤ o')

/-- A step that takes `k` of the buffer, or overflows, and writes what it takes and no more. -/
structure Advances (lo mid hi : ℕ) (k : ℕ × ℕ) (m : Memory) (bio : BinderIo) (m' : Memory)
    (bio' : BinderIo) : Prop where
  writing : Writing lo mid hi bio'
  pays : messageBudget.Pays k bio bio'
  offs_le : bio.offs ≤ bio'.offs
  data_le : bio.data ≤ bio'.data
  frame : WrittenBetween bio bio' m m'
  names : ∀ entries, NamesObjects m bio entries → ∃ more, NamesObjects m' bio' (entries ++ more)

/-- A step that puts the items, or overflows. -/
structure PutsItems (lo mid hi : ℕ) (items : List Item) (m : Memory) (bio : BinderIo)
    (m' : Memory) (bio' : BinderIo) : Prop
    extends Advances lo mid hi (Item.costs items) m bio m' bio' where
  laid : ¬ bio'.Overflowed → Item.Laid m' bio.data items
  table : ¬ bio'.Overflowed →
    m'.words bio.offs (Item.costs items).2 = Item.offsets (bio.data - mid) items

section Steps

variable {lo mid hi : ℕ} {k l : ℕ × ℕ} {m m' m₁ m₂ : Memory} {bio bio' bio₁ bio₂ : BinderIo}
  {items items' : List Item}

lemma Writing.data_pos (h : Writing lo mid hi bio) : 0 < bio.data := by
  have := h.lo_pos
  have := h.offs_ge
  have := h.offs_end
  have := h.data_ge
  omega

lemma Writing.offs_le_data (h : Writing lo mid hi bio) : bio.offs ≤ bio.data := by
  have := h.offs_end
  have := h.data_ge
  omega

lemma overflowed_setFlag (bio : BinderIo) : (bio.setFlag bioOverflow).Overflowed := by
  intro hzero
  have hbit := congrArg (Nat.testBit · 1) hzero
  simp only [BinderIo.setFlag, Nat.testBit_and, Nat.testBit_or] at hbit
  exact absurd hbit (by simp [show bioOverflow.testBit 1 = true from rfl])

lemma WrittenBetween.refl (bio : BinderIo) (m : Memory) : WrittenBetween bio bio m m :=
  fun _ _ _ => rfl

lemma WrittenBetween.trans (h : WrittenBetween bio bio₁ m m₁) (h' : WrittenBetween bio₁ bio₂ m₁ m₂)
    (hoffs : bio.offs ≤ bio₁.offs) (hoffs' : bio₁.offs ≤ bio₂.offs) (hdata : bio.data ≤ bio₁.data)
    (hdata' : bio₁.data ≤ bio₂.data) : WrittenBetween bio bio₂ m m₂ := by
  intro x hxoffs hxdata
  rw [h' x (by omega) (by omega), h x (by omega) (by omega)]

/-- What lies before the cursors stays as it was. -/
lemma WrittenBetween.read (h : WrittenBetween bio bio' m m') {a n : ℕ}
    (hoffs : a + n ≤ bio.offs ∨ bio'.offs ≤ a) (hdata : a + n ≤ bio.data ∨ bio'.data ≤ a) :
    m'.read a n = m.read a n :=
  Memory.read_congr (fun x hx hx' => h x (by omega) (by omega))

lemma NamesObjects.frame {entries : List ℕ} (h : NamesObjects m bio entries)
    (hw : Writing lo mid hi bio) (hwritten : WrittenBetween bio bio' m m')
    (hoffs : bio'.offs = bio.offs) (hoffs0 : bio'.offs0 = bio.offs0)
    (hdata0 : bio'.data0 = bio.data0) (hdata : bio.data ≤ bio'.data) :
    NamesObjects m' bio' entries where
  table := by
    have hoffsdata := hw.offs_le_data
    have hfull := h.full
    rw [hoffs0, ← h.table, Memory.length_words]
    apply Memory.words_copy
    exact hwritten.read (by omega) (by omega)
  full := by rw [hoffs, hoffs0, h.full]
  object o ho := by
    obtain ⟨haligned, hinside, type, pointer, hobject⟩ := h.object o ho
    have hoffsdata := hw.offs_end
    have hmid := hw.data0
    rw [hdata0]
    refine ⟨haligned, by omega, type, pointer, ?_⟩
    apply Item.Held.copy (i := .object type pointer) hobject
    exact hwritten.read (by simp only [Item.size]; omega) (by simp only [Item.size]; omega)
  apart := h.apart

namespace Advances

lemma refl (h : Writing lo mid hi bio) : Advances lo mid hi 0 m bio m bio where
  writing := h
  pays := .refl bio
  offs_le := le_rfl
  data_le := le_rfl
  frame := .refl bio m
  names entries h := ⟨[], by rwa [List.append_nil]⟩

lemma trans (h : Advances lo mid hi k m bio m₁ bio₁) (h' : Advances lo mid hi l m₁ bio₁ m₂ bio₂) :
    Advances lo mid hi (k + l) m bio m₂ bio₂ where
  writing := h'.writing
  pays := h.pays.trans h'.pays
  offs_le := h.offs_le.trans h'.offs_le
  data_le := h.data_le.trans h'.data_le
  frame := h.frame.trans h'.frame h.offs_le h'.offs_le h.data_le h'.data_le
  names entries hnames := by
    obtain ⟨more, hmore⟩ := h.names entries hnames
    obtain ⟨more', hmore'⟩ := h'.names _ hmore
    exact ⟨more ++ more', by rwa [← List.append_assoc]⟩

/-- Where the step has not overflowed, the cursors have moved by what it takes. -/
lemma cursors (h : Advances lo mid hi k m bio m' bio') (hw : Writing lo mid hi bio)
    (hclear : ¬ bio'.Overflowed) :
    bio'.data = bio.data + k.1 ∧ bio'.offs = bio.offs + 4 * k.2 := by
  have hspent := h.pays.spent hclear
  have hdata : bio.dataAvail = bio'.dataAvail + k.1 := congrArg Prod.fst hspent
  have hoffs : bio.offsAvail = bio'.offsAvail + k.2 := congrArg Prod.snd hspent
  have hend := hw.data_end
  have hend' := h.writing.data_end
  have htable := hw.offs_end
  have htable' := h.writing.offs_end
  omega

/-- A step that fails without taking anything more. -/
lemma overflow (hw : Writing lo mid hi bio) (hw' : Writing lo mid hi bio')
    (hover : bio'.Overflowed) (hk : ¬ k ≤ (bio.dataAvail, bio.offsAvail))
    (hoffs : bio'.offs = bio.offs) (hdata : bio.data ≤ bio'.data) :
    Advances lo mid hi k m bio m bio' where
  writing := hw'
  pays := ⟨fun _ => hover, fun _ => iff_of_false (not_not_intro hover) hk, fun h => absurd hover h⟩
  offs_le := hoffs.ge
  data_le := hdata
  frame := fun _ _ _ => rfl
  names entries h := by
    refine ⟨[], ?_⟩
    rw [List.append_nil]
    exact h.frame hw (fun _ _ _ => rfl) hoffs (hw'.offs0.trans hw.offs0.symm)
      (hw'.data0.trans hw.data0.symm) hdata

/-- A step that takes bytes of data and writes only there. -/
lemma advance {n : ℕ} (hw : Writing lo mid hi bio) (hn : n ≤ bio.dataAvail) (hword : n % 4 = 0)
    (hframe : ∀ x, x < bio.data ∨ bio.data + n ≤ x → m' x = m x) :
    Advances lo mid hi (n, 0) m bio m' (bio.advance n) where
  writing :=
    { hw with
      data_ge := hw.data_ge.trans (Nat.le_add_right _ _)
      aligned := by
        have haligned := hw.aligned
        have hge := hw.data_ge
        simp only [BinderIo.advance]
        omega
      data_end := by
        have hend := hw.data_end
        simp only [BinderIo.advance]
        omega }
  pays :=
    { sticky := id
      covered_iff := fun h => iff_of_true h ⟨hn, Nat.zero_le _⟩
      spent := fun _ => Prod.ext (Nat.sub_add_cancel hn).symm rfl }
  offs_le := le_rfl
  data_le := Nat.le_add_right _ _
  frame := fun x _ hx => hframe x hx
  names entries h := by
    refine ⟨[], ?_⟩
    rw [List.append_nil]
    exact h.frame hw (fun x _ hx => hframe x hx) rfl rfl rfl (Nat.le_add_right _ _)

/-- An allocation, and what is written where it has given room. -/
lemma alloc (hw : Writing lo mid hi bio) (size : ℕ)
    (hfit : roundToWord size ≤ bio.dataAvail →
      ∀ x, x < bio.data ∨ bio.data + roundToWord size ≤ x → m' x = m x)
    (hfull : bio.dataAvail < roundToWord size → m' = m) :
    Advances lo mid hi (roundToWord size, 0) m bio m' (bioAlloc bio size).2 := by
  by_cases hle : roundToWord size ≤ bio.dataAvail
  · rw [bioAlloc_of_le hle]
    exact .advance hw hle (Nat.mul_mod_left _ 4) (hfit hle)
  · have hlt := not_le.mp hle
    rw [bioAlloc_of_lt hlt, hfull hlt]
    have hw' : Writing lo mid hi (bio.setFlag bioOverflow) := { hw with }
    exact .overflow hw hw' (overflowed_setFlag bio) (fun h => hle h.1) rfl le_rfl

end Advances

lemma bioAlloc_ne_zero_iff (hw : Writing lo mid hi bio) (size : ℕ) :
    (bioAlloc bio size).1 ≠ 0 ↔ roundToWord size ≤ bio.dataAvail := by
  by_cases hle : roundToWord size ≤ bio.dataAvail
  · rw [bioAlloc_of_le hle]
    exact iff_of_true hw.data_pos.ne' hle
  · rw [bioAlloc_of_lt (not_le.mp hle)]
    exact iff_of_false (not_not_intro rfl) hle

lemma bioAlloc_fst {size : ℕ} (h : roundToWord size ≤ bio.dataAvail) :
    (bioAlloc bio size).1 = bio.data := by
  rw [bioAlloc_of_le h]

/-- An allocation that has not failed has given room. -/
lemma le_of_clear (size : ℕ) (h : ¬ (bioAlloc bio size).2.Overflowed) :
    roundToWord size ≤ bio.dataAvail := by
  by_contra hlt
  rw [bioAlloc_of_lt (not_le.mp hlt)] at h
  exact h (overflowed_setFlag bio)

namespace PutsItems

lemma nil (h : Writing lo mid hi bio) : PutsItems lo mid hi [] m bio m bio where
  toAdvances := .refl h
  laid _ := trivial
  table _ := rfl

/-- Two steps put the items of the one and then those of the other. -/
theorem trans (hw : Writing lo mid hi bio) (h : PutsItems lo mid hi items m bio m₁ bio₁)
    (h' : PutsItems lo mid hi items' m₁ bio₁ m₂ bio₂) :
    PutsItems lo mid hi (items ++ items') m bio m₂ bio₂ where
  toAdvances := by
    rw [Item.costs_append]
    exact h.toAdvances.trans h'.toAdvances
  laid hclear := by
    have hclear₁ := mt h'.pays.sticky hclear
    obtain ⟨hdata, hoffs⟩ := h.cursors hw hclear₁
    have hbefore := hw.offs_end
    have hmid := hw.data_ge
    have hoffs' := h'.writing.offs_end
    rw [Item.laid_append]
    constructor
    · apply (h.laid hclear₁).copy
      exact h'.frame.read (by omega) (by omega)
    · rw [← hdata]
      exact h'.laid hclear
  table hclear := by
    have hclear₁ := mt h'.pays.sticky hclear
    obtain ⟨hdata, hoffs⟩ := h.cursors hw hclear₁
    have hfirst := h.writing.offs_le_data
    have hmid := hw.data_ge
    have hkept : m₂.words bio.offs (Item.costs items).2 =
        m₁.words bio.offs (Item.costs items).2 := by
      apply Memory.words_copy
      exact h'.frame.read (by omega) (by omega)
    have hplace : bio.data - mid + (Item.costs items).1 = bio₁.data - mid := by omega
    rw [Item.costs_append, Prod.snd_add, Memory.words_add, hkept, h.table hclear₁, ← hoffs,
      h'.table hclear, Item.offsets_append, hplace]

/-- An item that is not listed. -/
lemma unlisted {i : Item} (hentries : i.entries = 0) (h : Advances lo mid hi i.cost m bio m' bio')
    (hheld : ¬ bio'.Overflowed → i.Held m' bio.data) :
    PutsItems lo mid hi [i] m bio m' bio' where
  toAdvances := by rwa [Item.costs_singleton]
  laid hclear := Item.laid_singleton.mpr (hheld hclear)
  table _ := by
    rw [Item.costs_singleton, Item.offsets_cons, hentries, Item.cost, hentries]
    rfl

lemma overflowed (h : Advances lo mid hi (Item.costs items) m bio m' bio')
    (hover : bio'.Overflowed) : PutsItems lo mid hi items m bio m' bio' where
  toAdvances := h
  laid hclear := absurd hover hclear
  table hclear := absurd hover hclear

end PutsItems

lemma bioPutUint32_of_lt (h : bio.dataAvail < 4) (n : ℕ) :
    bioPutUint32 m bio n = (m, bio.setFlag bioOverflow) := by
  rw [bioPutUint32, bioAlloc_of_lt (by rwa [roundToWord_four])]
  simp

lemma advances_putUint32 (hw : Writing lo mid hi bio) (n : ℕ) :
    Advances lo mid hi (4, 0) m bio (bioPutUint32 m bio n).1 (bioPutUint32 m bio n).2 := by
  apply Advances.alloc hw 4
  · intro hfit x hx
    rw [bioPutUint32_of_le hw.data_pos.ne' hfit]
    exact Memory.setWord_of_disjoint hx
  · intro hfull
    rw [bioPutUint32_of_lt hfull]

/-- Unless it overflows, the word is where the data was. -/
lemma word_putUint32 (hw : Writing lo mid hi bio) {n : ℕ} (hn : n < 2 ^ 32)
    (hclear : ¬ (bioPutUint32 m bio n).2.Overflowed) :
    (bioPutUint32 m bio n).1.word bio.data = n := by
  have hfit := le_of_clear 4 hclear
  rw [bioPutUint32_of_le hw.data_pos.ne' hfit]
  exact Memory.word_setWord_of_lt hn

lemma putsWord (hw : Writing lo mid hi bio) {n : ℕ} (hn : n < 2 ^ 32) :
    PutsItems lo mid hi [.word n] m bio (bioPutUint32 m bio n).1 (bioPutUint32 m bio n).2 :=
  .unlisted rfl (advances_putUint32 hw n) (word_putUint32 hw hn)

lemma putsNoText (hw : Writing lo mid hi bio) :
    PutsItems lo mid hi [.noText] m bio (bioPutUint32 m bio noString).1
      (bioPutUint32 m bio noString).2 :=
  .unlisted rfl (advances_putUint32 hw noString) (word_putUint32 hw (n := noString) (by decide))

/-- The length of a string, and its units where there is room for them. -/
lemma putsText {cs : List ℕ} {ptr : ℕ} (hw : Writing lo mid hi bio)
    (hshort : cs.length < maxBioSize / 2) (h₁ : bioPutUint32 m bio cs.length = (m₁, bio₁))
    (h₂ : bioAlloc bio₁ (stringSize cs.length) = (ptr, bio₂))
    (hroom : ptr ≠ 0 → Terminated (m₂.units ptr) cs ∧
      ∀ x, x < ptr ∨ ptr + 2 * (cs.length + 1) ≤ x → m₂ x = m₁ x)
    (hfull : ptr = 0 → m₂ = m₁) :
    PutsItems lo mid hi [.text cs] m bio m₂ bio₂ := by
  have hlength : cs.length < 2 ^ 32 := hshort.trans (by decide)
  have hround := roundToWord_stringSize hshort
  have hsize := stringSize_le_messageSize cs.length
  have hword : Advances lo mid hi (4, 0) m bio m₁ bio₁ := by
    simpa only [h₁] using advances_putUint32 (m := m) hw cs.length
  have hne : ptr ≠ 0 ↔ roundToWord (stringSize cs.length) ≤ bio₁.dataAvail := by
    simpa only [h₂] using bioAlloc_ne_zero_iff hword.writing (stringSize cs.length)
  have hptr (hfit : roundToWord (stringSize cs.length) ≤ bio₁.dataAvail) : ptr = bio₁.data := by
    simpa only [h₂] using bioAlloc_fst hfit
  have halloc : Advances lo mid hi (roundToWord (stringSize cs.length), 0) m₁ bio₁ m₂ bio₂ := by
    rw [show bio₂ = (bioAlloc bio₁ (stringSize cs.length)).2 by rw [h₂]]
    apply Advances.alloc hword.writing
    · intro hfit x hx
      apply (hroom (hne.mpr hfit)).2
      rw [hptr hfit]
      omega
    · intro hlt
      exact hfull (not_not.mp (mt hne.mp (not_le.mpr hlt)))
  have hboth := hword.trans halloc
  rw [Prod.mk_add_mk, hround] at hboth
  apply PutsItems.unlisted rfl hboth
  intro hclear
  have hclear₁ : ¬ bio₁.Overflowed := mt halloc.pays.sticky hclear
  have hdata : bio₁.data = bio.data + 4 := (hword.cursors hw hclear₁).1
  have hfit : roundToWord (stringSize cs.length) ≤ bio₁.dataAvail := by
    apply le_of_clear
    rwa [h₂]
  obtain ⟨hstring, hframe⟩ := hroom (hne.mpr hfit)
  rw [hptr hfit, hdata] at hstring hframe
  constructor
  · have hput : m₁.word bio.data = cs.length := by
      simpa only [h₁] using word_putUint32 (m := m) hw hlength (by rwa [h₁])
    rw [← hput]
    apply congrArg leNat
    exact Memory.read_congr (fun x _ hx => hframe x (.inl hx))
  · exact hstring
  · exact le_rfl
  · exact hshort

lemma textItem_of_short {cs : List ℕ} (h : cs.length < maxBioSize / 2) :
    textItem cs = .text cs :=
  if_pos h

lemma textItem_of_long {cs : List ℕ} (h : ¬ cs.length < maxBioSize / 2) :
    textItem cs = .noText :=
  if_neg h

/-- A string outside of the buffer is as it was once its length has been put. -/
lemma Source.read {units : ℕ → ℕ} {width str : ℕ} {cs : List ℕ}
    (h : Source units width str lo hi cs) (hw : Writing lo mid hi bio)
    (hadvances : Advances lo mid hi k m bio m' bio') :
    m'.read str (width * (cs.length + 1)) = m.read str (width * (cs.length + 1)) := by
  have hoffs := hw.offs_ge
  have hlow := hw.offs_le_data
  have hhigh := hadvances.writing.offs_le_data
  have hend := hadvances.writing.data_end
  have hapart := h.apart
  exact hadvances.frame.read (by omega) (by omega)

lemma putsString16 {cs : List ℕ} {str : ℕ} (hw : Writing lo mid hi bio) (hstr : str ≠ 0)
    (h : Source (m.units str) 2 str lo hi cs) :
    ∃ m' bio', bioPutString16 m bio str = some (m', bio') ∧
      PutsItems lo mid hi [textItem cs] m bio m' bio' := by
  by_cases hshort : cs.length < maxBioSize / 2
  · obtain ⟨m₁, bio₁, h₁⟩ : ∃ m₁ bio₁, bioPutUint32 m bio cs.length = (m₁, bio₁) := ⟨_, _, rfl⟩
    obtain ⟨ptr, bio₂, h₂⟩ : ∃ ptr bio₂, bioAlloc bio₁ (stringSize cs.length) = (ptr, bio₂) :=
      ⟨_, _, rfl⟩
    have hword : Advances lo mid hi (4, 0) m bio m₁ bio₁ := by
      simpa only [h₁] using advances_putUint32 (m := m) hw cs.length
    rw [bioPutString16_of_short hstr h.string hshort, textItem_of_short hshort, h₁]
    dsimp only
    rw [h₂]
    refine ⟨_, _, rfl, putsText hw hshort h₁ h₂ ?_ fun hzero => if_neg (not_not_intro hzero)⟩
    intro hroom
    rw [if_pos hroom, stringSize_of_short hshort, h.read hw hword]
    constructor
    · apply Memory.terminated_copy h.string
      simpa using Memory.read_write_self m₁ ptr (m.read str (2 * (cs.length + 1)))
    · intro x hx
      apply hx.elim Memory.write_of_lt
      intro hge
      apply Memory.write_of_ge
      rwa [Memory.length_read]
  · rw [textItem_of_long hshort, bioPutString16, if_neg hstr, h.string.scanLength h.length_lt]
    exact ⟨_, _, if_pos (not_lt.mp hshort), putsNoText hw⟩

lemma Memory.bytes_terminated_copy {m m' : Memory} {str : ℕ} {cs : List ℕ}
    (h : Terminated (Memory.bytes m str) cs)
    (hcopy : m'.read str (1 * (cs.length + 1)) = m.read str (1 * (cs.length + 1))) :
    Terminated (Memory.bytes m' str) cs := by
  apply h.congr
  intro i hi
  have hpart := Memory.read_part hcopy (k := i) (l := 1) (by omega)
  simp only [Memory.read, List.cons.injEq, and_true] at hpart
  exact congrArg UInt8.toNat hpart

/-- The loop ends, the copy is the string, and nothing else is written. -/
lemma widen_terminated {cs : List ℕ} {fuel ptr str : ℕ}
    (h : Terminated (Memory.bytes m str) cs) (hfuel : cs.length < fuel)
    (hapart : str + (cs.length + 1) ≤ ptr ∨ ptr + 2 * (cs.length + 1) ≤ str) :
    ∃ m', widen fuel m ptr str = some m' ∧ Terminated (m'.units ptr) cs ∧
      ∀ x, x < ptr ∨ ptr + 2 * (cs.length + 1) ≤ x → m' x = m x := by
  induction cs generalizing fuel m ptr str with
  | nil =>
    obtain ⟨fuel, rfl⟩ := Nat.exists_eq_add_of_lt hfuel
    have hzero : m str = 0 := UInt8.toNat_inj.mp h.terminator
    refine ⟨m.write ptr [0, 0], if_pos hzero, ?_, ?_⟩
    · apply Terminated.nil
      exact congrArg leNat (Memory.read_write_self m ptr [0, 0])
    · intro x hx
      apply hx.elim Memory.write_of_lt
      exact fun hge => Memory.write_of_ge hge
  | cons c cs ih =>
    obtain ⟨fuel, rfl⟩ := Nat.exists_eq_add_of_lt hfuel
    simp only [List.length_cons] at hapart hfuel ⊢
    have hunit : c = (m str).toNat := Option.some.inj (h.unit 0 (by simp))
    have hne : m str ≠ 0 := by
      intro hzero
      apply h.nonzero
      rw [hunit, hzero]
      exact List.mem_cons_self
    let m₁ := m.write ptr [m str, 0]
    have hsame {x : ℕ} (hx : x < ptr ∨ ptr + 2 ≤ x) : m₁ x = m x :=
      hx.elim Memory.write_of_lt (fun hge => Memory.write_of_ge hge)
    have htail : Terminated (Memory.bytes m₁ (str + 1)) cs := by
      apply h.tail.congr
      intro i hi
      rw [Memory.bytes, Memory.bytes, hsame (by omega), Nat.add_right_comm, Nat.add_assoc]
    have hapart : str + 1 + (cs.length + 1) ≤ ptr + 2 ∨
        ptr + 2 + 2 * (cs.length + 1) ≤ str + 1 := by
      omega
    obtain ⟨m', hm', hstring, hframe⟩ :=
      ih htail (show cs.length < cs.length + 1 + fuel by omega) hapart
    refine ⟨m', (if_neg hne).trans hm', ?_, ?_⟩
    · apply Terminated.cons
      · have hkept : m'.read ptr 2 = m₁.read ptr 2 :=
          Memory.read_congr (fun x _ hx => hframe x (by omega))
        rw [Memory.units, Nat.mul_zero, Nat.add_zero, hkept,
          show m₁.read ptr 2 = [m str, 0] from Memory.read_write_self m ptr [m str, 0], hunit]
        simp [leNat]
      · rw [hunit]
        exact fun hzero => hne (UInt8.toNat_inj.mp hzero)
      · apply hstring.congr
        intro i _
        rw [Memory.units, Memory.units, Nat.mul_add, Nat.add_right_comm, Nat.add_assoc]
    · intro x hx
      rw [hframe x (by omega), hsame (by omega)]

lemma bioPutString16X_of_short {str : ℕ} {cs : List ℕ} (hstr : str ≠ 0)
    (h : Terminated (Memory.bytes m str) cs) (hshort : cs.length < maxBioSize / 2)
    {ptr : ℕ} (h₁ : bioPutUint32 m bio cs.length = (m₁, bio₁))
    (h₂ : bioAlloc bio₁ (stringSize cs.length) = (ptr, bio₂)) :
    bioPutString16X m bio str =
      if ptr = 0 then some (m₁, bio₂)
      else (widen (2 ^ 32) m₁ ptr str).map (fun m => (m, bio₂)) := by
  have hscan : scanLength (Memory.bytes m str) (2 ^ 32) 0 = some cs.length :=
    h.scanLength (hshort.trans (by decide))
  rw [bioPutString16X, if_neg hstr, hscan]
  simp only [Option.bind_eq_bind, Option.bind_some, if_neg (not_le.mpr hshort), h₁, h₂]
  rw [Option.map_eq_bind]
  rfl

lemma putsString16X {cs : List ℕ} {str : ℕ} (hw : Writing lo mid hi bio) (hstr : str ≠ 0)
    (h : Source (Memory.bytes m str) 1 str lo hi cs) :
    ∃ m' bio', bioPutString16X m bio str = some (m', bio') ∧
      PutsItems lo mid hi [textItem cs] m bio m' bio' := by
  by_cases hshort : cs.length < maxBioSize / 2
  · obtain ⟨m₁, bio₁, h₁⟩ : ∃ m₁ bio₁, bioPutUint32 m bio cs.length = (m₁, bio₁) := ⟨_, _, rfl⟩
    obtain ⟨ptr, bio₂, h₂⟩ : ∃ ptr bio₂, bioAlloc bio₁ (stringSize cs.length) = (ptr, bio₂) :=
      ⟨_, _, rfl⟩
    have hword : Advances lo mid hi (4, 0) m bio m₁ bio₁ := by
      simpa only [h₁] using advances_putUint32 (m := m) hw cs.length
    rw [bioPutString16X_of_short hstr h.string hshort h₁ h₂, textItem_of_short hshort]
    by_cases hroom : ptr = 0
    · rw [if_pos hroom]
      exact ⟨_, _, rfl, putsText hw hshort h₁ h₂ (fun hne => absurd hroom hne) (fun _ => rfl)⟩
    · have hfit : roundToWord (stringSize cs.length) ≤ bio₁.dataAvail := by
        apply (bioAlloc_ne_zero_iff hword.writing _).mp
        rwa [h₂]
      have hptr : ptr = bio₁.data := by simpa only [h₂] using bioAlloc_fst hfit
      have hsource := Memory.bytes_terminated_copy h.string (h.read hw hword)
      have hapart : str + (cs.length + 1) ≤ ptr ∨ ptr + 2 * (cs.length + 1) ≤ str := by
        have hround := roundToWord_stringSize hshort
        have hsize := stringSize_le_messageSize cs.length
        have hend := hword.writing.data_end
        have hlow := hw.offs_le_data
        have hoffs := hw.offs_ge
        have hdata := hword.data_le
        have happart := h.apart
        omega
      obtain ⟨m₂, hm₂, hstring, hframe⟩ :=
        widen_terminated hsource (hshort.trans (by decide) : cs.length < 2 ^ 32) hapart
      rw [if_neg hroom, hm₂]
      exact ⟨_, _, rfl, putsText hw hshort h₁ h₂ (fun _ => ⟨hstring, hframe⟩)
        (fun hzero => absurd hzero hroom)⟩
  · rw [textItem_of_long hshort, bioPutString16X, if_neg hstr, h.string.scanLength h.length_lt]
    exact ⟨_, _, if_pos (not_lt.mp hshort), putsNoText hw⟩

section Objects

variable {obj type pointer : ℕ}

lemma storeObject_of_disjoint {x : ℕ} (h : x < obj ∨ obj + objectSize ≤ x) :
    Memory.storeObject m obj type pointer x = m x := by
  unfold objectSize at h
  unfold Memory.storeObject
  rw [Memory.setWord_of_disjoint (by omega), Memory.setWord_of_disjoint (by omega),
    Memory.setWord_of_disjoint (by omega), Memory.setWord_of_disjoint (by omega)]

lemma holdsObject_storeObject (htype : type < 2 ^ 32) (hpointer : pointer < 2 ^ 32) :
    HoldsObject (Memory.storeObject m obj type pointer) obj type pointer := by
  unfold Memory.storeObject
  constructor
  · rw [Memory.word_setWord_of_disjoint (by omega), Memory.word_setWord_of_disjoint (by omega),
      Memory.word_setWord_of_lt htype]
  · rw [Memory.word_setWord_of_disjoint (by omega), Memory.word_setWord_of_disjoint (by omega),
      Memory.word_setWord_of_disjoint (by omega), Memory.word_setWord_of_lt (by decide)]
  · rw [Memory.word_setWord_of_disjoint (by omega), Memory.word_setWord_of_lt hpointer]
  · rw [Memory.word_setWord_of_lt (by decide)]

/-- The cursor of the offsets moves over one entry. -/
def BinderIo.enter (bio : BinderIo) : BinderIo :=
  { bio with offsAvail := bio.offsAvail - 1, offs := bio.offs + 4 }

lemma bioAlloc_object (h : objectSize ≤ bio.dataAvail) :
    bioAlloc bio objectSize = (bio.data, bio.advance objectSize) :=
  bioAlloc_of_le h

lemma bioAllocObj_of_lt (h : bio.dataAvail < objectSize) :
    bioAllocObj m bio = (0, m, (bio.setFlag bioOverflow).setFlag bioOverflow) := by
  rw [bioAllocObj, bioAlloc_of_lt h]
  exact if_neg (fun hboth => hboth.1 rfl)

lemma bioAllocObj_of_full (h : objectSize ≤ bio.dataAvail) (hfull : bio.offsAvail = 0) :
    bioAllocObj m bio = (0, m, (bio.advance objectSize).setFlag bioOverflow) := by
  rw [bioAllocObj, bioAlloc_object h]
  exact if_neg (fun hboth => hboth.2 hfull)

lemma bioAllocObj_of_room (hw : Writing lo mid hi bio) (h : objectSize ≤ bio.dataAvail)
    (hroom : bio.offsAvail ≠ 0) :
    bioAllocObj m bio =
      (bio.data, m.setWord bio.offs (bio.data - bio.data0), (bio.advance objectSize).enter) := by
  rw [bioAllocObj, bioAlloc_object h]
  exact if_pos ⟨hw.data_pos.ne', hroom⟩

/-- An object with its entry is named by it. -/
lemma NamesObjects.push {entries : List ℕ} (h : NamesObjects m bio entries)
    (hw : Writing lo mid hi bio) (hroom : bio.offsAvail ≠ 0)
    (hframe : WrittenBetween bio (bio.advance objectSize).enter m m')
    (hentry : m'.word bio.offs = bio.data - mid) (hobject : HoldsObject m' bio.data type pointer) :
    NamesObjects m' (bio.advance objectSize).enter (entries ++ [bio.data - mid]) := by
  have hoffs := hw.offs_end
  have hdata := hw.data_ge
  have hoffs0 := hw.offs0
  have hdata0 := hw.data0
  have hfull := h.full
  constructor
  · have hkept : m'.words bio.offs0 entries.length = m.words bio.offs0 entries.length := by
      apply Memory.words_copy
      exact hframe.read (by omega) (by omega)
    rw [List.length_append, Memory.words_add, List.length_singleton, Memory.words_one]
    simp only [BinderIo.enter, BinderIo.advance]
    rw [hkept, h.table, ← hfull, hentry]
  · simp only [BinderIo.enter, BinderIo.advance, List.length_append, List.length_singleton]
    omega
  · intro o ho
    simp only [BinderIo.enter, BinderIo.advance]
    obtain hold | hnew := List.mem_append.mp ho
    · obtain ⟨haligned, hinside, type, pointer, hheld⟩ := h.object o hold
      refine ⟨haligned, by omega, type, pointer, ?_⟩
      apply Item.Held.copy (i := .object type pointer) hheld
      apply hframe.read
      · simp only [BinderIo.enter, BinderIo.advance]
        omega
      · simp only [Item.size]
        omega
    · obtain rfl := List.mem_singleton.mp hnew
      refine ⟨hw.aligned, by omega, type, pointer, ?_⟩
      rwa [hdata0, Nat.add_sub_cancel' hdata]
  · rw [List.pairwise_append]
    refine ⟨h.apart, List.pairwise_singleton _ _, ?_⟩
    intro o ho o' ho'
    have hinside := (h.object o ho).2.1
    rw [List.mem_singleton.mp ho']
    omega

lemma putsObject_of_room (hw : Writing lo mid hi bio) (htype : type < 2 ^ 32)
    (hpointer : pointer < 2 ^ 32) (hdata : objectSize ≤ bio.dataAvail)
    (hroom : bio.offsAvail ≠ 0) :
    PutsItems lo mid hi [.object type pointer] m bio
      (Memory.storeObject (m.setWord bio.offs (bio.data - bio.data0)) bio.data type pointer)
      (bio.advance objectSize).enter := by
  have hcosts : Item.costs [.object type pointer] = (objectSize, 1) := rfl
  have hadvance : Advances lo mid hi (objectSize, 0) m bio m (bio.advance objectSize) :=
    .advance hw hdata rfl fun _ _ => rfl
  have hw' : Writing lo mid hi (bio.advance objectSize).enter :=
    { hadvance.writing with
      offs_ge := hw.offs_ge.trans (Nat.le_add_right _ 4)
      offs_end := by
        have hend := hw.offs_end
        simp only [BinderIo.enter, BinderIo.advance]
        omega }
  have hoffs := hw.offs_end
  have hdata0 := hw.data0
  have hge := hw.data_ge
  have hend := hw.data_end
  have hhi := hw.hi_le
  let m₁ := m.setWord bio.offs (bio.data - bio.data0)
  let m₂ := Memory.storeObject m₁ bio.data type pointer
  have hframe : WrittenBetween bio (bio.advance objectSize).enter m m₂ := by
    intro x hxoffs hxdata
    exact (storeObject_of_disjoint hxdata).trans (Memory.setWord_of_disjoint hxoffs)
  have hobject : HoldsObject m₂ bio.data type pointer := holdsObject_storeObject htype hpointer
  have hentry : m₂.word bio.offs = bio.data - mid := by
    have hkept : m₂.read bio.offs 4 = m₁.read bio.offs 4 :=
      Memory.read_congr (fun x _ hx => storeObject_of_disjoint (by omega))
    rw [Memory.word, hkept, ← hdata0]
    exact Memory.word_setWord_of_lt (by omega)
  have hadvances : Advances lo mid hi (objectSize, 1) m bio m₂ (bio.advance objectSize).enter :=
    { writing := hw'
      pays :=
        { sticky := id
          covered_iff := fun h => iff_of_true h ⟨hdata, Nat.pos_of_ne_zero hroom⟩
          spent := fun _ => Prod.ext (Nat.sub_add_cancel hdata).symm
            (Nat.sub_add_cancel (Nat.pos_of_ne_zero hroom)).symm }
      offs_le := Nat.le_add_right _ 4
      data_le := Nat.le_add_right _ _
      frame := hframe
      names := fun entries h => ⟨_, h.push hw hroom hframe hentry hobject⟩ }
  exact
    { toAdvances := hadvances
      laid := fun _ => Item.laid_singleton.mpr hobject
      table := fun _ => by
        rw [hcosts, Memory.words_one, hentry]
        rfl }

lemma putsObject (hw : Writing lo mid hi bio) (htype : type < 2 ^ 32)
    (hpointer : pointer < 2 ^ 32) (h : bioAllocObj m bio = (obj, m₁, bio₁)) :
    PutsItems lo mid hi [.object type pointer] m bio
      (if obj ≠ 0 then Memory.storeObject m₁ obj type pointer else m₁) bio₁ := by
  have hcosts : Item.costs [.object type pointer] = (objectSize, 1) := rfl
  by_cases hdata : objectSize ≤ bio.dataAvail
  · by_cases hroom : bio.offsAvail = 0
    · rw [bioAllocObj_of_full hdata hroom] at h
      obtain ⟨rfl, rfl, rfl⟩ := h
      have hadvance : Advances lo mid hi (objectSize, 0) m bio m (bio.advance objectSize) :=
        .advance hw hdata rfl fun _ _ => rfl
      have hw' : Writing lo mid hi ((bio.advance objectSize).setFlag bioOverflow) :=
        { hadvance.writing with }
      refine .overflowed (.overflow hw hw' (overflowed_setFlag _) ?_ rfl hadvance.data_le)
        (overflowed_setFlag _)
      rw [hcosts, hroom]
      exact fun hle => absurd hle.2 Nat.one_ne_zero.bot_lt.not_ge
    · rw [bioAllocObj_of_room hw hdata hroom] at h
      obtain ⟨rfl, rfl, rfl⟩ := h
      rw [if_pos hw.data_pos.ne']
      exact putsObject_of_room hw htype hpointer hdata hroom
  · rw [bioAllocObj_of_lt (not_le.mp hdata)] at h
    obtain ⟨rfl, rfl, rfl⟩ := h
    have hw' : Writing lo mid hi ((bio.setFlag bioOverflow).setFlag bioOverflow) := { hw with }
    exact .overflowed (.overflow hw hw' (overflowed_setFlag _) (fun hle => hdata hle.1) rfl le_rfl)
      (overflowed_setFlag _)

lemma bioPutRef_of_ne (hne : pointer ≠ 0) (h : bioAllocObj m bio = (obj, m₁, bio₁)) :
    bioPutRef m bio pointer =
      (if obj ≠ 0 then Memory.storeObject m₁ obj binderTypeHandle pointer else m₁, bio₁) := by
  rw [bioPutRef, if_pos hne, h]

lemma putsNullRef (hw : Writing lo mid hi bio)
    (h : bioAlloc bio objectSize = (obj, bio₁)) :
    PutsItems lo mid hi [.nullRef] m bio
      (if obj ≠ 0 then Memory.storeObject m obj binderTypeHandle 0 else m) bio₁ := by
  have hobj : obj = (bioAlloc bio objectSize).1 := by rw [h]
  obtain rfl : bio₁ = (bioAlloc bio objectSize).2 := by rw [h]
  have hne : obj ≠ 0 ↔ objectSize ≤ bio.dataAvail := by
    rw [hobj]
    exact bioAlloc_ne_zero_iff hw objectSize
  have hptr (hfit : objectSize ≤ bio.dataAvail) : obj = bio.data := by
    rw [hobj, bioAlloc_object hfit]
  apply PutsItems.unlisted rfl
  · apply Advances.alloc hw objectSize
    · intro hfit x hx
      rw [if_pos (hne.mpr hfit), hptr hfit]
      exact storeObject_of_disjoint hx
    · exact fun hlt => if_neg (mt hne.mp (not_le.mpr hlt))
  · intro hclear
    have hfit : objectSize ≤ bio.dataAvail := le_of_clear objectSize hclear
    rw [if_pos (hne.mpr hfit), hptr hfit]
    exact holdsObject_storeObject (by decide) (by decide)

end Objects

/-- Every put function puts its item. -/
theorem PutsItem.puts {put : Put} {i : Item} (h : PutsItem m lo hi put i)
    (hw : Writing lo mid hi bio) :
    ∃ m' bio', put.run m bio = some (m', bio') ∧ PutsItems lo mid hi [i] m bio m' bio' := by
  cases h with
  | uint32 hn => exact ⟨_, _, rfl, putsWord hw hn⟩
  | string16 hstr hsource => exact putsString16 hw hstr hsource
  | string16X hstr hsource => exact putsString16X hw hstr hsource
  | noString16 => exact ⟨_, _, rfl, putsNoText hw⟩
  | noString16X => exact ⟨_, _, rfl, putsNoText hw⟩
  | obj hptr => exact ⟨_, _, rfl, putsObject hw (by decide) hptr rfl⟩
  | ref hne hptr =>
    obtain ⟨obj, m₁, bio₁, hobj⟩ : ∃ obj m₁ bio₁, bioAllocObj m bio = (obj, m₁, bio₁) :=
      ⟨_, _, _, rfl⟩
    exact ⟨_, _, congrArg some (bioPutRef_of_ne hne hobj), putsObject hw (by decide) hptr hobj⟩
  | nullRef => exact ⟨_, _, rfl, putsNullRef hw rfl⟩

/-- Strings outside of the buffer stay there. -/
lemma PutsItem.kept {put : Put} {i : Item} (h : PutsItem m lo hi put i)
    (hsame : ∀ x, x < lo ∨ hi ≤ x → m' x = m x) : PutsItem m' lo hi put i := by
  have hread {width str len : ℕ} (hapart : str + width * (len + 1) ≤ lo ∨ hi ≤ str) :
      m'.read str (width * (len + 1)) = m.read str (width * (len + 1)) :=
    Memory.read_congr (fun x hx hx' => hsame x (by omega))
  cases h with
  | uint32 hn => exact .uint32 hn
  | string16 hstr hsource =>
    exact .string16 hstr
      { hsource with string := Memory.terminated_copy hsource.string (hread hsource.apart) }
  | string16X hstr hsource =>
    exact .string16X hstr
      { hsource with string := Memory.bytes_terminated_copy hsource.string (hread hsource.apart) }
  | noString16 => exact .noString16
  | noString16X => exact .noString16X
  | obj hptr => exact .obj hptr
  | ref hne hptr => exact .ref hne hptr
  | nullRef => exact .nullRef

lemma Advances.same (h : Advances lo mid hi k m bio m' bio') (hw : Writing lo mid hi bio) {x : ℕ}
    (hx : x < lo ∨ hi ≤ x) : m' x = m x := by
  have hoffs := hw.offs_ge
  have hdata := hw.offs_le_data
  have hhigh := h.writing.offs_le_data
  have hend := h.writing.data_end
  exact h.frame x (by omega) (by omega)

/-- A list of puts puts its items. -/
theorem puts_putAll {m₀ : Memory} {puts : List Put}
    (h : List.Forall₂ (PutsItem m₀ lo hi) puts items)
    (hsame : ∀ x, x < lo ∨ hi ≤ x → m x = m₀ x) (hw : Writing lo mid hi bio) :
    ∃ m' bio', putAll m bio puts = some (m', bio') ∧ PutsItems lo mid hi items m bio m' bio' := by
  induction h generalizing m bio with
  | nil => exact ⟨m, bio, rfl, .nil hw⟩
  | cons hput _ ih =>
    obtain ⟨m₁, bio₁, hrun, hfirst⟩ := (hput.kept hsame).puts hw
    have hsame₁ : ∀ x, x < lo ∨ hi ≤ x → m₁ x = m₀ x :=
      fun x hx => (hfirst.same hw hx).trans (hsame x hx)
    obtain ⟨m₂, bio₂, hrest, hitems⟩ := ih hsame₁ hfirst.writing
    refine ⟨m₂, bio₂, ?_, hfirst.trans hw hitems⟩
    rw [putAll, hrun]
    exact hrest

end Steps

end ExpressOS

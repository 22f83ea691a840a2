import ExpressOS.Systems.WideStrings

/-!
# Binder messages

`struct binder_io` of `bench-binder/binder.c` is a cursor over the data and the object offsets of
a message. A put that does not fit and a get past the end set a flag, and nothing clears it.
-/

namespace ExpressOS
open Systems

def maxBioSize : ℕ := 2 ^ 30

def bioShared : ℕ := 0x01
def bioOverflow : ℕ := 0x02
def bioIoerror : ℕ := 0x04

/-- The fields of `struct binder_io`, addresses and counts of bytes or entries. -/
structure BinderIo where
  data : ℕ
  offs : ℕ
  dataAvail : ℕ
  offsAvail : ℕ
  data0 : ℕ
  offs0 : ℕ
  flags : ℕ
  deriving DecidableEq, Repr, Inhabited

structure BinderTxn where
  target : ℕ
  cookie : ℕ
  code : ℕ
  flags : ℕ
  senderPid : ℕ
  senderEuid : ℕ
  dataSize : ℕ
  offsSize : ℕ
  data : ℕ
  offs : ℕ
  deriving DecidableEq, Repr

/-- `data += n` and `data_avail -= n` -/
def BinderIo.advance (bio : BinderIo) (n : ℕ) : BinderIo :=
  { bio with data := bio.data + n, dataAvail := bio.dataAvail - n }

def BinderIo.setFlag (bio : BinderIo) (flag : ℕ) : BinderIo :=
  { bio with flags := bio.flags ||| flag }

/-- In the overflow branch the pointers keep what they were. -/
def bioInit (bio : BinderIo) (data maxdata maxoffs : ℕ) : BinderIo :=
  let n := maxoffs * 4 % 2 ^ 32
  if n > maxdata then { bio with flags := bioOverflow, dataAvail := 0, offsAvail := 0 }
  else
    { data := data + n
      offs := data
      dataAvail := maxdata - n
      offsAvail := maxoffs
      data0 := data + n
      offs0 := data
      flags := 0 }

def bioInitFromTxn (txn : BinderTxn) : BinderIo where
  data := txn.data
  offs := txn.offs
  dataAvail := txn.dataSize
  offsAvail := txn.offsSize / 4
  data0 := txn.data
  offs0 := txn.offs
  flags := bioShared

/-- `(size + 3) & (~3)` -/
def roundToWord (size : ℕ) : ℕ :=
  (size + 3) % 2 ^ 32 / 4 * 4

/-- `(len + 1) * sizeof(uint16_t)` -/
def stringSize (len : ℕ) : ℕ :=
  (len + 1) * 2 % 2 ^ 32

/-- The pointer is `0` where there is no room. -/
def bioAlloc (bio : BinderIo) (size : ℕ) : ℕ × BinderIo :=
  let size := roundToWord size
  if size > bio.dataAvail then (0, bio.setFlag bioOverflow)
  else (bio.data, bio.advance size)

def bioPutUint32 (m : Memory) (bio : BinderIo) (n : ℕ) : Memory × BinderIo :=
  let (ptr, bio) := bioAlloc bio 4
  (if ptr ≠ 0 then m.setWord ptr n else m, bio)

/-- `len` is a 32-bit counter: after `2 ^ 32` units without a zero the scan has come back to the
first of them and never ends, which is `none`. -/
def bioPutString16 (m : Memory) (bio : BinderIo) (str : ℕ) : Option (Memory × BinderIo) :=
  if str = 0 then some (bioPutUint32 m bio 0xffffffff)
  else do
    let len ← scanLength (m.units str) (2 ^ 32) 0
    if len ≥ maxBioSize / 2 then return bioPutUint32 m bio 0xffffffff
    let (m, bio) := bioPutUint32 m bio len
    let (ptr, bio) := bioAlloc bio (stringSize len)
    return (if ptr ≠ 0 then m.write ptr (m.read str (stringSize len)) else m, bio)

def bioGet (bio : BinderIo) (size : ℕ) : ℕ × BinderIo :=
  let size := roundToWord size
  if bio.dataAvail < size then (0, { bio.setFlag bioOverflow with dataAvail := 0 })
  else (bio.data, bio.advance size)

def bioGetUint32 (m : Memory) (bio : BinderIo) : ℕ × BinderIo :=
  let (ptr, bio) := bioGet bio 4
  (if ptr ≠ 0 then m.word ptr else 0, bio)

/-- What `bio_get_string16` returns, the length it stores through `sz`, and the message after. -/
structure GotString where
  str : ℕ
  len : ℕ
  bio : BinderIo

def bioGetString16 (m : Memory) (bio : BinderIo) : GotString :=
  let (len, bio) := bioGetUint32 m bio
  let (ptr, bio) := bioGet bio (stringSize len)
  ⟨ptr, len, bio⟩

/-- The bytes a string of `len` units takes in a message: its length, its units and terminator,
rounded up to words. -/
def messageSize (len : ℕ) : ℕ :=
  4 + (2 * len + 5) / 4 * 4

/-- The `n` bytes at `p` begin with the message that carries `cs`. -/
structure HoldsString (m : Memory) (p n : ℕ) (cs : List ℕ) : Prop where
  word : m.word p = cs.length
  string : Terminated (m.units (p + 4)) cs
  size : messageSize cs.length ≤ n
  short : cs.length < maxBioSize / 2

/-- Wherever these bytes are stored, the message carries `cs`. -/
def Spells (bytes : List UInt8) (cs : List ℕ) : Prop :=
  ∀ (m : Memory) (p : ℕ), m.read p bytes.length = bytes → HoldsString m p bytes.length cs

section Rounding

variable {len : ℕ}

@[simp] lemma roundToWord_four : roundToWord 4 = 4 := rfl

lemma stringSize_of_short (h : len < maxBioSize / 2) : stringSize len = 2 * (len + 1) := by
  unfold maxBioSize at h
  unfold stringSize
  omega

lemma roundToWord_stringSize (h : len < maxBioSize / 2) :
    4 + roundToWord (stringSize len) = messageSize len := by
  rw [stringSize_of_short h]
  unfold maxBioSize at h
  unfold roundToWord messageSize
  omega

lemma stringSize_le_messageSize (len : ℕ) : 4 + 2 * (len + 1) ≤ messageSize len := by
  unfold messageSize
  omega

end Rounding

section Cursors

variable {m m' : Memory} {bio : BinderIo} {size p p' n : ℕ} {cs : List ℕ}

lemma bioAlloc_of_le (h : roundToWord size ≤ bio.dataAvail) :
    bioAlloc bio size = (bio.data, bio.advance (roundToWord size)) :=
  if_neg (by omega)

lemma bioAlloc_of_lt (h : bio.dataAvail < roundToWord size) :
    bioAlloc bio size = (0, bio.setFlag bioOverflow) :=
  if_pos h

lemma bioGet_of_le (h : roundToWord size ≤ bio.dataAvail) :
    bioGet bio size = (bio.data, bio.advance (roundToWord size)) :=
  if_neg (by omega)

lemma bioGet_of_lt (h : bio.dataAvail < roundToWord size) :
    bioGet bio size = (0, { bio.setFlag bioOverflow with dataAvail := 0 }) :=
  if_pos h

lemma BinderIo.advance_advance (bio : BinderIo) (j k : ℕ) :
    (bio.advance j).advance k = bio.advance (j + k) := by
  simp only [BinderIo.advance, Nat.add_assoc, Nat.sub_sub]

lemma bioPutUint32_of_le (hdata : bio.data ≠ 0) (h : 4 ≤ bio.dataAvail) (n : ℕ) :
    bioPutUint32 m bio n = (m.setWord bio.data n, bio.advance 4) := by
  rw [bioPutUint32, bioAlloc_of_le (by rwa [roundToWord_four])]
  simp [hdata]

lemma bioGetUint32_of_le (hdata : bio.data ≠ 0) (h : 4 ≤ bio.dataAvail) :
    bioGetUint32 m bio = (m.word bio.data, bio.advance 4) := by
  rw [bioGetUint32, bioGet_of_le (by rwa [roundToWord_four])]
  simp [hdata]

lemma HoldsString.string_le (h : HoldsString m p n cs) : 4 + 2 * (cs.length + 1) ≤ n :=
  (stringSize_le_messageSize _).trans h.size

/-- A copy of the bytes of a message carries the same string. -/
lemma HoldsString.copy (h : HoldsString m p n cs) (hcopy : m'.read p' n = m.read p n) :
    HoldsString m' p' n cs where
  word := by
    have hsize := h.string_le
    rw [← h.word]
    exact Memory.word_part (k := 0) hcopy (by omega)
  string := by
    apply Memory.terminated_copy h.string
    apply Memory.read_part hcopy
    exact h.string_le
  size := h.size
  short := h.short

lemma HoldsString.spells (h : HoldsString m p n cs) : Spells (m.read p n) cs := by
  intro m' p' hbytes
  rw [Memory.length_read] at hbytes ⊢
  exact h.copy hbytes

lemma bioPutString16_of_short {str : ℕ} (hstr : str ≠ 0) (h : Terminated (m.units str) cs)
    (hshort : cs.length < maxBioSize / 2) :
    bioPutString16 m bio str =
      let (m, bio) := bioPutUint32 m bio cs.length
      let (ptr, bio) := bioAlloc bio (stringSize cs.length)
      some (if ptr ≠ 0 then m.write ptr (m.read str (stringSize cs.length)) else m, bio) := by
  have hscan : scanLength (m.units str) (2 ^ 32) 0 = some cs.length :=
    h.scanLength (by unfold maxBioSize at hshort; omega)
  rw [bioPutString16, if_neg hstr, hscan]
  exact if_neg (by omega)

/-- A string that fits is put whole, and nothing else changes. -/
theorem bioPutString16_of_le {str : ℕ} (hdata : bio.data ≠ 0) (hstr : str ≠ 0)
    (h : Terminated (m.units str) cs) (hshort : cs.length < maxBioSize / 2)
    (hfit : messageSize cs.length ≤ bio.dataAvail)
    (hapart : str + 2 * (cs.length + 1) ≤ bio.data ∨ bio.data + 4 ≤ str) :
    ∃ m', bioPutString16 m bio str = some (m', bio.advance (messageSize cs.length)) ∧
      HoldsString m' bio.data (messageSize cs.length) cs ∧
      ∀ a k, a + k ≤ bio.data ∨ bio.data + messageSize cs.length ≤ a →
        m'.read a k = m.read a k := by
  have hsize := stringSize_le_messageSize cs.length
  have hround := roundToWord_stringSize hshort
  let m₁ := m.setWord bio.data cs.length
  have hcopied : m₁.read str (2 * (cs.length + 1)) = m.read str (2 * (cs.length + 1)) :=
    Memory.read_setWord_of_disjoint hapart
  let m₂ := m₁.write (bio.data + 4) (m₁.read str (2 * (cs.length + 1)))
  refine ⟨m₂, ?_, ?_, ?_⟩
  · rw [bioPutString16_of_short hstr h hshort, bioPutUint32_of_le hdata (by omega)]
    dsimp only
    rw [bioAlloc_of_le (by simp only [BinderIo.advance]; omega), BinderIo.advance_advance, hround]
    simp [BinderIo.advance, m₂, m₁, stringSize_of_short hshort]
  · have hword : m₂.word bio.data = m₁.word bio.data := by
      apply congrArg leNat
      exact Memory.read_write_of_le le_rfl
    have hstring : m₂.read (bio.data + 4) (2 * (cs.length + 1)) =
        m.read str (2 * (cs.length + 1)) := by
      rw [← hcopied]
      simpa [m₂] using Memory.read_write_self m₁ (bio.data + 4)
        (m₁.read str (2 * (cs.length + 1)))
    refine ⟨?_, Memory.terminated_copy h hstring, le_rfl, hshort⟩
    rw [hword, Memory.word, Memory.read_setWord_self, leNat_leBytes_word]
    unfold maxBioSize at hshort
    omega
  · intro a k hak
    have houter : m₂.read a k = m₁.read a k := by
      apply hak.elim
      · intro hle
        exact Memory.read_write_of_le (by omega)
      · intro hge
        exact Memory.read_write_of_ge (by simp only [Memory.length_read]; omega)
    rw [houter]
    exact Memory.read_setWord_of_disjoint (by omega)

/-- Of a string that does not fit the length is put, and the flag is set. -/
theorem bioPutString16_of_lt {str : ℕ} (hdata : bio.data ≠ 0) (hstr : str ≠ 0)
    (h : Terminated (m.units str) cs) (hshort : cs.length < maxBioSize / 2)
    (hword : 4 ≤ bio.dataAvail) (hfull : bio.dataAvail < messageSize cs.length) :
    bioPutString16 m bio str =
      some (m.setWord bio.data cs.length, (bio.advance 4).setFlag bioOverflow) := by
  have hround := roundToWord_stringSize hshort
  rw [bioPutString16_of_short hstr h hshort, bioPutUint32_of_le hdata hword]
  dsimp only
  rw [bioAlloc_of_lt (by simp only [BinderIo.advance]; omega)]
  simp

/-- What holds a string is got as that string. -/
theorem bioGetString16_of_holds (hdata : bio.data ≠ 0)
    (h : HoldsString m bio.data bio.dataAvail cs) :
    bioGetString16 m bio =
      ⟨bio.data + 4, cs.length, bio.advance (messageSize cs.length)⟩ := by
  have hsize := h.size
  have hround := roundToWord_stringSize h.short
  have hword : 4 ≤ bio.dataAvail := by omega
  rw [bioGetString16, bioGetUint32_of_le hdata hword, h.word]
  dsimp only
  rw [bioGet_of_le (by simp only [BinderIo.advance]; omega), BinderIo.advance_advance, hround]
  rfl

/-- A length with no string behind it gives no string. -/
theorem bioGetString16_of_missing {len : ℕ} (hdata : bio.data ≠ 0) (havail : bio.dataAvail = 4)
    (hlen : m.word bio.data = len) (hshort : len < maxBioSize / 2) :
    (bioGetString16 m bio).str = 0 := by
  have hround := roundToWord_stringSize hshort
  have hsize := stringSize_le_messageSize len
  rw [bioGetString16, bioGetUint32_of_le hdata (by omega), hlen]
  dsimp only
  rw [bioGet_of_lt (by simp only [BinderIo.advance]; omega)]

end Cursors

end ExpressOS

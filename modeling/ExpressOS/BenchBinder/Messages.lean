import ExpressOS.BenchBinder.BinderCall
import ExpressOS.BenchBinder.Gets
import ExpressOS.BenchBinder.Puts

/-!
# Messages between processes

A message is put into a buffer, handed to the driver and got from where the driver has stored it.
The puts stay in their buffer; the request is sent exactly when everything has fitted; and then
the receiver gets what was put, up to the first null reference.
-/

namespace ExpressOS
open Systems

/-- A buffer of `maxdata` bytes at `buf`, with room for `maxoffs` offsets. -/
structure IsBuffer (buf maxdata maxoffs : ℕ) : Prop where
  pos : 0 < buf
  offs_le : 4 * maxoffs ≤ maxdata
  fits : buf + maxdata ≤ 2 ^ 32

/-- What the buffer has for the items of a message. -/
def capacity (maxdata maxoffs : ℕ) : ℕ × ℕ :=
  (maxdata - 4 * maxoffs, maxoffs)

/-- Wherever the bytes of the transfer are stored, they are the items and the places of the listed
objects. -/
structure Transfer.Says (t : Transfer) (items : List Item) : Prop where
  size : t.data.length = (Item.costs items).1
  entries : t.offs.length = 4 * (Item.costs items).2
  data : ∀ (m : Memory) (p : ℕ), m.read p t.data.length = t.data → Item.Laid m p items
  offs : ∀ (m : Memory) (p : ℕ), m.read p t.offs.length = t.offs →
    m.words p (Item.costs items).2 = Item.offsets 0 items

section Sending

variable {m : Memory} {buf maxdata maxoffs : ℕ} {puts : List Put} {items : List Item}

lemma IsBuffer.bioInit (h : IsBuffer buf maxdata maxoffs) (bio : BinderIo) :
    bioInit bio buf maxdata maxoffs =
      ⟨buf + 4 * maxoffs, buf, maxdata - 4 * maxoffs, maxoffs, buf + 4 * maxoffs, buf, 0⟩ := by
  have hpos := h.pos
  have hle := h.offs_le
  have hfits := h.fits
  have hsmall : maxoffs * 4 % 2 ^ 32 = 4 * maxoffs := by omega
  rw [ExpressOS.bioInit, hsmall]
  exact if_neg (not_lt.mpr hle)

lemma IsBuffer.writing (h : IsBuffer buf maxdata maxoffs) (bio : BinderIo) :
    Writing buf (buf + 4 * maxoffs) (buf + maxdata)
      (ExpressOS.bioInit bio buf maxdata maxoffs) := by
  have hle := h.offs_le
  rw [h.bioInit]
  constructor
  · exact h.pos
  · exact h.fits
  · rfl
  · rfl
  · exact le_rfl
  · rfl
  · exact le_rfl
  · simp
  · dsimp only
    omega

lemma IsBuffer.namesNothing (h : IsBuffer buf maxdata maxoffs) (bio : BinderIo) :
    NamesObjects m (ExpressOS.bioInit bio buf maxdata maxoffs) [] := by
  rw [h.bioInit]
  constructor
  · rfl
  · rfl
  · nofun
  · exact List.Pairwise.nil

/-- Whatever is put and whether it fits or not: memory outside of the buffer stays as it was, the
cursors stay in the buffer, and the offsets name whole objects of the data, at most `maxoffs`. -/
theorem putAll_inside (hbuffer : IsBuffer buf maxdata maxoffs)
    (hputs : List.Forall₂ (PutsItem m buf (buf + maxdata)) puts items) (bio : BinderIo) :
    ∃ m' bio', putAll m (bioInit bio buf maxdata maxoffs) puts = some (m', bio') ∧
      (∀ x, x < buf ∨ buf + maxdata ≤ x → m' x = m x) ∧
      Writing buf (buf + 4 * maxoffs) (buf + maxdata) bio' ∧
      ∃ entries, entries.length + bio'.offsAvail = maxoffs ∧ NamesObjects m' bio' entries := by
  have hw := hbuffer.writing bio
  obtain ⟨m', bio', hrun, hitems⟩ := puts_putAll hputs (fun _ _ => rfl) hw
  obtain ⟨entries, hentries⟩ := hitems.names [] (hbuffer.namesNothing bio)
  refine ⟨m', bio', hrun, fun x hx => hitems.same hw hx, hitems.writing, _, ?_, hentries⟩
  have hfull := hentries.full
  have hoffs0 := hitems.writing.offs0
  have hend := hitems.writing.offs_end
  omega

theorem putAll_inside_wordAndObject :
    ∃ m' bio', putAll (fun _ => 0) (bioInit default 4096 32 1) [.uint32 5, .obj 7, .obj 8] =
        some (m', bio') ∧
      (∀ x, x < 4096 ∨ 4096 + 32 ≤ x → m' x = 0) ∧
      Writing 4096 (4096 + 4 * 1) (4096 + 32) bio' ∧
      ∃ entries, entries.length + bio'.offsAvail = 1 ∧ NamesObjects m' bio' entries :=
  putAll_inside ⟨by decide, by decide, by decide⟩
    (.cons (.uint32 (by decide)) (.cons (.obj (by decide)) (.cons (.obj (by decide)) .nil))) default

/-- What has been put without overflow is what the driver is given. -/
lemma PutsItems.says {lo mid hi : ℕ} {m' : Memory} {bio bio' : BinderIo}
    (h : PutsItems lo mid hi items m bio m' bio') (hw : Writing lo mid hi bio)
    (hoffs : bio.offs = lo) (hdata : bio.data = mid) (hclear : ¬ bio'.Overflowed)
    (target code : ℕ) : (bioTransfer m' bio' target code).Says items := by
  obtain ⟨hdata', hoffs'⟩ := h.cursors hw hclear
  have hsize : bio'.data - bio'.data0 = (Item.costs items).1 := by
    rw [hdata', h.writing.data0, hdata, Nat.add_sub_cancel_left]
  have hentries : bio'.offs - bio'.offs0 = 4 * (Item.costs items).2 := by
    rw [hoffs', h.writing.offs0, hoffs, Nat.add_sub_cancel_left]
  have hlaid := h.laid hclear
  have htable := h.table hclear
  rw [hdata, Nat.sub_self, hoffs] at htable
  constructor
  · rw [bioTransfer, Memory.length_read, hsize]
  · rw [bioTransfer, Memory.length_read, hentries]
  · intro m'' p hcopy
    rw [bioTransfer, Memory.length_read, hsize, h.writing.data0, ← hdata] at hcopy
    exact hlaid.copy hcopy
  · intro m'' p hcopy
    rw [bioTransfer, Memory.length_read, hentries, h.writing.offs0] at hcopy
    rw [← htable]
    exact Memory.words_copy hcopy

lemma binderRequest_of_clear {bio : BinderIo} (h : ¬ bio.Overflowed) (target code : ℕ) :
    binderRequest m bio target code = some (bioTransfer m bio target code) :=
  if_neg h

lemma IsBuffer.clear_iff (h : IsBuffer buf maxdata maxoffs) {bio bio' : BinderIo} {m' : Memory}
    (hitems : PutsItems buf (buf + 4 * maxoffs) (buf + maxdata) items m
      (ExpressOS.bioInit bio buf maxdata maxoffs) m' bio') :
    ¬ bio'.Overflowed ↔ Item.costs items ≤ capacity maxdata maxoffs := by
  have hclear : ¬ (ExpressOS.bioInit bio buf maxdata maxoffs).Overflowed := by
    rw [h.bioInit]
    exact not_not_intro (Nat.zero_and _)
  rw [show capacity maxdata maxoffs =
    messageBudget.left (ExpressOS.bioInit bio buf maxdata maxoffs) by rw [h.bioInit]; rfl]
  exact hitems.pays.covered_iff hclear

lemma request_of_fits (hbuffer : IsBuffer buf maxdata maxoffs)
    (hputs : List.Forall₂ (PutsItem m buf (buf + maxdata)) puts items)
    (hfits : Item.costs items ≤ capacity maxdata maxoffs) (bio : BinderIo) (target code : ℕ) :
    ∃ m' bio' t, putAll m (bioInit bio buf maxdata maxoffs) puts = some (m', bio') ∧
      binderRequest m' bio' target code = some t ∧ t.Says items ∧
        t.target = target ∧ t.code = code := by
  have hw := hbuffer.writing bio
  obtain ⟨m', bio', hrun, hitems⟩ := puts_putAll hputs (fun _ _ => rfl) hw
  have hclear := (hbuffer.clear_iff hitems).mpr hfits
  have hoffs : (ExpressOS.bioInit bio buf maxdata maxoffs).offs = buf := by rw [hbuffer.bioInit]
  have hdata : (ExpressOS.bioInit bio buf maxdata maxoffs).data = buf + 4 * maxoffs := by
    rw [hbuffer.bioInit]
  exact ⟨m', bio', _, hrun, binderRequest_of_clear hclear target code,
    hitems.says hw hoffs hdata hclear target code, rfl, rfl⟩

end Sending

/-! ### The driver between them -/

/-- The word at a place of some bytes. -/
def wordAt (bs : List UInt8) (o : ℕ) : ℕ :=
  leNat ((bs.drop o).take 4)

/-- The driver stores the bytes of a transfer where the record says, and translates the type and
the pointer of each object that the offsets name. -/
structure Transports (translate : ℕ × ℕ → ℕ × ℕ) (t : Transfer) (m : Memory) (txn : BinderTxn) :
    Prop where
  data_pos : 0 < txn.data
  dataSize : txn.dataSize = t.data.length
  offsSize : txn.offsSize = t.offs.length
  offs : m.read txn.offs t.offs.length = t.offs
  plain : ∀ k < t.data.length,
    (∀ o ∈ m.words txn.offs (t.offs.length / 4), k < o ∨ o + objectSize ≤ k) →
    t.data[k]? = some (m (txn.data + k))
  object : ∀ o ∈ m.words txn.offs (t.offs.length / 4),
    (m.word (txn.data + o), m.word (txn.data + o + 8)) =
      translate (wordAt t.data o, wordAt t.data (o + 8))

/-- The item after the driver has translated it. -/
def Item.translated (translate : ℕ × ℕ → ℕ × ℕ) : Item → Item
  | .object type pointer => .object (translate (type, pointer)).1 (translate (type, pointer)).2
  | i => i

section Delivery

variable {m m₁ : Memory} {translate : ℕ × ℕ → ℕ × ℕ} {items : List Item} {t : Transfer}
  {txn : BinderTxn}

@[simp] lemma Item.size_translated (i : Item) : (i.translated translate).size = i.size := by
  cases i <;> rfl

@[simp] lemma Item.entries_translated (i : Item) :
    (i.translated translate).entries = i.entries := by
  cases i <;> rfl

@[simp] lemma Item.get_translated (i : Item) : (i.translated translate).get = i.get := by
  cases i <;> rfl

lemma Item.costs_translated (items : List Item) :
    Item.costs (items.map (Item.translated translate)) = Item.costs items := by
  induction items with
  | nil => rfl
  | cons i items ih => rw [List.map_cons, costs_cons, ih, costs_cons, cost, size_translated,
      entries_translated, cost]

lemma Item.offsets_translated (place : ℕ) (items : List Item) :
    Item.offsets place (items.map (Item.translated translate)) = Item.offsets place items := by
  induction items generalizing place with
  | nil => rfl
  | cons i items ih =>
    rw [List.map_cons, offsets_cons, size_translated, entries_translated, ih, offsets_cons]

/-- Items in `m₁` from `q` on are seen in `m` from `p + q` on, where `m` has the bytes of `m₁`
except for the objects at `entries`, which it has translated. -/
lemma allShown_translated {entries : List ℕ} {p q : ℕ} (hlaid : Item.Laid m₁ q items)
    (hlisted : ∀ o, q ≤ o → (o ∈ entries ↔ o ∈ Item.offsets q items))
    (hbefore : ∀ o ∈ entries, o < q → o + objectSize ≤ q)
    (hplain : ∀ k, q ≤ k → k < q + (Item.costs items).1 →
      (∀ o ∈ entries, k < o ∨ o + objectSize ≤ k) → m (p + k) = m₁ k)
    (hobject : ∀ o ∈ entries, (m.word (p + o), m.word (p + o + 8)) =
      translate (m₁.word o, m₁.word (o + 8))) :
    Item.AllShown m (p + q) (items.map (Item.translated translate)) := by
  induction items generalizing q with
  | nil => trivial
  | cons i items ih =>
    have hcosts : (Item.costs (i :: items)).1 = i.size + (Item.costs items).1 := by
      simp [Item.cost]
    have hpos := i.size_pos
    rw [hcosts] at hplain
    have hhere {o : ℕ} (ho : o ∈ entries) (hge : q ≤ o) (hlt : o < q + i.size) :
        i.entries = 1 ∧ o = q :=
      (Item.mem_offsets_cons_of_lt hlt).mp ((hlisted o hge).mp ho)
    have hthere : q ∈ entries ↔ i.entries = 1 := by
      rw [hlisted q le_rfl, Item.mem_offsets_cons_of_lt (by omega)]
      exact and_iff_left rfl
    constructor
    · by_cases hentries : i.entries = 1
      · have hpair := hobject q (hthere.mpr hentries)
        cases i with
        | object type pointer =>
          rw [HoldsObject.type hlaid.1, HoldsObject.pointer hlaid.1] at hpair
          exact ⟨congrArg Prod.fst hpair, congrArg Prod.snd hpair⟩
        | _ => cases hentries
      · have hcopy : m.read (p + q) i.size = m₁.read q i.size := by
          apply Memory.read_eq_read
          intro k hk
          rw [Nat.add_assoc]
          apply hplain (q + k) (by omega) (by omega)
          intro o ho
          by_cases hge : q ≤ o
          · have hlater : ¬ o < q + i.size := fun hlt => hentries (hhere ho hge hlt).1
            omega
          · have hearlier := hbefore o ho (not_le.mp hge)
            omega
        have hheld := (hlaid.1.copy hcopy).shown
        cases i with
        | object type pointer => exact absurd rfl hentries
        | _ => exact hheld
    · rw [Item.size_translated, Nat.add_assoc]
      apply ih hlaid.2
      · intro o ho
        rw [hlisted o (by omega), Item.mem_offsets_cons_of_le ho]
      · intro o ho hlt
        by_cases hge : q ≤ o
        · obtain ⟨hentries, rfl⟩ := hhere ho hge hlt
          cases i with
          | object type pointer => exact le_rfl
          | _ => cases hentries
        · have := hbefore o ho (not_le.mp hge)
          omega
      · intro k hk hlt
        exact hplain k (by omega) (by omega)

/-- The receiver of a transfer sees the items, with the objects as the driver has translated
them. -/
lemma Transports.shown (h : Transports translate t m txn) (htold : t.Says items) :
    Item.AllShown m txn.data (items.map (Item.translated translate)) := by
  let m₁ : Memory := Memory.write (fun _ => 0) 0 t.data
  have hread : m₁.read 0 t.data.length = t.data := Memory.read_write_self _ 0 t.data
  have hword {o : ℕ} (ho : o + 4 ≤ t.data.length) : m₁.word o = wordAt t.data o := by
    have hpart := Memory.word_eq_of_read hread ho
    rwa [Nat.zero_add] at hpart
  have hentries : t.offs.length / 4 = (Item.costs items).2 := by
    rw [htold.entries, Nat.mul_div_cancel_left _ (by decide)]
  have htable : m.words txn.offs (t.offs.length / 4) = Item.offsets 0 items := by
    rw [hentries]
    exact htold.offs m txn.offs h.offs
  have hsize := htold.size
  have hplain : ∀ k, 0 ≤ k → k < 0 + (Item.costs items).1 →
      (∀ o ∈ Item.offsets 0 items, k < o ∨ o + objectSize ≤ k) → m (txn.data + k) = m₁ k := by
    intro k _ hk hclear
    have hbyte := Memory.getElem?_read m₁ 0 t.data.length k (by omega)
    rw [hread, h.plain k (by omega) (by rwa [htable]), Nat.zero_add] at hbyte
    exact Option.some.inj hbyte
  have hobject : ∀ o ∈ Item.offsets 0 items, (m.word (txn.data + o), m.word (txn.data + o + 8)) =
      translate (m₁.word o, m₁.word (o + 8)) := by
    intro o ho
    have hbounds := Item.mem_offsets_bounds ho
    unfold objectSize at hbounds
    rw [h.object o (by rwa [htable]), hword (by omega), hword (by omega)]
  exact allShown_translated (htold.data m₁ 0 hread) (fun _ _ => Iff.rfl) nofun hplain hobject

/-- What the receiver gets from a transfer. -/
lemma Transports.getAll (h : Transports translate t m txn) (htold : t.Says items) :
    (getAll m (bioInitFromTxn txn) (items.map Item.get)).1 =
      Item.gots txn.data (items.map (Item.translated translate)) := by
  have hentries : txn.offsSize / 4 = (Item.costs items).2 := by
    rw [h.offsSize, htold.entries, Nat.mul_div_cancel_left _ (by decide)]
  have hat : AtItems m (bioInitFromTxn txn) (items.map (Item.translated translate)) := by
    constructor
    · exact h.data_pos
    · exact le_rfl
    · rw [Item.costs_translated, ← htold.size]
      exact h.dataSize
    · exact h.shown htold
    · intro o _
      have htable := htold.offs m txn.offs h.offs
      rw [← hentries] at htable
      simp only [bioInitFromTxn, Nat.sub_self, Item.offsets_translated]
      rw [htable]
  have hgot := hat.getAll
  rwa [List.map_map, show Item.get ∘ Item.translated translate = Item.get from
    funext Item.get_translated] at hgot

/-- What is put into a buffer that has room for it, and transported, is got back in its order: up
to the first null reference every item with the objects as the driver has translated them, and
nothing behind it. -/
theorem message_roundTrip {m : Memory} {buf maxdata maxoffs : ℕ} {puts : List Put}
    (hbuffer : IsBuffer buf maxdata maxoffs)
    (hputs : List.Forall₂ (PutsItem m buf (buf + maxdata)) puts items)
    (hfits : Item.costs items ≤ capacity maxdata maxoffs) (bio : BinderIo) (target code : ℕ) :
    ∃ m' bio' t, putAll m (bioInit bio buf maxdata maxoffs) puts = some (m', bio') ∧
      binderRequest m' bio' target code = some t ∧
      ∀ translate m'' txn, Transports translate t m'' txn →
        Item.AllShown m'' txn.data (items.map (Item.translated translate)) ∧
        (ExpressOS.getAll m'' (bioInitFromTxn txn) (items.map Item.get)).1 =
          Item.gots txn.data (items.map (Item.translated translate)) := by
  obtain ⟨m', bio', t, hrun, hrequest, htold, -⟩ :=
    request_of_fits hbuffer hputs hfits bio target code
  exact ⟨m', bio', t, hrun, hrequest, fun _ _ _ h => ⟨h.shown htold, h.getAll htold⟩⟩

/-- A word and an object that the driver hands on as handle `9`. -/
theorem message_roundTrip_wordAndObject :
    ∃ m' bio' t, putAll (fun _ => 0) (bioInit default 4096 32 1) [.uint32 5, .obj 7] =
        some (m', bio') ∧ binderRequest m' bio' 0 3 = some t ∧
      let received : Memory := Memory.storeObject
        ((Memory.setWord (fun _ => 0) 8192 5).setWord 8300 4) 8196 binderTypeHandle 9
      (ExpressOS.getAll received (bioInitFromTxn ⟨0, 0, 3, 0, 1, 0, 20, 4, 8192, 8300⟩)
        [.uint32, .ref]).1 = [.uint32 5, .ref 9] := by
  have hbuffer : IsBuffer 4096 32 1 := ⟨by decide, by decide, by decide⟩
  have hputs : List.Forall₂ (PutsItem (fun _ => 0) 4096 (4096 + 32)) [.uint32 5, .obj 7] _ :=
    .cons (.uint32 (by decide)) (.cons (.obj (by decide)) .nil)
  obtain ⟨m', bio', t, hrun, hrequest, htransports⟩ :=
    message_roundTrip hbuffer hputs (by decide) default 0 3
  refine ⟨m', bio', t, hrun, hrequest, ?_⟩
  obtain ⟨rfl, rfl⟩ := Prod.mk.inj (Option.some.inj hrun)
  obtain rfl := Option.some.inj hrequest
  refine (htransports (fun _ => (binderTypeHandle, 9)) _ _ ?_).2
  constructor
  · decide
  · rfl
  · rfl
  · decide
  · decide
  · decide

end Delivery

end ExpressOS

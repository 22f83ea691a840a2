import ExpressOS.Presenter.Slides
import ExpressOS.Systems.DecimalText
import ExpressOS.Systems.Scanner

/-!
# The description of the slides

`Presenter::open`: three numbers are read from `desc.txt` with a `sscanf` on the block that holds
the file. Nothing ends the string in that block, so the scan may go on into what lies after it.
-/

namespace ExpressOS
open Systems

inductive ScanPhase
  | skipping
  | signed (neg : Bool)
  | digits (neg : Bool) (magnitude : ℕ)
  deriving DecidableEq, Repr

/-- The numbers that were converted, with their signs, and the conversion that is going on. -/
structure Scan where
  values : List (Bool × ℕ)
  phase : ScanPhase
  deriving DecidableEq, Repr

def scanSpace (b : UInt8) : Bool := b = 0x20 ∨ (0x09 ≤ b ∧ b ≤ 0x0d)

/-- The first byte for a `%u`, or a space before it. -/
def beginConversion (values : List (Bool × ℕ)) (b : UInt8) : Scan ⊕ List (Bool × ℕ) :=
  if scanSpace b then .inl ⟨values, .skipping⟩
  else if b = 0x2d then .inl ⟨values, .signed true⟩
  else if b = 0x2b then .inl ⟨values, .signed false⟩
  else if isDecimalDigit b then .inl ⟨values, .digits false (b.toNat - 48)⟩
  else .inr values

/-- `sscanf` with the format `"%u %u %u"`. A zero byte, which ends the string, is neither a space
nor a sign nor a digit. -/
def descScanner : Scanner Scan UInt8 (List (Bool × ℕ)) where
  step
    | ⟨values, .skipping⟩, b => beginConversion values b
    | ⟨values, .signed neg⟩, b =>
      if isDecimalDigit b then .inl ⟨values, .digits neg (b.toNat - 48)⟩ else .inr values
    | ⟨values, .digits neg m⟩, b =>
      if isDecimalDigit b then .inl ⟨values, .digits neg (10 * m + (b.toNat - 48))⟩
      else
        let values := values ++ [(neg, m)]
        if values.length = 3 then .inr values else beginConversion values b
  atEnd
    | ⟨values, .digits neg m⟩ => values ++ [(neg, m)]
    | ⟨values, _⟩ => values

def scanStart : Scan := ⟨[], .skipping⟩

def sscanf (s : List UInt8) : List (Bool × ℕ) := descScanner.run scanStart s

/-- What a `%u` stores. -/
def unsignedOf : Bool × ℕ → ℕ
  | (neg, m) => if neg then (2 ^ 32 - m) % 2 ^ 32 else m

/-- The members that a scan has stored to. A number that has no place in an `unsigned` has no
defined effect. -/
def storeNumbers (p : Presenter) (values : List (Bool × ℕ)) : Option Presenter :=
  if ∀ v ∈ values, v.2 < 2 ^ 32 then
    some { p with
      numberOfSlides := (values[0]?.map unsignedOf).getD p.numberOfSlides
      slideWidth := (values[1]?.map unsignedOf).getD p.slideWidth
      slideHeight := (values[2]?.map unsignedOf).getD p.slideHeight }
  else none

/-- What `Presenter::open` returns and leaves, and whether it has started the handler. -/
structure OpenRun where
  ret : ℤ
  presenter : Presenter
  handler : Bool
  deriving DecidableEq, Repr

/-- `Presenter::open`, where `zip` is the status of the archive and `after` are the bytes of the
heap that follow the block. -/
def openSlides (zip : ℤ) (slides : SlideArchive) (after : List UInt8) (p : Presenter) :
    Option OpenRun :=
  if zip ≠ 0 then some ⟨zip, p, false⟩
  else
    match slides.findEntryByName "desc.txt" with
    | none => some ⟨-EACCES, p, false⟩
    | some entry =>
      match slides.getEntryInfo entry with
      | none => some ⟨-EINVAL, p, false⟩
      | some _ =>
        match slides.uncompressEntry entry with
        | none => some ⟨-EINVAL, p, false⟩
        | some buffer =>
          let values := sscanf (buffer ++ after)
          (storeNumbers p values).map fun p =>
            if values.length ≠ 3 then ⟨-EINVAL, p, false⟩ else ⟨0, p, true⟩

/-- The constructor of `Presenter`. -/
def newPresenter : Presenter := ⟨0, 0, 0, 0, false, none, (0, 0, 0, 0), none⟩

/-- The archive has a description that can be read. -/
def SlideArchive.Describes (slides : SlideArchive) (desc : List UInt8) : Prop :=
  ∃ entry length, slides.findEntryByName "desc.txt" = some entry ∧
    slides.getEntryInfo entry = some length ∧ slides.uncompressEntry entry = some desc

namespace Scan

/-- The sign of the conversion that is going on, or of the next one. -/
def sign (t : Scan) : Bool :=
  match t.phase with
  | .skipping => false
  | .signed neg => neg
  | .digits neg _ => neg

def magnitude (t : Scan) : ℕ :=
  match t.phase with
  | .digits _ m => m
  | _ => 0

end Scan

section Scans

variable {t u : Scan} {b : UInt8}

/-- A scan goes on only while there are numbers left to convert. -/
lemma length_values_step (h : descScanner.step t b = .inl u) (ht : t.values.length < 3) :
    u.values.length < 3 := by
  have hbegin : ∀ values, values.length < 3 → beginConversion values b = .inl u →
      u.values.length < 3 := by
    intro values hvalues hu
    unfold beginConversion at hu
    split_ifs at hu <;> cases hu <;> exact hvalues
  obtain ⟨values, phase⟩ := t
  cases phase with
  | skipping => exact hbegin values ht h
  | signed neg =>
    simp only [descScanner] at h
    split_ifs at h
    cases h
    exact ht
  | digits neg m =>
    simp only [descScanner] at h
    split_ifs at h with hdigit hthree
    · cases h
      exact ht
    · have hlength : values.length < 3 := ht
      refine hbegin _ ?_ h
      simp only [List.length_append, List.length_singleton] at hthree ⊢
      omega

lemma length_values_advance {s : List UInt8} (h : descScanner.advance scanStart s = some t) :
    t.values.length < 3 :=
  Scanner.advance_induction (P := fun u => u.values.length < 3) (by decide)
    (fun _ _ _ ht hstep => length_values_step hstep ht) h

lemma step_digit (hb : isDecimalDigit b = true) : descScanner.step t b =
    .inl ⟨t.values, .digits t.sign (10 * t.magnitude + (b.toNat - 48))⟩ := by
  obtain ⟨values, phase⟩ := t
  cases phase with
  | skipping =>
    have hnot : scanSpace b = false ∧ b ≠ 0x2d ∧ b ≠ 0x2b := by
      revert b
      decide +kernel
    obtain ⟨hspace, hminus, hplus⟩ := hnot
    simp [descScanner, beginConversion, hb, hspace, hminus, hplus, Scan.sign, Scan.magnitude]
  | signed neg => simp [descScanner, hb, Scan.sign, Scan.magnitude]
  | digits neg m => simp [descScanner, hb, Scan.sign, Scan.magnitude]

/-- One more digit, and the end of the string. -/
lemma run_digit (hb : isDecimalDigit b = true) : descScanner.run t [b] =
    t.values ++ [(t.sign, 10 * t.magnitude + (b.toNat - 48))] := by
  rw [Scanner.run, step_digit hb]
  rfl

end Scans

section Open

variable {slides : SlideArchive} {desc : List UInt8} {p q : Presenter}

lemma unsignedOf_inj {neg : Bool} {m k : ℕ} (hm : m < 2 ^ 32) (hk : k < 2 ^ 32)
    (h : unsignedOf (neg, m) = unsignedOf (neg, k)) : m = k := by
  cases neg with
  | false => exact h
  | true =>
    have hnegated : (2 ^ 32 - m) % 2 ^ 32 = (2 ^ 32 - k) % 2 ^ 32 := h
    omega

lemma storeNumbers_eq_some {values : List (Bool × ℕ)} (h : storeNumbers p values = some q) :
    (∀ v ∈ values, v.2 < 2 ^ 32) ∧
      q.numberOfSlides = (values[0]?.map unsignedOf).getD p.numberOfSlides ∧
      q.slideWidth = (values[1]?.map unsignedOf).getD p.slideWidth ∧
      q.slideHeight = (values[2]?.map unsignedOf).getD p.slideHeight := by
  unfold storeNumbers at h
  split_ifs at h with hfits
  cases h
  exact ⟨hfits, rfl, rfl, rfl⟩

/-- The last number of a scan can be told from what it has stored. -/
lemma unsignedOf_eq_of_storeNumbers {values : List (Bool × ℕ)} {v w : Bool × ℕ}
    (hlength : values.length < 3) (hv : storeNumbers p (values ++ [v]) = some q)
    (hw : storeNumbers p (values ++ [w]) = some q) : unsignedOf v = unsignedOf w := by
  obtain ⟨-, hv₀, hv₁, hv₂⟩ := storeNumbers_eq_some hv
  obtain ⟨-, hw₀, hw₁, hw₂⟩ := storeNumbers_eq_some hw
  match values, hlength with
  | [], _ => exact hv₀.symm.trans hw₀
  | [_], _ => exact hv₁.symm.trans hw₁
  | [_, _], _ => exact hv₂.symm.trans hw₂

lemma openSlides_eq (h : slides.Describes desc) (after : List UInt8) (p : Presenter) :
    openSlides 0 slides after p = (storeNumbers p (sscanf (desc ++ after))).map fun p =>
      if (sscanf (desc ++ after)).length ≠ 3 then ⟨-EINVAL, p, false⟩ else ⟨0, p, true⟩ := by
  obtain ⟨entry, length, hentry, hinfo, hdesc⟩ := h
  simp only [openSlides, ne_eq, not_true_eq_false, if_false, hentry, hinfo, hdesc]

lemma storeNumbers_of_openSlides {after : List UInt8} {run : OpenRun}
    (h : slides.Describes desc) (hrun : openSlides 0 slides after p = some run) :
    storeNumbers p (sscanf (desc ++ after)) = some run.presenter := by
  rw [openSlides_eq h] at hrun
  obtain ⟨q, hq, heq⟩ := Option.map_eq_some_iff.mp hrun
  rw [hq, ← heq]
  split_ifs <;> rfl

/-- What `open` does is the same for every heap exactly when the scan stops within the file, at
numbers that have a place. -/
theorem openSlides_settled_iff (h : slides.Describes desc) (p : Presenter) :
    (∃ run, ∀ after, openSlides 0 slides after p = some run) ↔
      descScanner.advance scanStart desc = none ∧ ∀ v ∈ sscanf desc, v.2 < 2 ^ 32 := by
  constructor
  · rintro ⟨run, hrun⟩
    have hstored := fun after => storeNumbers_of_openSlides h (hrun after)
    cases hadvance : descScanner.advance scanStart desc with
    | none =>
      have hempty := (storeNumbers_eq_some (hstored [])).1
      rw [List.append_nil] at hempty
      exact ⟨rfl, hempty⟩
    | some t =>
      -- a digit after the file is part of a number, so two digits tell two heaps apart
      have hdigit : ∀ b, isDecimalDigit b = true → sscanf (desc ++ [b]) =
          t.values ++ [(t.sign, 10 * t.magnitude + (b.toNat - 48))] := fun b hb =>
        (Scanner.run_append_of_advance hadvance [b]).trans (run_digit hb)
      have hone := hstored [0x31]
      have htwo := hstored [0x32]
      rw [hdigit _ (by decide)] at hone htwo
      have hsame := unsignedOf_eq_of_storeNumbers (length_values_advance hadvance) hone htwo
      have hfits := fun v => (storeNumbers_eq_some hone).1 v
      have hfits' := fun v => (storeNumbers_eq_some htwo).1 v
      have hlt := hfits _ List.mem_concat_self
      have hlt' := hfits' _ List.mem_concat_self
      have heq := unsignedOf_inj hlt hlt' hsame
      have hbytes : (0x31 : UInt8).toNat = 49 ∧ (0x32 : UInt8).toNat = 50 := by decide
      omega
  · rintro ⟨hstops, hfits⟩
    have hscan : ∀ after, sscanf (desc ++ after) = sscanf desc :=
      Scanner.run_append_of_stopped hstops
    have hstored : ∃ q, storeNumbers p (sscanf desc) = some q := ⟨_, if_pos hfits⟩
    obtain ⟨q, hq⟩ := hstored
    exact ⟨_, fun after => by rw [openSlides_eq h, hscan, hq, Option.map_some]⟩

/-- An archive with nothing but a description. -/
def describing (desc : List UInt8) : SlideArchive where
  findEntryByName name := if name = "desc.txt" then some 0 else none
  getEntryInfo _ := some desc.length
  uncompressEntry _ := some desc
  decodeMemory _ := ⟨.other, 0, 0, []⟩

/-- The file `1 2 3`, without an end of its line. -/
theorem openSlides_settled_iff_noNewline :
    ¬ ∃ run, ∀ after, openSlides 0 (describing [0x31, 0x20, 0x32, 0x20, 0x33]) after
      newPresenter = some run := by
  intro hsettled
  have hstops := ((openSlides_settled_iff ⟨0, 5, rfl, rfl, rfl⟩ newPresenter).mp hsettled).1
  revert hstops
  decide

/-- The scan of a decimal number. -/
lemma advance_decimalText (values : List (Bool × ℕ)) (n : ℕ) :
    descScanner.advance ⟨values, .skipping⟩ (decimalText n) =
      some ⟨values, .digits false n⟩ := by
  have hdigit : ∀ d < 10, isDecimalDigit (UInt8.ofNat (48 + d)) = true ∧
      (UInt8.ofNat (48 + d)).toNat - 48 = d := digit_facts
  induction n using Nat.strong_induction_on with
  | _ n ih =>
    by_cases hn : n < 10
    · obtain ⟨hbyte, hvalue⟩ := hdigit n hn
      rw [decimalText, numeral_of_lt hn, List.map_singleton, Scanner.advance, step_digit hbyte,
        hvalue]
      simp [Scanner.advance, Scan.sign, Scan.magnitude]
    · have hlast : n % 10 < 10 := Nat.mod_lt _ (by decide)
      obtain ⟨hbyte, hvalue⟩ := hdigit (n % 10) hlast
      have hquot := ih (n / 10) (by omega)
      have hsplit : decimalText n = decimalText (n / 10) ++ [UInt8.ofNat (48 + n % 10)] := by
        rw [decimalText, numeral_of_le (by decide) (by omega), List.map_append]
        rfl
      rw [hsplit, Scanner.advance_append_of_advance hquot, Scanner.advance, step_digit hbyte,
        hvalue]
      simp only [Scanner.advance, Scan.sign, Scan.magnitude]
      rw [show 10 * (n / 10) + n % 10 = n by omega]

/-- Three numbers with spaces between them, and something after the last one that is no digit. -/
lemma sscanf_numbers (n w h : ℕ) {b : UInt8} (hb : isDecimalDigit b = false)
    (rest : List UInt8) :
    sscanf (decimalText n ++ 0x20 :: (decimalText w ++ 0x20 :: (decimalText h ++ b :: rest))) =
      [(false, n), (false, w), (false, h)] := by
  have hspace : ∀ values m, values.length < 2 →
      descScanner.step ⟨values, .digits false m⟩ 0x20 =
        .inl ⟨values ++ [(false, m)], .skipping⟩ := by
    intro values m hvalues
    have hthree : ¬ values.length = 2 := by omega
    simp [descScanner, beginConversion, hthree, show isDecimalDigit 0x20 = false by decide,
      show scanSpace 0x20 = true by decide]
  rw [sscanf, scanStart, Scanner.run_append_of_advance (advance_decimalText [] n), Scanner.run,
    hspace [] n (by decide)]
  simp only [List.nil_append]
  rw [Scanner.run_append_of_advance (advance_decimalText _ w), Scanner.run,
    hspace _ w (by simp)]
  simp only [List.singleton_append]
  rw [Scanner.run_append_of_advance (advance_decimalText _ h), Scanner.run]
  simp [descScanner, hb]

/-- A description that is written as it should be is read back, whatever the heap holds. -/
theorem openSlides_reads {n w k : ℕ} {b : UInt8} {rest : List UInt8}
    (h : slides.Describes
      (decimalText n ++ 0x20 :: (decimalText w ++ 0x20 :: (decimalText k ++ b :: rest))))
    (hn : n < 2 ^ 32) (hw : w < 2 ^ 32) (hk : k < 2 ^ 32) (hb : isDecimalDigit b = false)
    (after : List UInt8) :
    openSlides 0 slides after newPresenter = some ⟨0, Presenter.opened n w k, true⟩ := by
  have hscan := sscanf_numbers n w k hb (rest ++ after)
  have hfits : ∀ v ∈ ([(false, n), (false, w), (false, k)] : List (Bool × ℕ)), v.2 < 2 ^ 32 :=
    List.forall_mem_cons.mpr ⟨hn, List.forall_mem_cons.mpr ⟨hw, List.forall_mem_singleton.mpr hk⟩⟩
  rw [openSlides_eq h]
  simp only [List.append_assoc, List.cons_append]
  rw [hscan, storeNumbers, if_pos hfits]
  rfl

/-- The file `2 640 480`, with an end of its line, and a digit after it in the heap. -/
theorem openSlides_reads_line :
    openSlides 0 (describing (decimalText 2 ++ 0x20 :: (decimalText 640 ++
      0x20 :: (decimalText 480 ++ [0x0a])))) [0x31] newPresenter =
        some ⟨0, Presenter.opened 2 640 480, true⟩ :=
  openSlides_reads ⟨0, _, rfl, rfl, rfl⟩ (by decide) (by decide) (by decide) (by decide) [0x31]

end Open

end ExpressOS

import ExpressOS.Systems.Memory
import ExpressOS.Systems.Numerals
import ExpressOS.Systems.Strings

/-!
# Numbers in English digits

`num_to_str` of `bench-sqlite/bench.c` takes the digits off a number from the last to the first,
and writes their names from the first to the last, each over the terminator of the one before.
-/

namespace ExpressOS
open Systems

def ascii (s : String) : List UInt8 := s.toList.map Char.toUInt8

def space : UInt8 := ' '.toUInt8

def numChar : List (List UInt8) :=
  ["zero", "one", "two", "three", "four", "five", "six", "seven", "eight", "nine"].map ascii

/-- `num_char[digit]`; outside the table there is nothing to read. -/
def numCharAt (digit : ℤ) : Option (List UInt8) :=
  if digit < 0 then none else numChar[digit.toNat]?

/-- `sizeof (digits) / sizeof (digits[0])` -/
def digitsSize : ℕ := 10

/-- The `do` loop: `digits` holds the `i` entries stored, and `room` more fit in the array. A store
outside the array gives `none`. -/
def storeDigits : ℕ → ℤ → List ℤ → Option (List ℤ)
  | 0, _, _ => none
  | room + 1, num, digits =>
    let digit := num.tmod 10
    let num := num.tdiv 10
    let digits := digits ++ [digit]
    if num > 0 then storeDigits room num digits else some digits

/-- A string and its terminator. -/
def sprintf (mem : Memory) (cursor : ℕ) (s : List UInt8) : Memory :=
  mem.write cursor (s ++ [0])

/-- The `for` loop, from `i - 1` down to `0`. -/
def writeNames (digits : List ℤ) : ℕ → ℕ → Memory → Option Memory
  | 0, _, mem => some mem
  | i + 1, cursor, mem => do
    let digit ← digits[i]?
    let name ← numCharAt digit
    let mem := sprintf mem cursor (if i ≠ 0 then name ++ [space] else name)
    writeNames digits i (cursor + (name.length + 1)) mem

def numToStr (num : ℤ) (buf : ℕ) (mem : Memory) : Option Memory := do
  let digits ← storeDigits digitsSize num []
  writeNames digits digits.length buf mem

/-- The English names of the decimal digits. -/
def englishDigits : DigitNames UInt8 where
  base := 10
  one_lt_base := by decide
  sep := space
  name d := numChar.getD d []
  name_ne_nil := by decide
  sep_notMem := by decide
  name_injective := by decide

lemma numCharAt_natCast {d : ℕ} (h : d < 10) :
    numCharAt (d : ℤ) = some (englishDigits.name d) := by
  have hlength : d < numChar.length := h
  rw [numCharAt, if_neg (by omega), Int.toNat_natCast, List.getElem?_eq_getElem hlength]
  exact congrArg some (List.getD_eq_getElem _ _ hlength).symm

lemma length_name_le : ∀ d < 10, (englishDigits.name d).length ≤ 5 := by decide

lemma zero_notMem_name : ∀ d < 10, 0 ∉ englishDigits.name d := by decide

/-- The loop stores the digits that are left, the last one first. -/
lemma storeDigits_eq {room n : ℕ} (digits : List ℤ) (hroom : 0 < room) (h : n < 10 ^ room) :
    storeDigits room n digits =
      some (digits ++ (numeral 10 n).reverse.map (Nat.cast : ℕ → ℤ)) := by
  induction room generalizing n digits with
  | zero => cases hroom
  | succ room ih =>
    have hmod : (n : ℤ).tmod 10 = ((n % 10 : ℕ) : ℤ) := rfl
    have hdiv : (n : ℤ).tdiv 10 = ((n / 10 : ℕ) : ℤ) := rfl
    rw [storeDigits, hmod, hdiv]
    by_cases hlast : n < 10
    · rw [if_neg (by omega), numeral_of_lt hlast, Nat.mod_eq_of_lt hlast]
      rfl
    · have hquot : n / 10 < 10 ^ room := by
        rw [pow_succ] at h
        omega
      have hpos : 0 < room := by
        by_contra hzero
        obtain rfl : room = 0 := by omega
        omega
      rw [if_pos (by omega), ih _ hpos hquot, numeral_of_le (by decide) (not_lt.mp hlast),
        List.reverse_append, List.append_assoc]
      rfl

/-- The string that `sprintf` leaves. -/
lemma terminated_sprintf {s : List UInt8} (mem : Memory) (cursor : ℕ) (h : 0 ∉ s) :
    Terminated (fun i => sprintf mem cursor s (cursor + i)) s := by
  have hwritten : ∀ i < s.length + 1, (s ++ [0])[i]? = some (sprintf mem cursor s (cursor + i)) :=
    fun i hi => mem.getElem?_write cursor (by simpa using hi)
  have hzero := hwritten s.length (by omega)
  rw [List.getElem?_concat_length] at hzero
  have hunit : ∀ i < s.length, s[i]? = some (sprintf mem cursor s (cursor + i)) := by
    intro i hi
    rw [← hwritten i (by omega), List.getElem?_append_left hi]
  simpa using Terminated.append hunit h (.nil (Option.some.inj hzero).symm)

lemma sprintf_of_lt {mem : Memory} {cursor x : ℕ} {s : List UInt8} (h : x < cursor) :
    sprintf mem cursor s x = mem x :=
  Memory.write_of_lt h

lemma sprintf_of_gt {mem : Memory} {cursor x : ℕ} {s : List UInt8} (h : cursor + s.length < x) :
    sprintf mem cursor s x = mem x :=
  Memory.write_of_ge (by rwa [List.length_append, List.length_singleton])

/-- A string is written on by overwriting its terminator. -/
lemma terminated_append_sprintf {mem mem' : Memory} {cursor : ℕ} {s rest : List UInt8} (h : 0 ∉ s)
    (hkept : ∀ x < cursor + s.length, mem' x = sprintf mem cursor s x)
    (hrest : Terminated (fun k => mem' (cursor + s.length + k)) rest) :
    Terminated (fun k => mem' (cursor + k)) (s ++ rest) := by
  have hunit : ∀ k < s.length, s[k]? = some (mem' (cursor + k)) := by
    intro k hk
    rw [hkept _ (by omega)]
    exact (terminated_sprintf mem cursor h).unit k hk
  apply Terminated.append hunit h
  simpa only [Nat.add_assoc] using hrest

lemma text_take_succ {digits : List ℕ} {i : ℕ} (hi : i + 1 < digits.length) :
    englishDigits.text (digits.take (i + 1 + 1)).reverse =
      englishDigits.name digits[i + 1] ++
        space :: englishDigits.text (digits.take (i + 1)).reverse := by
  have hne : (digits.take (i + 1)).reverse ≠ [] := by
    rw [ne_eq, List.reverse_eq_nil_iff, List.take_eq_nil_iff]
    rintro (hzero | hnil)
    · cases hzero
    · rw [hnil] at hi
      cases hi
  rw [List.take_succ_eq_append_getElem hi, List.reverse_append, List.reverse_singleton,
    List.singleton_append, DigitNames.text_cons _ _ hne]
  rfl

/-- The `for` loop leaves the names of the entries below `i`, the last entry first, and touches
nothing else. -/
lemma writeNames_spec {digits : List ℕ} (hdigits : ∀ d ∈ digits, d < 10) (i : ℕ)
    (hi : i < digits.length) (cursor : ℕ) (mem : Memory) :
    ∃ mem', writeNames (digits.map Nat.cast) (i + 1) cursor mem = some mem' ∧
      Terminated (fun k => mem' (cursor + k))
        (englishDigits.text (digits.take (i + 1)).reverse) ∧
      ∀ x, x < cursor ∨
          cursor + (englishDigits.text (digits.take (i + 1)).reverse).length < x →
        mem' x = mem x := by
  induction i generalizing cursor mem with
  | zero =>
    have hd : digits[0] < 10 := hdigits _ (List.getElem_mem hi)
    have htake : (digits.take 1).reverse = [digits[0]] := by
      rw [List.take_one, List.head?_eq_getElem?, List.getElem?_eq_getElem hi]
      rfl
    rw [zero_add, htake, DigitNames.text_singleton]
    refine ⟨sprintf mem cursor (englishDigits.name digits[0]), ?_,
      terminated_sprintf mem cursor (zero_notMem_name _ hd), ?_⟩
    · simp [writeNames, hi, numCharAt_natCast hd]
    · rintro x (hx | hx)
      · exact sprintf_of_lt hx
      · exact sprintf_of_gt hx
  | succ i ih =>
    have hd : digits[i + 1] < 10 := hdigits _ (List.getElem_mem hi)
    let name := englishDigits.name digits[i + 1]
    let rest := englishDigits.text (digits.take (i + 1)).reverse
    let mem₁ := sprintf mem cursor (name ++ [space])
    have hlength : (name ++ [space]).length = name.length + 1 := List.length_append
    obtain ⟨mem', hloop, hstring, hframe⟩ :=
      ih (by omega) (cursor + (name.length + 1)) mem₁
    have hnonzero : 0 ∉ name ++ [space] := by
      rw [List.mem_append, not_or]
      exact ⟨zero_notMem_name _ hd, by decide⟩
    have htake : englishDigits.text (digits.take (i + 1 + 1)).reverse = name ++ space :: rest :=
      text_take_succ hi
    rw [htake]
    refine ⟨mem', ?_, ?_, ?_⟩
    · rw [← hloop]
      simp [writeNames, hi, numCharAt_natCast hd, mem₁, name]
    · rw [List.append_cons]
      -- what is written from here on leaves the name and its space alone
      apply terminated_append_sprintf hnonzero (fun x hx => hframe x (.inl (by omega)))
      rwa [hlength]
    · intro x hx
      rw [List.length_append, List.length_cons] at hx
      have hout : x < cursor ∨ cursor + (name ++ [space]).length < x := by omega
      have hrest : x < cursor + (name.length + 1) ∨ cursor + (name.length + 1) + rest.length < x :=
        by omega
      rw [hframe x hrest]
      exact hout.elim sprintf_of_lt sprintf_of_gt

lemma lt_of_mem_decimal {n d : ℕ} (h : d ∈ numeral 10 n) : d < 10 :=
  lt_of_mem_numeral (by decide) h

section Int

variable {num : ℕ} (h : num < 2 ^ 31)

include h

lemma length_decimal_le : (numeral 10 num).length ≤ digitsSize :=
  length_numeral_le (by decide) (by decide) (h.trans (by norm_num [digitsSize]))

lemma storeDigits_int : storeDigits digitsSize num [] =
    some ((numeral 10 num).reverse.map Nat.cast) :=
  storeDigits_eq [] (by decide) (h.trans (by norm_num [digitsSize]))

lemma length_spell_le : (englishDigits.spell num).length ≤ 59 := by
  have hname : ∀ d ∈ numeral 10 num, (englishDigits.name d).length ≤ 5 :=
    fun d hd => length_name_le d (lt_of_mem_decimal hd)
  have htext : (englishDigits.spell num).length ≤ (5 + 1) * (numeral 10 num).length - 1 :=
    englishDigits.length_text_le hname
  have hdigits := length_decimal_le h
  unfold digitsSize at hdigits
  omega

lemma numToStr_eq (buf : ℕ) (mem : Memory) :
    ∃ mem', numToStr num buf mem = some mem' ∧
      Terminated (fun k => mem' (buf + k)) (englishDigits.spell num) ∧
      ∀ x, x < buf ∨ buf + (englishDigits.spell num).length < x → mem' x = mem x := by
  have hdigits : ∀ d ∈ (numeral 10 num).reverse, d < 10 :=
    fun d hd => lt_of_mem_decimal (List.mem_reverse.mp hd)
  obtain ⟨i, hi⟩ : ∃ i, (numeral 10 num).reverse.length = i + 1 := by
    apply Nat.exists_eq_succ_of_ne_zero
    rw [List.length_reverse]
    exact (List.length_pos_of_ne_nil numeral_ne_nil).ne'
  have htake : englishDigits.text ((numeral 10 num).reverse.take (i + 1)).reverse =
      englishDigits.spell num := by
    rw [← hi, List.take_length, List.reverse_reverse]
    rfl
  obtain ⟨mem', hloop, hstring, hframe⟩ := writeNames_spec hdigits i (by omega) buf mem
  rw [htake] at hstring hframe
  refine ⟨mem', ?_, hstring, hframe⟩
  rw [← hloop, ← hi, numToStr, storeDigits_int h, Option.bind_eq_bind, Option.bind_some,
    List.length_map]

end Int

/-- For every `int` from `0` on, the digits fit in their array, and the string is that of the names
of the decimal digits. Reading it gives the number back, so that no other number leaves this
string. -/
theorem numToStr_spells {num : ℕ} (h : num < 2 ^ 31) (buf : ℕ) (mem : Memory) :
    ∃ digits mem' text,
      storeDigits digitsSize num [] = some digits ∧ digits.length ≤ digitsSize ∧
      numToStr num buf mem = some mem' ∧ Terminated (fun k => mem' (buf + k)) text ∧
      (∀ x, x < buf ∨ buf + text.length < x → mem' x = mem x) ∧ text.length ≤ 59 ∧
      text = [space].intercalate ((numeral 10 num).map englishDigits.name) ∧
      text.splitOn space = (numeral 10 num).map englishDigits.name ∧
      text.head? ≠ some space ∧ text.getLast? ≠ some space ∧
      englishDigits.read text = some num ∧
      ∀ num' < 2 ^ 31, ∀ buf' mem₁ mem₂, numToStr (num' : ℕ) buf' mem₁ = some mem₂ →
        Terminated (fun k => mem₂ (buf' + k)) text → num' = num := by
  have hlt : ∀ d ∈ numeral 10 num, d < englishDigits.base := fun d => lt_of_mem_decimal
  obtain ⟨mem', hrun, hstring, hframe⟩ := numToStr_eq h buf mem
  refine ⟨_, mem', englishDigits.spell num, storeDigits_int h, ?_, hrun, hstring, hframe,
    length_spell_le h, rfl, englishDigits.splitOn_text hlt numeral_ne_nil,
    englishDigits.head?_text_ne_sep hlt, englishDigits.getLast?_text_ne_sep hlt,
    englishDigits.read_spell num, ?_⟩
  · rw [List.length_map, List.length_reverse]
    exact length_decimal_le h
  · intro num' h' buf' mem₁ mem₂ hrun' hsame
    obtain ⟨mem₃, hrun₃, hstring', -⟩ := numToStr_eq h' buf' mem₁
    obtain rfl : mem₃ = mem₂ := Option.some.inj (hrun₃.symm.trans hrun')
    exact englishDigits.spell_injective (hstring'.unique hsame)

/-- The largest `int`, with all ten digits. -/
theorem numToStr_intMax :
    ∃ mem', numToStr 2147483647 0 (fun _ => 0) = some mem' ∧
      Terminated (fun k => mem' (0 + k))
        (ascii "two one four seven four eight three six four seven") := by
  obtain ⟨-, mem', text, -, -, hrun, hstring, -, -, htext, -⟩ :=
    @numToStr_spells 2147483647 (by norm_num) 0 (fun _ => 0)
  have hnumeral : numeral 10 2147483647 = [2, 1, 4, 7, 4, 8, 3, 6, 4, 7] := by
    norm_num [numeral]
  rw [hnumeral] at htext
  refine ⟨mem', hrun, ?_⟩
  rw [htext] at hstring
  exact hstring

end ExpressOS

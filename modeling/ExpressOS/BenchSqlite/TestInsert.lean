import ExpressOS.BenchSqlite.NumToStr
import ExpressOS.Systems.DecimalText

/-!
# The insertions of the benchmark

`test_insert` of `bench-sqlite/bench.c`: a transaction with one row for each turn of a loop, whose
statements are texts put together in two buffers of the stack. The database answers as it likes;
an answer that `check_return` does not accept ends the process. What the calls make of the table is
the database's as well, within the laws that a program relies on.
-/

namespace ExpressOS
open Systems

/-- The bytes before the terminator of the string at `p`, for a string that ends within `size`
bytes. -/
def cString (mem : Memory) (p size : ℕ) : Option (List UInt8) :=
  if 0 ∈ mem.read p size then some ((mem.read p size).takeWhile (fun b => b ≠ 0)) else none

/-- A `sprintf` into an array of `size` bytes; one that overruns it gives `none`. -/
def sprintfInto (mem : Memory) (cursor size : ℕ) (s : List UInt8) : Option Memory :=
  if s.length < size then some (sprintf mem cursor s) else none

def beginText : List UInt8 := ascii "BEGIN TRANSACTION;"
def commitText : List UInt8 := ascii "COMMIT TRANSACTION;"

/-- `"INSERT INTO t1 VALUES(%d,%d,'%s');"` -/
def insertText (i r : ℕ) (words : List UInt8) : List UInt8 :=
  ascii "INSERT INTO t1 VALUES(" ++ (decimalText i ++ (ascii "," ++ (decimalText r ++
    (ascii ",'" ++ (words ++ ascii "');")))))

/-- The calls of the library, with the text of the statement they are for. -/
inductive SqlCall
  | prepare (sql : List UInt8)
  | step (sql : List UInt8)
  | reset (sql : List UInt8)
  | exec (sql : List UInt8)
  deriving DecidableEq, Repr

/-- The calls made so far, with their answers. -/
abbrev SqlLog := List (SqlCall × ℤ)

/-- `SQLITE_DONE` -/
def sqliteDone : ℤ := 101

/-- `check_return` lets the process go on. -/
def checkReturn (ret : ℤ) : Bool := ret = 0 ∨ ret = sqliteDone

/-- A row of the table: its two numbers and its string. -/
abbrev Row := ℕ × ℕ × List UInt8

inductive InsertOutcome
  | finished
  -- the `COMMIT` is refused
  | finalizeFailed
  | aborted
  deriving DecidableEq, Repr

def period : ℕ := 32768
/-- `sizeof (buf1)` and `sizeof (buf2)` -/
def textSize : ℕ := 512
def insertNum : ℕ := 25000

section Program

variable (db : SqlLog → SqlCall → ℤ)

/-- Calls that are each followed by `check_return`, and whether all of them were accepted. -/
def checkedAll (h : SqlLog) : List SqlCall → SqlLog × Bool
  | [] => (h, true)
  | c :: cs =>
    let ret := db h c
    if checkReturn ret then checkedAll (h ++ [(c, ret)]) cs else (h ++ [(c, ret)], false)

/-- The answers in the log are those that the database gave. -/
def Answered (h : SqlLog) : Prop :=
  ∀ done c ret rest, h = done ++ (c, ret) :: rest → ret = db done c

/-- The calls for one prepared statement. -/
def statement (sql : List UInt8) : List SqlCall :=
  [.prepare sql, .step sql, .reset sql]

variable (random : ℕ → ℕ)

/-- `random() % period + period / 2` in the turn `i`. -/
def insertValue (i : ℕ) : ℕ := random i % period + period / 2

variable (buf1 buf2 : ℕ)

/-- `n` turns of the loop from the turn `i` on. -/
def insertLoop : ℕ → ℕ → Memory → SqlLog → Option (SqlLog × Bool)
  | 0, _, _, h => some (h, true)
  | n + 1, i, mem, h => do
    let r := insertValue random i
    let mem ← numToStr r buf1 mem
    -- the arrays are two objects of the frame, so the string is whole while it is copied
    let words ← cString mem buf1 textSize
    let mem ← sprintfInto mem buf2 textSize (insertText i r words)
    let sql ← cString mem buf2 textSize
    match checkedAll db h (statement sql) with
    | (h, true) => insertLoop n (i + 1) mem h
    | (h, false) => some (h, false)

def testInsert (mem : Memory) : Option (SqlLog × InsertOutcome) :=
  match checkedAll db [] (statement beginText) with
  | (h, false) => some (h, .aborted)
  | (h, true) =>
    (insertLoop db random buf1 buf2 insertNum 0 mem h).map fun (h, ok) =>
      if ok then
        let ret := db h (.exec commitText)
        (h ++ [(.exec commitText, ret)], if ret = 0 then .finished else .finalizeFailed)
      else (h, .aborted)

end Program

/-! ### The texts -/

section Texts

variable {mem : Memory} {p size : ℕ} {s : List UInt8}

lemma cString_of_terminated (h : Terminated (fun k => mem (p + k)) s) (hs : s.length < size) :
    cString mem p size = some s := by
  have hread : mem.read p s.length = s := by
    apply List.ext_getElem?
    intro i
    by_cases hi : i < s.length
    · rw [Memory.getElem?_read _ _ _ _ hi, h.unit i hi]
    · rw [List.getElem?_eq_none (by simpa using hi), List.getElem?_eq_none (by omega)]
  have hterm : mem (p + s.length) = 0 := h.terminator
  obtain ⟨rest, hrest⟩ : ∃ rest, mem.read p size = s ++ 0 :: rest := by
    obtain ⟨k, rfl⟩ := Nat.exists_eq_add_of_lt hs
    refine ⟨mem.read (p + s.length + 1) k, ?_⟩
    rw [Nat.add_assoc, Memory.read_add, hread, Nat.add_comm k 1, Memory.read_add]
    rw [show mem.read (p + s.length) 1 = [mem (p + s.length)] from rfl, hterm]
    rfl
  have hnonzero : ∀ b ∈ s, decide (b ≠ 0) = true := by
    intro b hb
    rw [decide_eq_true_eq]
    rintro rfl
    exact h.nonzero hb
  rw [cString, hrest, if_pos (by simp), List.takeWhile_append_of_pos hnonzero]
  simp

lemma sprintfInto_of_lt (hs : s.length < size) :
    sprintfInto mem p size s = some (sprintf mem p s) := if_pos hs

/-- The numbers and the string of an `INSERT` statement. -/
def readInsert (sql : List UInt8) : Option Row := do
  let t ← stripText (ascii "INSERT INTO t1 VALUES(") sql
  let (i, t) := takeDecimal t
  let t ← stripText (ascii ",") t
  let (r, t) := takeDecimal t
  let t ← stripText (ascii ",'") t
  let words := t.takeWhile (fun b => b ≠ 0x27)
  if t.drop words.length = ascii "');" then some (i, r, words) else none

/-- A text without an apostrophe keeps its place in the statement. -/
theorem readInsert_insertText (i r : ℕ) {words : List UInt8} (hquote : 0x27 ∉ words) :
    readInsert (insertText i r words) = some (i, r, words) := by
  have hwords : ∀ b ∈ words, decide (b ≠ 0x27) = true := by
    intro b hb
    rw [decide_eq_true_eq]
    rintro rfl
    exact hquote hb
  have hcomma : ∀ rest : List UInt8,
      ∀ b ∈ (ascii "," ++ rest).head?, isDecimalDigit b = false := by
    rintro rest b ⟨rfl⟩
    decide
  have hcommaQuote : ∀ rest : List UInt8,
      ∀ b ∈ (ascii ",'" ++ rest).head?, isDecimalDigit b = false := by
    rintro rest b ⟨rfl⟩
    decide
  have htake : (words ++ ascii "');").takeWhile (fun b => b ≠ 0x27) = words := by
    rw [List.takeWhile_append_of_pos hwords]
    exact List.append_nil words
  unfold readInsert insertText
  simp only [stripText_append, Option.bind_eq_bind, Option.bind_some,
    takeDecimal_append _ (hcomma _), takeDecimal_append _ (hcommaQuote _), htake, List.drop_left,
    if_true]

lemma mem_text {ds : List ℕ} {b : UInt8} (h : b ∈ englishDigits.text ds) :
    b = space ∨ ∃ d ∈ ds, b ∈ englishDigits.name d := by
  induction ds with
  | nil => cases h
  | cons d ds ih =>
    by_cases hds : ds = []
    · subst hds
      rw [DigitNames.text_singleton] at h
      exact .inr ⟨d, List.mem_cons_self, h⟩
    · rw [DigitNames.text_cons _ _ hds] at h
      obtain hname | hrest := List.mem_append.mp h
      · exact .inr ⟨d, List.mem_cons_self, hname⟩
      · obtain rfl | hlater := List.mem_cons.mp hrest
        · exact .inl rfl
        · obtain hspace | ⟨d', hd', hb⟩ := ih hlater
          · exact .inl hspace
          · exact .inr ⟨d', List.mem_cons_of_mem _ hd', hb⟩

lemma quote_notMem_name : ∀ d < 10, 0x27 ∉ englishDigits.name d := by decide

lemma notMem_spell {b : UInt8} (hspace : b ≠ space) (hname : ∀ d < 10, b ∉ englishDigits.name d)
    (n : ℕ) : b ∉ englishDigits.spell n := by
  intro h
  obtain hb | ⟨d, hd, hb⟩ := mem_text h
  · exact hspace hb
  · exact hname d (lt_of_mem_decimal hd) hb

lemma zero_notMem_spell (n : ℕ) : 0 ∉ englishDigits.spell n :=
  notMem_spell (by decide) zero_notMem_name n

lemma quote_notMem_spell (n : ℕ) : 0x27 ∉ englishDigits.spell n :=
  notMem_spell (by decide) quote_notMem_name n

lemma zero_notMem_insertText (i r : ℕ) {words : List UInt8} (h : 0 ∉ words) :
    0 ∉ insertText i r words := by
  have hopening : 0 ∉ ascii "INSERT INTO t1 VALUES(" := by decide
  have hcomma : 0 ∉ ascii "," := by decide
  have hquote : 0 ∉ ascii ",'" := by decide
  have hclosing : 0 ∉ ascii "');" := by decide
  simp only [insertText, List.mem_append, not_or]
  exact ⟨hopening, zero_notMem_decimalText i, hcomma, zero_notMem_decimalText r, hquote, h,
    hclosing⟩

lemma length_insertText_lt {i r : ℕ} (hi : i < 10 ^ 5) (hr : r < 10 ^ 5) {words : List UInt8}
    (hwords : words.length ≤ 59) : (insertText i r words).length < textSize := by
  have hnumbers := Nat.add_le_add (length_decimalText_le (by decide) hi)
    (length_decimalText_le (by decide) hr)
  have hfixed : (ascii "INSERT INTO t1 VALUES(").length = 22 ∧ (ascii ",").length = 1 ∧
      (ascii ",'").length = 2 ∧ (ascii "');").length = 3 := by decide
  simp only [insertText, List.length_append, hfixed, textSize]
  omega

end Texts

/-! ### The calls -/

/-- How checked calls end: all of them accepted, or one refused and the later ones not made. -/
inductive Checked (cs : List SqlCall) : SqlLog → Bool → Prop
  | accepted (done : SqlLog) (hcalls : done.map Prod.fst = cs)
      (haccepted : ∀ e ∈ done, checkReturn e.2 = true) : Checked cs done true
  | refused (done : SqlLog) (c : SqlCall) (ret : ℤ) (rest : List SqlCall)
      (hcalls : done.map Prod.fst ++ c :: rest = cs)
      (haccepted : ∀ e ∈ done, checkReturn e.2 = true) (hrefused : checkReturn ret = false) :
      Checked cs (done ++ [(c, ret)]) false

namespace Checked

variable {cs cs' : List SqlCall} {h h' : SqlLog} {b : Bool}

lemma append_of_accepted (hfirst : Checked cs h true) (hthen : Checked cs' h' b) :
    Checked (cs ++ cs') (h ++ h') b := by
  obtain ⟨_, rfl, haccepted⟩ | _ := hfirst
  have hall : ∀ {done' : SqlLog}, (∀ e ∈ done', checkReturn e.2 = true) →
      ∀ e ∈ h ++ done', checkReturn e.2 = true := by
    intro done' hdone' e he
    exact (List.mem_append.mp he).elim (haccepted e) (hdone' e)
  cases hthen with
  | accepted _ hcalls hdone' =>
    exact .accepted _ (by rw [List.map_append, hcalls]) (hall hdone')
  | refused done' c ret rest hcalls hdone' hrefused =>
    rw [← List.append_assoc]
    refine .refused _ c ret rest ?_ (hall hdone') hrefused
    rw [List.map_append, List.append_assoc, hcalls]

lemma append_of_refused (hfirst : Checked cs h false) : Checked (cs ++ cs') h false := by
  obtain - | ⟨done, c, ret, rest, rfl, haccepted, hrefused⟩ := hfirst
  exact .refused done c ret (rest ++ cs') (by simp) haccepted hrefused

lemma isPrefix_calls (hchecked : Checked cs h b) : h.map Prod.fst <+: cs := by
  cases hchecked with
  | accepted done hcalls => exact hcalls ▸ List.prefix_rfl
  | refused done c ret rest hcalls =>
    refine ⟨rest, ?_⟩
    rw [List.map_append, List.append_assoc]
    exact hcalls

end Checked

section Calls

variable (db : SqlLog → SqlCall → ℤ)

lemma checkedAll_spec (h : SqlLog) (cs : List SqlCall) :
    ∃ more b, checkedAll db h cs = (h ++ more, b) ∧ Checked cs more b := by
  induction cs generalizing h with
  | nil => exact ⟨[], true, by simp [checkedAll], .accepted [] rfl (by simp)⟩
  | cons c cs ih =>
    cases hret : checkReturn (db h c) with
    | false =>
      refine ⟨[(c, db h c)], false, ?_, .refused [] c _ cs rfl (by simp) hret⟩
      simp [checkedAll, hret]
    | true =>
      obtain ⟨more, b, hrest, hchecked⟩ := ih (h ++ [(c, db h c)])
      refine ⟨(c, db h c) :: more, b, ?_, ?_⟩
      · simp [checkedAll, hret, hrest]
      · have hfirst : Checked [c] [(c, db h c)] true := .accepted _ rfl (by simpa using hret)
        exact hfirst.append_of_accepted hchecked

variable {db} in
lemma Answered.append {h : SqlLog} (hlog : Answered db h) (c : SqlCall) :
    Answered db (h ++ [(c, db h c)]) := by
  intro done c' ret rest heq
  rcases rest.eq_nil_or_concat with rfl | ⟨rest, e, rfl⟩
  · obtain ⟨rfl, hlast⟩ := List.append_inj' heq rfl
    obtain ⟨rfl, rfl⟩ := Prod.mk.inj (List.singleton_inj.mp hlast)
    rfl
  · rw [List.concat_eq_append, ← List.cons_append, ← List.append_assoc] at heq
    exact hlog _ _ _ _ (List.append_inj' heq rfl).1

variable {db} in
lemma Answered.checkedAll {h : SqlLog} (hlog : Answered db h) (cs : List SqlCall) :
    Answered db (checkedAll db h cs).1 := by
  induction cs generalizing h with
  | nil => exact hlog
  | cons c cs ih =>
    rw [ExpressOS.checkedAll]
    split_ifs
    · exact ih (hlog.append c)
    · exact hlog.append c

variable (random : ℕ → ℕ)

/-- The row of the turn `i`. -/
def insertRow (i : ℕ) : Row :=
  (i, insertValue random i, englishDigits.spell (insertValue random i))

def rowText : Row → List UInt8
  | (i, r, words) => insertText i r words

/-- The calls of `n` turns from the turn `i` on. -/
def inserts (i n : ℕ) : List SqlCall :=
  (List.range' i n).flatMap fun k => statement (rowText (insertRow random k))

lemma insertValue_lt (i : ℕ) : insertValue random i < period + period / 2 :=
  Nat.add_lt_add_right (Nat.mod_lt _ (by decide)) _

/-- The calls before the `COMMIT`. -/
def insertCalls : List SqlCall :=
  statement beginText ++ inserts random 0 insertNum

lemma ne_exec_of_mem_insertCalls {c : SqlCall} (hc : c ∈ insertCalls random) (sql : List UInt8) :
    c ≠ .exec sql := by
  have hstatement : ∀ text, c ∈ statement text → c ≠ .exec sql := by
    rintro text h rfl
    simp [statement] at h
  obtain hbegin | hinsert := List.mem_append.mp hc
  · exact hstatement _ hbegin
  · obtain ⟨i, -, hi⟩ := List.mem_flatMap.mp hinsert
    exact hstatement _ hi

/-- What one turn leaves to the next: its statement is in the second buffer, whole. -/
lemma insertLoop_succ (buf1 buf2 : ℕ) {n i : ℕ} (hi : i < insertNum) (mem : Memory) (h : SqlLog) :
    ∃ mem', insertLoop db random buf1 buf2 (n + 1) i mem h =
      match checkedAll db h (statement (rowText (insertRow random i))) with
      | (h, true) => insertLoop db random buf1 buf2 n (i + 1) mem' h
      | (h, false) => some (h, false) := by
  have hvalue := insertValue_lt random i
  have hint : insertValue random i < 2 ^ 31 := hvalue.trans (by decide)
  obtain ⟨mem₁, hnum, hwords, -⟩ := numToStr_eq hint buf1 mem
  have hlength := length_spell_le hint
  have hcwords := cString_of_terminated hwords (hlength.trans_lt (by decide : 59 < textSize))
  have hsize : (rowText (insertRow random i)).length < textSize :=
    length_insertText_lt (hi.trans (by decide)) (hvalue.trans (by decide)) hlength
  have hzero : 0 ∉ rowText (insertRow random i) := zero_notMem_insertText _ _ (zero_notMem_spell _)
  have hcsql := cString_of_terminated (terminated_sprintf mem₁ buf2 hzero) hsize
  refine ⟨sprintf mem₁ buf2 (rowText (insertRow random i)), ?_⟩
  rw [insertLoop]
  simp only [hnum, hcwords, Option.bind_eq_bind, Option.bind_some]
  rw [show insertText i (insertValue random i) (englishDigits.spell (insertValue random i)) =
    rowText (insertRow random i) from rfl, sprintfInto_of_lt hsize]
  simp only [Option.bind_some, hcsql]

lemma insertLoop_spec (buf1 buf2 n : ℕ) {i : ℕ} (hi : i + n ≤ insertNum) (mem : Memory)
    (h : SqlLog) :
    ∃ more b, insertLoop db random buf1 buf2 n i mem h = some (h ++ more, b) ∧
      Checked (inserts random i n) more b := by
  induction n generalizing i mem h with
  | zero => exact ⟨[], true, by simp [insertLoop], .accepted [] rfl (by simp)⟩
  | succ n ih =>
    have hi' : i < insertNum := by omega
    obtain ⟨mem', hturn⟩ := insertLoop_succ db random buf1 buf2 (n := n) hi' mem h
    obtain ⟨more, b, hcalls, hchecked⟩ :=
      checkedAll_spec db h (statement (rowText (insertRow random i)))
    rw [hturn, hcalls, inserts, List.range'_succ, List.flatMap_cons]
    cases b with
    | false => exact ⟨more, false, rfl, hchecked.append_of_refused⟩
    | true =>
      have hrest : i + 1 + n ≤ insertNum := by omega
      obtain ⟨later, b, hloop, hlater⟩ := ih hrest mem' (h ++ more)
      exact ⟨more ++ later, b, by rw [← List.append_assoc]; exact hloop,
        hchecked.append_of_accepted hlater⟩

variable {db random} in
lemma Answered.insertLoop {buf1 buf2 n i : ℕ} (hi : i + n ≤ insertNum) {mem : Memory}
    {h h' : SqlLog} {b : Bool} (hlog : Answered db h)
    (hrun : insertLoop db random buf1 buf2 n i mem h = some (h', b)) : Answered db h' := by
  induction n generalizing i mem h with
  | zero =>
    cases hrun
    exact hlog
  | succ n ih =>
    have hi' : i < insertNum := by omega
    obtain ⟨mem', hturn⟩ := insertLoop_succ db random buf1 buf2 (n := n) hi' mem h
    have hstatement := hlog.checkedAll (statement (rowText (insertRow random i)))
    rw [hturn] at hrun
    rcases hcalls : ExpressOS.checkedAll db h (statement (rowText (insertRow random i))) with
      ⟨more, b⟩
    rw [hcalls] at hrun hstatement
    cases b with
    | false =>
      cases hrun
      exact hstatement
    | true => exact ih (by omega) hstatement hrun

end Calls

/-! ### The table -/

/-- The rows of the table, and those of the transaction that is open. -/
structure SqlTable where
  committed : List Row
  pending : Option (List Row)
  deriving DecidableEq, Repr

/-- The answer to a call says that it has done its work. -/
def sqlAccepts : SqlCall × ℤ → Bool
  | (.exec _, ret) => ret = 0
  | (_, ret) => checkReturn ret

lemma sqlAccepts_of_ne_exec {e : SqlCall × ℤ} (h : ∀ sql, e.1 ≠ .exec sql) :
    sqlAccepts e = checkReturn e.2 := by
  obtain ⟨c, ret⟩ := e
  cases c with
  | exec sql => exact absurd rfl (h sql)
  | prepare sql | step sql | reset sql => rfl

/-- What the program relies on of the database: how the table follows from the calls made and the
answers to them. A call that is refused leaves open what becomes of the transaction. -/
structure SqlTableLaws (table : SqlLog → SqlTable) : Prop where
  start : (table []).pending = none
  prepared : ∀ h sql ret, sqlAccepts (.prepare sql, ret) = true →
    table (h ++ [(SqlCall.prepare sql, ret)]) = table h
  reset : ∀ h sql ret, sqlAccepts (.reset sql, ret) = true →
    table (h ++ [(SqlCall.reset sql, ret)]) = table h
  begun : ∀ h ret, sqlAccepts (.step beginText, ret) = true → (table h).pending = none →
    table (h ++ [(SqlCall.step beginText, ret)]) = ⟨(table h).committed, some []⟩
  inserted : ∀ h sql ret row rows, sqlAccepts (.step sql, ret) = true →
    readInsert sql = some row → (table h).pending = some rows →
      table (h ++ [(SqlCall.step sql, ret)]) = ⟨(table h).committed, some (rows ++ [row])⟩
  commits : ∀ h ret rows, sqlAccepts (.exec commitText, ret) = true →
    (table h).pending = some rows →
      table (h ++ [(SqlCall.exec commitText, ret)]) = ⟨(table h).committed ++ rows, none⟩
  refused : ∀ h e, sqlAccepts e = false → (table (h ++ [e])).committed = (table h).committed

section Table

variable {table : SqlLog → SqlTable} {random : ℕ → ℕ}

lemma readInsert_rowText (i : ℕ) :
    readInsert (rowText (insertRow random i)) = some (insertRow random i) :=
  readInsert_insertText _ _ (quote_notMem_spell _)

/-- Once the transaction is open, the calls of the loop leave what is committed as it is. -/
def KeepsCommitted (c : SqlCall) : Prop :=
  (∀ sql, c ≠ .exec sql) ∧ ∀ sql, c = .step sql → (readInsert sql).isSome

lemma keepsCommitted_of_mem_statement {c : SqlCall} {sql : List UInt8}
    (hsql : (readInsert sql).isSome) (hc : c ∈ statement sql) : KeepsCommitted c := by
  simp only [statement, List.mem_cons, List.not_mem_nil, or_false] at hc
  obtain rfl | rfl | rfl := hc <;> simp [KeepsCommitted, hsql]

lemma keepsCommitted_of_mem_inserts {c : SqlCall} {i n : ℕ} (hc : c ∈ inserts random i n) :
    KeepsCommitted c := by
  obtain ⟨k, -, hk⟩ := List.mem_flatMap.mp hc
  exact keepsCommitted_of_mem_statement (by rw [readInsert_rowText]; rfl) hk

/-- The log of one statement that was accepted. -/
lemma exists_of_statement {done : SqlLog} {sql : List UInt8} {cs : List SqlCall}
    (hcalls : done.map Prod.fst = statement sql ++ cs) :
    ∃ r₁ r₂ r₃ rest, done = (.prepare sql, r₁) :: (.step sql, r₂) :: (.reset sql, r₃) :: rest ∧
      rest.map Prod.fst = cs := by
  match done, hcalls with
  | (c₁, r₁) :: (c₂, r₂) :: (c₃, r₃) :: rest, hcalls =>
    simp only [statement, List.map_cons, List.cons_append, List.nil_append, List.cons.injEq]
      at hcalls
    obtain ⟨rfl, rfl, rfl, hrest⟩ := hcalls
    exact ⟨r₁, r₂, r₃, rest, rfl, hrest⟩

lemma insertCalls_eq : insertCalls random =
    .prepare beginText :: .step beginText :: .reset beginText :: inserts random 0 insertNum := rfl

namespace SqlTableLaws

variable (laws : SqlTableLaws table) {h done : SqlLog}

include laws

lemma step_open (hopen : (table h).pending.isSome) {e : SqlCall × ℤ}
    (haccepted : sqlAccepts e = true) (hkeeps : KeepsCommitted e.1) :
    (table (h ++ [e])).pending.isSome ∧
      (table (h ++ [e])).committed = (table h).committed := by
  obtain ⟨rows, hrows⟩ := Option.isSome_iff_exists.mp hopen
  obtain ⟨hexec, hstep⟩ := hkeeps
  obtain ⟨c, ret⟩ := e
  cases c with
  | prepare sql =>
    rw [laws.prepared h sql ret haccepted]
    exact ⟨hopen, rfl⟩
  | reset sql =>
    rw [laws.reset h sql ret haccepted]
    exact ⟨hopen, rfl⟩
  | exec sql => exact absurd rfl (hexec sql)
  | step sql =>
    obtain ⟨row, hrow⟩ := Option.isSome_iff_exists.mp (hstep sql rfl)
    rw [laws.inserted h sql ret row rows haccepted hrow hrows]
    exact ⟨rfl, rfl⟩

lemma append_open (hopen : (table h).pending.isSome) (haccepted : ∀ e ∈ done, sqlAccepts e = true)
    (hkeeps : ∀ e ∈ done, KeepsCommitted e.1) :
    (table (h ++ done)).committed = (table h).committed := by
  induction done generalizing h with
  | nil => rw [List.append_nil]
  | cons e done ih =>
    obtain ⟨hopen', hcommitted⟩ :=
      laws.step_open hopen (haccepted e List.mem_cons_self) (hkeeps e List.mem_cons_self)
    rw [List.append_cons, ih hopen' (fun e' he' => haccepted e' (List.mem_cons_of_mem _ he'))
      (fun e' he' => hkeeps e' (List.mem_cons_of_mem _ he')), hcommitted]

/-- A statement that is accepted takes effect in its `step`. -/
lemma append_statement {sql : List UInt8} {r₁ r₂ r₃ : ℤ}
    (h₁ : sqlAccepts (.prepare sql, r₁) = true) (h₃ : sqlAccepts (.reset sql, r₃) = true)
    {t : SqlTable} (hstep : ∀ h', table h' = table h → table (h' ++ [(SqlCall.step sql, r₂)]) = t) :
    table (h ++ [(SqlCall.prepare sql, r₁), (.step sql, r₂), (.reset sql, r₃)]) = t := by
  rw [List.append_cons, List.append_cons, laws.reset _ _ _ h₃]
  exact hstep _ (laws.prepared h sql r₁ h₁)

lemma table_begin {r₁ r₂ r₃ : ℤ} (h₁ : sqlAccepts (.prepare beginText, r₁) = true)
    (h₂ : sqlAccepts (.step beginText, r₂) = true)
    (h₃ : sqlAccepts (.reset beginText, r₃) = true) :
    table [(SqlCall.prepare beginText, r₁), (.step beginText, r₂), (.reset beginText, r₃)] =
      ⟨(table []).committed, some []⟩ :=
  laws.append_statement (h := []) h₁ h₃ fun h' hh' => by
    rw [laws.begun h' r₂ h₂ (by rw [hh', laws.start]), hh']

lemma append_inserts {i n : ℕ} (hcalls : done.map Prod.fst = inserts random i n)
    (haccepted : ∀ e ∈ done, sqlAccepts e = true) {rows : List Row}
    (hopen : (table h).pending = some rows) :
    table (h ++ done) = ⟨(table h).committed,
      some (rows ++ (List.range' i n).map (insertRow random))⟩ := by
  induction n generalizing i h done rows with
  | zero =>
    obtain rfl : done = [] := List.map_eq_nil_iff.mp hcalls
    rw [List.append_nil, List.range'_zero, List.map_nil, List.append_nil, ← hopen]
  | succ n ih =>
    rw [inserts, List.range'_succ, List.flatMap_cons] at hcalls
    obtain ⟨r₁, r₂, r₃, rest, rfl, hrest⟩ := exists_of_statement hcalls
    have hprepare := haccepted (.prepare (rowText (insertRow random i)), r₁) (by simp)
    have hstep := haccepted (.step (rowText (insertRow random i)), r₂) (by simp)
    have hreset := haccepted (.reset (rowText (insertRow random i)), r₃) (by simp)
    have hturn : table (h ++ [(SqlCall.prepare (rowText (insertRow random i)), r₁),
        (.step (rowText (insertRow random i)), r₂), (.reset (rowText (insertRow random i)), r₃)]) =
          ⟨(table h).committed, some (rows ++ [insertRow random i])⟩ :=
      laws.append_statement hprepare hreset fun h' hh' => by
        rw [laws.inserted h' _ r₂ _ rows hstep (readInsert_rowText i) (hh' ▸ hopen), hh']
    have hlater := ih hrest (fun e he => haccepted e (by simp [he])) (congrArg (·.pending) hturn)
    rw [hturn, List.append_assoc] at hlater
    rw [List.range'_succ, List.map_cons, List.append_cons rows]
    exact hlater

lemma table_of_accepted (hchecked : Checked (insertCalls random) h true) :
    table h = ⟨(table []).committed, some ((List.range insertNum).map (insertRow random))⟩ := by
  obtain ⟨_, hcalls, hchecked⟩ | _ := hchecked
  have haccepted : ∀ e ∈ h, sqlAccepts e = true := fun e he =>
    (sqlAccepts_of_ne_exec (ne_exec_of_mem_insertCalls random
      (hcalls ▸ List.mem_map_of_mem he))).trans (hchecked e he)
  obtain ⟨r₁, r₂, r₃, rest, rfl, hrest⟩ := exists_of_statement hcalls
  have hopen := laws.table_begin (haccepted (.prepare beginText, r₁) (by simp))
    (haccepted (.step beginText, r₂) (by simp)) (haccepted (.reset beginText, r₃) (by simp))
  have hrows := laws.append_inserts hrest (fun e he => haccepted e (by simp [he]))
    (congrArg (·.pending) hopen)
  rw [hopen] at hrows
  rw [List.range_eq_range']
  exact hrows

/-- Until the `COMMIT` the accepted calls leave what is committed as it is. -/
lemma committed_of_isPrefix (hcalls : h.map Prod.fst <+: insertCalls random)
    (haccepted : ∀ e ∈ h, sqlAccepts e = true) : (table h).committed = (table []).committed := by
  rw [insertCalls_eq] at hcalls
  -- the transaction is open from the second call on
  match h with
  | [] => rfl
  | [(c, ret)] =>
    obtain rfl : c = .prepare beginText := (List.cons_prefix_cons.mp hcalls).1
    exact congrArg (·.committed) (laws.prepared [] beginText ret (haccepted _ (by simp)))
  | (c₁, r₁) :: (c₂, r₂) :: done =>
    obtain ⟨rfl, htail⟩ := List.cons_prefix_cons.mp hcalls
    obtain ⟨rfl, hdone⟩ := List.cons_prefix_cons.mp htail
    have hprepared : table [(SqlCall.prepare beginText, r₁)] = table [] :=
      laws.prepared [] beginText r₁ (haccepted _ (by simp))
    have hopen : table [(SqlCall.prepare beginText, r₁), (.step beginText, r₂)] =
        ⟨(table []).committed, some []⟩ := by
      have hbegin := laws.begun [(.prepare beginText, r₁)] r₂
        (haccepted (.step beginText, r₂) (by simp)) (by rw [hprepared, laws.start])
      rwa [hprepared] at hbegin
    have hkeeps : ∀ e ∈ done, KeepsCommitted e.1 := by
      intro e he
      obtain heq | hmem := List.mem_cons.mp (hdone.subset (List.mem_map_of_mem he))
      · rw [heq]
        simp [KeepsCommitted]
      · exact keepsCommitted_of_mem_inserts hmem
    have hlater := laws.append_open (by rw [hopen]; rfl) (fun e he => haccepted e (by simp [he]))
      hkeeps
    rw [hopen] at hlater
    exact hlater

lemma committed_of_refused (hchecked : Checked (insertCalls random) h false) :
    (table h).committed = (table []).committed := by
  have hmade : ∀ e ∈ h, ∀ sql, e.1 ≠ .exec sql := fun e he =>
    ne_exec_of_mem_insertCalls random (hchecked.isPrefix_calls.subset (List.mem_map_of_mem he))
  obtain - | ⟨done, c, ret, rest, hcalls, haccepted, hrefused⟩ := hchecked
  have hlast : sqlAccepts (c, ret) = false :=
    (sqlAccepts_of_ne_exec (hmade _ (by simp))).trans hrefused
  rw [laws.refused done (c, ret) hlast]
  refine laws.committed_of_isPrefix ⟨_, hcalls⟩ fun e he => ?_
  rw [sqlAccepts_of_ne_exec (hmade e (List.mem_append_left _ he))]
  exact haccepted e he

end SqlTableLaws

end Table

section Runs

variable (db : SqlLog → SqlCall → ℤ) (random : ℕ → ℕ) (buf1 buf2 : ℕ) (mem : Memory)

lemma testInsert_cases :
    ∃ h b, Checked (insertCalls random) h b ∧ Answered db h ∧
      testInsert db random buf1 buf2 mem = some
        (if b then (h ++ [(.exec commitText, db h (.exec commitText))],
          if db h (.exec commitText) = 0 then .finished else .finalizeFailed)
        else (h, .aborted)) := by
  obtain ⟨h, b, hbegin, hchecked⟩ := checkedAll_spec db [] (statement beginText)
  have hlog : Answered db (checkedAll db [] (statement beginText)).1 := by
    have hnone : Answered db [] := by simp [Answered]
    exact hnone.checkedAll _
  rw [hbegin] at hlog
  cases b with
  | false => exact ⟨h, false, hchecked.append_of_refused, hlog, by simp [testInsert, hbegin]⟩
  | true =>
    have hall : 0 + insertNum ≤ insertNum := Nat.le_of_eq (Nat.zero_add _)
    obtain ⟨more, b, hloop, hmore⟩ := insertLoop_spec db random buf1 buf2 insertNum hall mem h
    refine ⟨h ++ more, b, hchecked.append_of_accepted hmore, hlog.insertLoop hall hloop, ?_⟩
    cases b <;> simp [testInsert, hbegin, hloop]

/-- Whatever the database answers, the texts fit their buffers, and the rows are committed all
together or not at all. -/
theorem testInsert_rows {table : SqlLog → SqlTable} (laws : SqlTableLaws table) :
    let before := (table []).committed
    let rows := (List.range insertNum).map (insertRow random)
    ∃ h outcome, testInsert db random buf1 buf2 mem = some (h, outcome) ∧
      h.map Prod.fst <+: insertCalls random ++ [.exec commitText] ∧ Answered db h ∧
      (outcome = .finished →
        h.map Prod.fst = insertCalls random ++ [.exec commitText] ∧
        (∀ e ∈ h, checkReturn e.2 = true) ∧ table h = ⟨before ++ rows, none⟩) ∧
      (outcome ≠ .finished → (table h).committed = before) ∧
      (outcome = .finalizeFailed →
        ∃ done ret, h = done ++ [(SqlCall.exec commitText, ret)] ∧ ret ≠ 0 ∧
          done.map Prod.fst = insertCalls random ∧ (∀ e ∈ done, checkReturn e.2 = true) ∧
          table done = ⟨before, some rows⟩) ∧
      (outcome = .aborted →
        ∃ done c ret, h = done ++ [(c, ret)] ∧ checkReturn ret = false ∧
          (∀ e ∈ done, checkReturn e.2 = true) ∧ .exec commitText ∉ h.map Prod.fst) := by
  intro before rows
  obtain ⟨h, b, hchecked, hlog, hrun⟩ := testInsert_cases db random buf1 buf2 mem
  refine ⟨_, _, hrun.trans (congrArg some (Prod.mk.eta).symm), ?_⟩
  cases b with
  | true =>
    have htable : table h = ⟨before, some rows⟩ := laws.table_of_accepted hchecked
    obtain ⟨_, hcalls, haccepted⟩ | _ := hchecked
    have hlog' := hlog.append (.exec commitText)
    generalize db h (.exec commitText) = ret at hlog' ⊢
    have hmade : (h ++ [(SqlCall.exec commitText, ret)]).map Prod.fst =
        insertCalls random ++ [.exec commitText] := by
      rw [List.map_append, hcalls, List.map_singleton]
    obtain rfl | hret := eq_or_ne ret 0
    · have hall : ∀ e ∈ h ++ [(SqlCall.exec commitText, 0)], checkReturn e.2 = true := by
        intro e he
        obtain he | he := List.mem_append.mp he
        · exact haccepted e he
        · rw [List.mem_singleton.mp he]
          rfl
      have hcommit := laws.commits h 0 rows rfl (congrArg (·.pending) htable)
      rw [htable] at hcommit
      exact ⟨hmade ▸ List.prefix_rfl, hlog', fun _ => ⟨hmade, hall, hcommit⟩,
        fun hne => absurd rfl hne, by simp, by simp⟩
    · have hrefused := laws.refused h (.exec commitText, ret) (by simpa [sqlAccepts] using hret)
      rw [htable] at hrefused
      exact ⟨hmade ▸ List.prefix_rfl, hlog', by simp [hret], fun _ => hrefused,
        fun _ => ⟨h, ret, rfl, hret, hcalls, haccepted, htable⟩, by simp [hret]⟩
  | false =>
    have hinit := hchecked.isPrefix_calls
    have hcommitted := laws.committed_of_refused hchecked
    refine ⟨hinit.trans (List.prefix_append _ _), hlog, by simp, fun _ => hcommitted, by simp,
      fun _ => ?_⟩
    obtain - | ⟨done, c, ret, rest, hcalls, haccepted, hrefused⟩ := hchecked
    refine ⟨done, c, ret, rfl, hrefused, haccepted, fun hmem => ?_⟩
    exact ne_exec_of_mem_insertCalls random (hinit.subset hmem) _ rfl

end Runs

/-! ### A table -/

/-- `SQLITE_BUSY` -/
def sqliteBusy : ℤ := 5

/-- `SQLITE_FULL` -/
def sqliteFull : ℤ := 13

/-- A database with one table. After a `COMMIT` that fails with another error than `SQLITE_BUSY`
nothing is left of the transaction. -/
def SqlTable.apply (t : SqlTable) : SqlCall × ℤ → SqlTable
  | (.step sql, ret) =>
    if checkReturn ret then
      if sql = beginText then { t with pending := some [] }
      else
        match readInsert sql, t.pending with
        | some row, some rows => { t with pending := some (rows ++ [row]) }
        | some row, none => { t with committed := t.committed ++ [row] }
        | none, _ => t
    else t
  | (.exec sql, ret) =>
    if ret = 0 then
      if sql = commitText then ⟨t.committed ++ t.pending.getD [], none⟩ else t
    else if ret = sqliteBusy then t
    else { t with pending := none }
  | _ => t

def sampleTable (h : SqlLog) : SqlTable := h.foldl SqlTable.apply ⟨[], none⟩

lemma sampleTable_append (h : SqlLog) (e : SqlCall × ℤ) :
    sampleTable (h ++ [e]) = (sampleTable h).apply e := by
  rw [sampleTable, List.foldl_append]
  rfl

lemma sampleTable_laws : SqlTableLaws sampleTable where
  start := rfl
  prepared h sql ret _ := sampleTable_append h _
  reset h sql ret _ := sampleTable_append h _
  begun h ret haccept _ := by
    have haccepted : checkReturn ret = true := haccept
    rw [sampleTable_append, SqlTable.apply, if_pos haccepted, if_pos rfl]
  inserted h sql ret row rows haccept hrow hopen := by
    have haccepted : checkReturn ret = true := haccept
    have hbegin : sql ≠ beginText := by
      rintro rfl
      rw [show readInsert beginText = none by decide] at hrow
      cases hrow
    rw [sampleTable_append, SqlTable.apply, if_pos haccepted, if_neg hbegin, hrow, hopen]
  commits h ret rows haccept hopen := by
    rw [sampleTable_append, SqlTable.apply, if_pos (of_decide_eq_true haccept), if_pos rfl, hopen]
    rfl
  refused h e hrefuse := by
    rw [sampleTable_append]
    obtain ⟨c, ret⟩ := e
    cases c with
    | prepare sql | reset sql => rfl
    | step sql => rw [SqlTable.apply, if_neg (by simpa [sqlAccepts] using hrefuse)]
    | exec sql =>
      rw [SqlTable.apply, if_neg (of_decide_eq_false hrefuse)]
      split_ifs <;> rfl

/-- A database that is full when the rows are to be committed. -/
def fullDatabase (_ : SqlLog) (c : SqlCall) : ℤ :=
  if c = .exec commitText then sqliteFull else 0

/-- All statements are accepted, the `COMMIT` fails, and none of the rows is in the table. -/
theorem testInsert_rows_full :
    ∃ h, testInsert fullDatabase id 4096 8192 (fun _ => 0) = some (h, .finalizeFailed) ∧
      h.map Prod.fst = insertCalls id ++ [.exec commitText] ∧ (sampleTable h).committed = [] := by
  obtain ⟨h, outcome, hrun, hcalls, hlog, hfinished, hcommitted, hfailed, haborted⟩ :=
    testInsert_rows fullDatabase id 4096 8192 (fun _ => 0) sampleTable_laws
  cases outcome with
  | finished =>
    obtain ⟨hmade, haccepted, -⟩ := hfinished rfl
    obtain ⟨⟨c, ret⟩, hmem, rfl⟩ : ∃ e ∈ h, e.1 = .exec commitText :=
      List.mem_map.mp (hmade ▸ List.mem_append_right _ (List.mem_singleton_self _))
    obtain ⟨done, rest, heq⟩ := List.append_of_mem hmem
    have hret := haccepted _ hmem
    rw [hlog done _ ret rest heq, fullDatabase, if_pos rfl] at hret
    exact absurd hret (by decide)
  | finalizeFailed =>
    obtain ⟨done, ret, rfl, -, hmade, -⟩ := hfailed rfl
    exact ⟨_, hrun, by rw [List.map_append, hmade]; rfl, hcommitted (by simp)⟩
  | aborted =>
    obtain ⟨done, c, ret, rfl, hrefused, -, hexec⟩ := haborted rfl
    have hne : c ≠ .exec commitText := by
      rintro rfl
      exact hexec (by simp)
    rw [hlog done c ret [] rfl, fullDatabase, if_neg hne] at hrefused
    exact absurd hrefused (by decide)

end ExpressOS

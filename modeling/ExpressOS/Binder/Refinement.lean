import ExpressOS.Binder.Requests

/-!
# The marshaler refines its requests

The loop parses the copied buffer and rewrites it in place. Each lemma gives the whole result of
one function in terms of the requests of the bytes it reads: the return value, the table, and the
buffer it leaves.
-/

namespace ExpressOS
open Systems

variable (codes : BinderCodes) (vm : BinderVm)

lemma recordSegment_spec (m : IpcMarshaler) (ptr length : ℕ) :
    (recordSegment vm m ptr length).1 =
        (recordAll vm [⟨m.buf.word ptr, length⟩] m.segments).1.getD 0 ∧
      (recordSegment vm m ptr length).2.segments =
        (recordAll vm [⟨m.buf.word ptr, length⟩] m.segments).2 ∧
      (recordSegment vm m ptr length).2.bufSize = m.bufSize ∧
      (recordSegment vm m ptr length).2.writePtr = m.writePtr ∧
      ((recordAll vm [⟨m.buf.word ptr, length⟩] m.segments).1 = none →
        (recordSegment vm m ptr length).2.buf = m.buf.setWord ptr (m.buf.word ptr - vm.start)) := by
  by_cases hfull : m.segments.length ≥ maxSegmentNum
  · simp [recordSegment, recordAll, IpcMarshaler.dataEntries, hfull]
  · by_cases hin : vm.contains (m.buf.word ptr) <;>
      simp [recordSegment, recordAll, IpcMarshaler.dataEntries, IpcMarshaler.note, hfull, hin,
        Request.segment]

/-- The bytes after one field: its pointer word rewritten when its size is not zero. -/
def relocateField (buf : Memory) (size ptr : ℕ) : Memory :=
  if buf.word size ≠ 0 then buf.setWord ptr (buf.word ptr - vm.start) else buf

lemma marshalField_spec (m : IpcMarshaler) (size ptr : ℕ) :
    let rec' := recordAll vm (fieldRequest (m.buf.word size) (m.buf.word ptr)) m.segments
    let out := marshalField vm m size ptr
    out.1 = rec'.1.getD 0 ∧ out.2.segments = rec'.2 ∧ out.2.bufSize = m.bufSize ∧
      out.2.writePtr = m.writePtr ∧
      (rec'.1 = none → out.2.buf = relocateField vm m.buf size ptr) := by
  by_cases hsize : m.buf.word size = 0
  · simp [marshalField, fieldRequest, recordAll, relocateField, IpcMarshaler.note, hsize]
  · have hrec := recordSegment_spec vm (m.note (.read size 4)) ptr (m.buf.word size)
    simpa only [marshalField, fieldRequest, relocateField, IpcMarshaler.note, ne_eq, hsize,
      not_false_eq_true, if_true] using hrec

def relocateRecord (buf : Memory) (tr : ℕ) : Memory :=
  relocateField vm (relocateField vm buf (tr + 24) (tr + 32)) (tr + 28) (tr + 36)

lemma word_relocateField {buf : Memory} {size ptr a : ℕ} (h : a + 4 ≤ ptr ∨ ptr + 4 ≤ a) :
    (relocateField vm buf size ptr).word a = buf.word a := by
  unfold relocateField
  split
  · exact Memory.word_setWord_of_disjoint h
  · rfl

lemma relocateField_of_disjoint {buf : Memory} {size ptr x : ℕ} (h : x < ptr ∨ ptr + 4 ≤ x) :
    relocateField vm buf size ptr x = buf x := by
  unfold relocateField
  split
  · exact Memory.setWord_of_disjoint h
  · rfl

lemma read_relocateField_self (buf : Memory) (size ptr : ℕ) :
    (relocateField vm buf size ptr).read ptr 4 =
      if buf.word size ≠ 0 then leBytes 4 (buf.word ptr - vm.start) else buf.read ptr 4 := by
  unfold relocateField
  split <;> simp

def recordRequests (buf : Memory) (tr : ℕ) : List Request :=
  fieldRequest (buf.word (tr + 24)) (buf.word (tr + 32)) ++
    fieldRequest (buf.word (tr + 28)) (buf.word (tr + 36))

lemma marshalTransaction_spec (m : IpcMarshaler) (tr : ℕ) :
    let rec' := recordAll vm (recordRequests m.buf tr) m.segments
    let out := marshalTransaction vm m tr
    out.1 = rec'.1.getD 0 ∧ out.2.segments = rec'.2 ∧ out.2.bufSize = m.bufSize ∧
      out.2.writePtr = m.writePtr ∧ (rec'.1 = none → out.2.buf = relocateRecord vm m.buf tr) := by
  obtain ⟨hret, hseg, hsize, hptr, hbuf⟩ := marshalField_spec vm m (tr + 24) (tr + 32)
  rcases hfirst : marshalField vm m (tr + 24) (tr + 32) with ⟨ret, m1⟩
  rw [hfirst] at hret hseg hsize hptr hbuf
  dsimp only at hret hseg hsize hptr hbuf ⊢
  rw [recordRequests, recordAll_append]
  rcases hrec : recordAll vm (fieldRequest (m.buf.word (tr + 24)) (m.buf.word (tr + 32)))
    m.segments with ⟨_ | r, es⟩
  · rw [hrec] at hret hseg hbuf
    -- the second half reads its two words behind the rewritten one
    have hmem : m1.buf = relocateField vm m.buf (tr + 24) (tr + 32) := hbuf rfl
    have hwsize : m1.buf.word (tr + 28) = m.buf.word (tr + 28) := by
      rw [hmem, word_relocateField vm (by omega)]
    have hwptr : m1.buf.word (tr + 36) = m.buf.word (tr + 36) := by
      rw [hmem, word_relocateField vm (by omega)]
    obtain ⟨hret', hseg', hsize', hptr', hbuf'⟩ := marshalField_spec vm m1 (tr + 28) (tr + 36)
    rw [hwsize, hwptr, hseg] at hret' hseg' hbuf'
    rcases hsecond : marshalField vm m1 (tr + 28) (tr + 36) with ⟨ret', m2⟩
    rw [hsecond] at hret' hseg' hsize' hptr' hbuf'
    dsimp only at hret' hseg' hsize' hptr' hbuf' ⊢
    have hzero : ret = 0 := hret
    simp only [marshalTransaction, hfirst, hzero, lt_irrefl, if_false, hsecond]
    rcases hrec' : recordAll vm (fieldRequest (m.buf.word (tr + 28)) (m.buf.word (tr + 36))) es
      with ⟨_ | r', es'⟩
    · rw [hrec'] at hret' hseg' hbuf'
      have hzero' : ret' = 0 := hret'
      simp only [hzero', lt_irrefl, if_false]
      refine ⟨rfl, hseg', hsize'.trans hsize, hptr'.trans hptr, fun _ => ?_⟩
      rw [hbuf' rfl, hmem, relocateRecord]
    · rw [hrec'] at hret' hseg'
      have hneg : r' < 0 := recordAll_error_neg (congrArg Prod.fst hrec')
      have hr : ret' = r' := hret'
      simp only [hr, hneg, if_true]
      exact ⟨rfl, hseg', hsize'.trans hsize, hptr'.trans hptr, fun h => by cases h⟩
  · rw [hrec] at hret hseg
    have hneg : r < 0 := recordAll_error_neg (congrArg Prod.fst hrec)
    have hr : ret = r := hret
    simp only [marshalTransaction, hfirst, hr, hneg, if_true]
    exact ⟨rfl, hseg, hsize, hptr, fun h => by cases h⟩

section record

variable {buf : Memory} {tr : ℕ} {c : Command}

lemma recordRequests_eq (h : buf.read tr 40 = c.args) (hbody : c.kind.body = .transaction) :
    recordRequests buf tr = c.requests := by
  have hword : ∀ i, i + 4 ≤ 40 → buf.word (tr + i) = c.argWord i := fun i hi =>
    Memory.word_eq_of_read h hi
  rw [Command.requests, if_pos hbody, recordRequests, hword 24 (by omega), hword 28 (by omega),
    hword 32 (by omega), hword 36 (by omega)]
  rfl

lemma read_relocateRecord (h : buf.read tr 40 = c.args) (hbody : c.kind.body = .transaction) :
    (relocateRecord vm buf tr).read tr 40 = (c.relocate vm).args := by
  have hword : ∀ i, i + 4 ≤ 40 → buf.word (tr + i) = c.argWord i := fun i hi =>
    Memory.word_eq_of_read h hi
  have hdrop : ∀ k, k ≤ 40 → buf.read (tr + k) (40 - k) = c.args.drop k := fun k hk => by
    rw [← h, Memory.read_drop _ hk]
  have hhead : (relocateRecord vm buf tr).read tr 32 = c.args.take 32 := by
    rw [← h, Memory.read_take _ (by omega), relocateRecord]
    exact Memory.read_congr (fun x _ hx => by
      rw [relocateField_of_disjoint vm (by omega), relocateField_of_disjoint vm (by omega)])
  have hdata : (relocateRecord vm buf tr).read (tr + 32) 4 =
      if c.dataSize ≠ 0 then leBytes 4 (c.dataPtr - vm.start) else (c.args.drop 32).take 4 := by
    have hlater : (relocateRecord vm buf tr).read (tr + 32) 4 =
        (relocateField vm buf (tr + 24) (tr + 32)).read (tr + 32) 4 :=
      Memory.read_congr (fun x _ hx => relocateField_of_disjoint vm (by omega))
    rw [hlater, read_relocateField_self, hword 24 (by omega), hword 32 (by omega),
      ← hdrop 32 (by omega), Memory.read_take _ (by omega)]
    rfl
  have hoffs : (relocateRecord vm buf tr).read (tr + 36) 4 =
      if c.offsetsSize ≠ 0 then leBytes 4 (c.offsetsPtr - vm.start) else c.args.drop 36 := by
    have hearlier : (relocateField vm buf (tr + 24) (tr + 32)).read (tr + 36) 4 =
        buf.read (tr + 36) 4 :=
      Memory.read_congr (fun x hx _ => relocateField_of_disjoint vm (by omega))
    rw [relocateRecord, read_relocateField_self, word_relocateField vm (by omega),
      word_relocateField vm (by omega), hword 28 (by omega), hword 36 (by omega), hearlier,
      ← hdrop 36 (by omega)]
    rfl
  rw [show (40 : ℕ) = 32 + 4 + 4 from rfl, Memory.read_add, Memory.read_add, hhead, hdata, hoffs,
    Command.relocate, Command.args_mapPointers hbody]

lemma relocateRecord_of_disjoint {x : ℕ} (h : x < tr ∨ tr + 40 ≤ x) :
    relocateRecord vm buf tr x = buf x := by
  rw [relocateRecord, relocateField_of_disjoint vm (by omega),
    relocateField_of_disjoint vm (by omega)]

end record

/-- On bytes that start no whole command the loop stops without touching them. -/
lemma marshalLoop_tail {m : IpcMarshaler} {stop ptr : ℕ} {tail : List UInt8} (hptr : ptr ≤ stop)
    (hread : m.buf.read ptr (stop - ptr) = tail) (ht : splitCommand codes tail = none) :
    let out := marshalLoop codes vm stop m ptr
    out.1 = tailError codes tail ∧ out.2.segments = m.segments ∧ out.2.bufSize = m.bufSize ∧
      out.2.writePtr = m.writePtr ∧ out.2.buf = m.buf := by
  have hlen : tail.length = stop - ptr := by rw [← hread, Memory.length_read]
  rw [marshalLoop]
  by_cases hend : ptr < stop
  · have hnil : tail ≠ [] := by
      intro h
      rw [h, List.length_nil] at hlen
      omega
    by_cases hshort : ptr + 4 > stop
    · have hlt : tail.length < 4 := by omega
      simp [hend, hshort, tailError, hnil, hlt]
    · have hcmd : m.buf.word ptr = leNat (tail.take 4) := by
        simpa using Memory.word_eq_of_read (i := 0) hread (by omega)
      have hge : ¬ tail.length < 4 := by omega
      simp only [hend, hshort, if_true, if_false, hcmd, tailError, hnil, hge]
      cases hk : codes.decode (leNat (tail.take 4)) with
      | none => simp [IpcMarshaler.note]
      | some k =>
        have hshort' := length_lt_of_splitCommand_none ht (by omega) hk
        rw [BrCommand.argSize] at hshort'
        cases hbody : k.body with
        | skip =>
          rw [hbody, SwitchBody.argSize] at hshort'
          omega
        | transaction =>
          rw [hbody, SwitchBody.argSize] at hshort'
          have hrec : ptr + 4 + 40 > stop := by omega
          simp [hbody, hrec, IpcMarshaler.note]
        | refs =>
          rw [hbody, SwitchBody.argSize] at hshort'
          have hpast : ¬ ptr + 4 + 8 < stop := by omega
          simp [hbody, marshalLoop, hpast, IpcMarshaler.note]
  · have hnil : tail = [] := by
      rw [← List.length_eq_zero_iff]
      omega
    simp [hend, hnil, tailError]

/-- `marshal_transaction` on the record of a command at `ptr`: the error its requests run into, or
the command relocated, and nothing else touched. -/
lemma marshalTransaction_command {m : IpcMarshaler} {ptr : ℕ} {c : Command}
    (hbody : c.kind.body = .transaction)
    (hhead : m.buf.read ptr 4 = leBytes 4 (codes.code c.kind))
    (hargs : m.buf.read (ptr + 4) 40 = c.args) :
    let rec' := recordAll vm c.requests m.segments
    let out := marshalTransaction vm m (ptr + 4)
    out.1 = rec'.1.getD 0 ∧ out.2.segments = rec'.2 ∧ out.2.bufSize = m.bufSize ∧
      out.2.writePtr = m.writePtr ∧
      (rec'.1 = none → out.2.buf.read ptr (4 + 40) = (c.relocate vm).encode codes ∧
        ∀ x, x < ptr ∨ ptr + (4 + 40) ≤ x → out.2.buf x = m.buf x) := by
  obtain ⟨hret, hseg, hbs, hwp, hbuf⟩ := marshalTransaction_spec vm m (ptr + 4)
  rw [recordRequests_eq hargs hbody] at hret hseg hbuf
  refine ⟨hret, hseg, hbs, hwp, fun hnone => ⟨?_, fun x hx => ?_⟩⟩
  · have hkept : (relocateRecord vm m.buf (ptr + 4)).read ptr 4 =
        leBytes 4 (codes.code c.kind) := by
      rw [← hhead]
      exact Memory.read_congr (fun x _ hx => relocateRecord_of_disjoint vm (by omega))
    rw [hbuf hnone, Memory.read_add, hkept, read_relocateRecord vm hargs hbody]
    rfl
  · rw [hbuf hnone]
    exact relocateRecord_of_disjoint vm (by omega)

/-- One turn of the loop: what it returns, or the marshaler and the position it goes on with. -/
def marshalTurn (stop : ℕ) (m : IpcMarshaler) (ptr : ℕ) : Option ℤ × IpcMarshaler × ℕ :=
  if ptr + 4 > stop then (some (-EFAULT), m, ptr)
  else
    let cmd := m.buf.word ptr
    let m := m.note (.read ptr 4)
    match (codes.decode cmd).map BrCommand.body with
    | some .skip => (none, m, ptr + 4)
    | some .transaction =>
      if ptr + 4 + 40 > stop then (some (-EFAULT), m, ptr + 4)
      else
        match marshalTransaction vm m (ptr + 4) with
        | (ret, m) => (if ret < 0 then some ret else none, m, ptr + 4 + 40)
    | some .refs => (none, m, ptr + 4 + 8)
    | none => (some (-1), m, ptr + 4)

lemma marshalLoop_eq {stop : ℕ} {m : IpcMarshaler} {ptr : ℕ} (h : ptr < stop) :
    marshalLoop codes vm stop m ptr =
      match marshalTurn codes vm stop m ptr with
      | (some r, m1, _) => (some r, m1)
      | (none, m1, next) => marshalLoop codes vm stop m1 next := by
  rw [marshalLoop, if_pos h, marshalTurn]
  by_cases hfull : ptr + 4 > stop
  · rw [if_pos hfull, if_pos hfull]
  · rw [if_neg hfull, if_neg hfull]
    dsimp only
    rcases (codes.decode (m.buf.word ptr)).map BrCommand.body with _ | _ | _ | _
    · rfl
    · rfl
    · by_cases hrecord : ptr + 4 + 40 > stop
      · simp only [if_pos hrecord]
      · simp only [if_neg hrecord]
        split_ifs <;> rfl
    · rfl

lemma marshalTurn_lt {stop : ℕ} {m m1 : IpcMarshaler} {ptr next : ℕ}
    (h : marshalTurn codes vm stop m ptr = (none, m1, next)) : ptr < next := by
  by_contra hle
  have hnext : (marshalTurn codes vm stop m ptr).2.2 ≤ ptr := by
    rw [h]
    exact not_lt.mp hle
  have hnone : (marshalTurn codes vm stop m ptr).1 = none := by rw [h]
  unfold marshalTurn at hnext hnone
  by_cases hfull : ptr + 4 > stop
  · rw [if_pos hfull] at hnone
    cases hnone
  · rw [if_neg hfull] at hnext hnone
    dsimp only at hnext hnone
    cases hbody : (codes.decode (m.buf.word ptr)).map BrCommand.body with
    | none =>
      rw [hbody] at hnone
      cases hnone
    | some body =>
      rw [hbody] at hnext hnone
      cases body with
      | skip | refs =>
        dsimp only at hnext
        omega
      | transaction =>
        by_cases hrecord : ptr + 4 + 40 > stop
        · simp only [if_pos hrecord] at hnone
          cases hnone
        · simp only [if_neg hrecord] at hnext
          omega

/-- One turn on a whole command: it stops with the error its requests run into, or goes on behind
the command, which it leaves relocated. -/
lemma marshalTurn_command {m : IpcMarshaler} {stop ptr : ℕ} {c : Command} {rest : List UInt8}
    (hptr : ptr ≤ stop) (hread : m.buf.read ptr (stop - ptr) = c.encode codes ++ rest) :
    let rec' := recordAll vm c.requests m.segments
    ∃ m1 : IpcMarshaler, m1.segments = rec'.2 ∧ m1.bufSize = m.bufSize ∧
      m1.writePtr = m.writePtr ∧
      marshalTurn codes vm stop m ptr = (rec'.1, m1, ptr + (4 + c.kind.argSize)) ∧
      (rec'.1 = none →
        m1.buf.read ptr (4 + c.kind.argSize) = (c.relocate vm).encode codes ∧
          ∀ x, x < ptr ∨ ptr + (4 + c.kind.argSize) ≤ x → m1.buf x = m.buf x) := by
  have hsize : stop - ptr = 4 + c.kind.argSize + rest.length := by
    have hlen := congrArg List.length hread
    simpa using hlen
  have hcommand : m.buf.read ptr (4 + c.kind.argSize) = c.encode codes := by
    simpa using (Memory.read_of_append hread).1
  have hwords := Memory.read_of_append hcommand
  have hhead : m.buf.read ptr 4 = leBytes 4 (codes.code c.kind) := by simpa using hwords.1
  have hcmd : m.buf.word ptr = codes.code c.kind := word_command (Memory.read_of_append hread).1
  have hargs : m.buf.read (ptr + 4) c.kind.argSize = c.args := by
    simpa [c.length_args] using hwords.2
  have hfull : ¬ ptr + 4 > stop := by omega
  rw [marshalTurn]
  simp only [hfull, if_false, hcmd, CodeTable.decode_code, Option.map_some]
  cases hbody : c.kind.body with
  | skip =>
    have hreq : c.requests = [] := by simp [Command.requests, hbody]
    have hzero : c.kind.argSize = 0 := by rw [BrCommand.argSize, hbody]; rfl
    have hsame : c.relocate vm = c := Command.mapPointers_of_body_ne (by simp [hbody])
    refine ⟨m.note (.read ptr 4), ?_⟩
    simp only [hreq, recordAll, hzero, hsame]
    rw [hzero] at hcommand
    exact ⟨rfl, rfl, rfl, trivial, fun _ => ⟨hcommand, fun _ _ => rfl⟩⟩
  | refs =>
    have hreq : c.requests = [] := by simp [Command.requests, hbody]
    have height : c.kind.argSize = 8 := by rw [BrCommand.argSize, hbody]; rfl
    have hsame : c.relocate vm = c := Command.mapPointers_of_body_ne (by simp [hbody])
    refine ⟨m.note (.read ptr 4), ?_⟩
    simp only [hreq, recordAll, height, hsame]
    rw [height] at hcommand
    exact ⟨rfl, rfl, rfl, trivial, fun _ => ⟨hcommand, fun _ _ => rfl⟩⟩
  | transaction =>
    have hforty : c.kind.argSize = 40 := by rw [BrCommand.argSize, hbody]; rfl
    rw [hforty] at hsize hargs
    have hrecord : ¬ ptr + 4 + 40 > stop := by omega
    obtain ⟨hret, hseg, hbs, hwp, hdone⟩ :=
      @marshalTransaction_command codes vm (m.note (.read ptr 4)) ptr c hbody hhead hargs
    rcases htr : marshalTransaction vm (m.note (.read ptr 4)) (ptr + 4) with ⟨ret, m1⟩
    rw [htr] at hret hseg hbs hwp hdone
    refine ⟨m1, hseg, hbs, hwp, ?_⟩
    simp only [hrecord, if_false, hforty]
    refine ⟨?_, hdone⟩
    change ret = (recordAll vm c.requests m.segments).1.getD 0 at hret
    cases hrec : (recordAll vm c.requests m.segments).1 with
    | none =>
      rw [hrec] at hret
      have hzero : ret = 0 := hret
      rw [hzero, if_neg (lt_irrefl 0)]
    | some r =>
      rw [hrec] at hret
      have hneg : r < 0 := recordAll_error_neg hrec
      have hr : ret = r := hret
      rw [hr, if_pos hneg]

lemma marshalLoop_command {m : IpcMarshaler} {stop ptr : ℕ} {c : Command} {rest : List UInt8}
    (hptr : ptr ≤ stop) (hread : m.buf.read ptr (stop - ptr) = c.encode codes ++ rest) :
    let rec' := recordAll vm c.requests m.segments
    ∃ m1 : IpcMarshaler, m1.segments = rec'.2 ∧ m1.bufSize = m.bufSize ∧
      m1.writePtr = m.writePtr ∧
      match rec'.1 with
      | some r => marshalLoop codes vm stop m ptr = (some r, m1)
      | none =>
        marshalLoop codes vm stop m ptr =
            marshalLoop codes vm stop m1 (ptr + (4 + c.kind.argSize)) ∧
          m1.buf.read ptr (4 + c.kind.argSize) = (c.relocate vm).encode codes ∧
          ∀ x, x < ptr ∨ ptr + (4 + c.kind.argSize) ≤ x → m1.buf x = m.buf x := by
  have hlt : ptr < stop := by
    have hlen := congrArg List.length hread
    simp only [Memory.length_read, List.length_append, Command.length_encode] at hlen
    omega
  obtain ⟨m1, hseg, hbs, hwp, hturn, hdone⟩ := marshalTurn_command codes vm hptr hread
  refine ⟨m1, hseg, hbs, hwp, ?_⟩
  rw [marshalLoop_eq codes vm hlt, hturn]
  cases hrec : (recordAll vm c.requests m.segments).1 with
  | none => exact ⟨rfl, hdone hrec⟩
  | some r => rfl

/-- What lies behind a command still lies there after its turn. -/
lemma read_behind_command {m m1 : IpcMarshaler} {stop ptr : ℕ} {c : Command} {rest : List UInt8}
    (hread : m.buf.read ptr (stop - ptr) = c.encode codes ++ rest)
    (hframe : ∀ x, x < ptr ∨ ptr + (4 + c.kind.argSize) ≤ x → m1.buf x = m.buf x) :
    m1.buf.read (ptr + (4 + c.kind.argSize)) (stop - (ptr + (4 + c.kind.argSize))) = rest := by
  have hsize := congrArg List.length hread
  rw [Memory.length_read, List.length_append, Command.length_encode] at hsize
  have hold := (Memory.read_of_append hread).2
  rw [Command.length_encode] at hold
  rw [← hold, show stop - (ptr + (4 + c.kind.argSize)) = rest.length by omega]
  exact Memory.read_congr (fun x hx _ => hframe x (.inr hx))

/-- The loop on whole commands followed by bytes that start none. -/
theorem marshalLoop_spec (cs : List Command) {m : IpcMarshaler} {stop ptr : ℕ}
    {tail : List UInt8} (hptr : ptr ≤ stop)
    (hread : m.buf.read ptr (stop - ptr) = codes.stream.encodeAll cs ++ tail)
    (ht : splitCommand codes tail = none) :
    let rec' := recordAll vm (requestsOf cs) m.segments
    let out := marshalLoop codes vm stop m ptr
    out.1 = rec'.1.or (tailError codes tail) ∧ out.2.segments = rec'.2 ∧
      out.2.bufSize = m.bufSize ∧ out.2.writePtr = m.writePtr ∧
      (rec'.1 = none →
        out.2.buf.read ptr (stop - ptr) =
          codes.stream.encodeAll (cs.map (Command.relocate vm)) ++ tail ∧
        ∀ x, x < ptr → out.2.buf x = m.buf x) := by
  induction cs generalizing m ptr with
  | nil =>
    obtain ⟨h1, h2, h3, h4, h5⟩ := marshalLoop_tail codes vm hptr hread ht
    refine ⟨h1, h2, h3, h4, fun _ => ⟨?_, fun x _ => by rw [h5]⟩⟩
    rw [h5]
    exact hread
  | cons c cs ih =>
    rw [StreamCode.encodeAll_cons, BinderCodes.stream_encode, List.append_assoc] at hread
    obtain ⟨m1, hseg, hbs, hwp, hstep⟩ := marshalLoop_command codes vm hptr hread
    have hsize : stop - ptr = 4 + c.kind.argSize + (codes.stream.encodeAll cs ++ tail).length := by
      have hlen := congrArg List.length hread
      simpa using hlen
    rw [requestsOf_cons, recordAll_append]
    rcases hrec : recordAll vm c.requests m.segments with ⟨_ | r, es⟩
    · rw [hrec] at hseg hstep
      obtain ⟨hloop, hhead, hframe⟩ := hstep
      have hrest := read_behind_command codes hread hframe
      have hnext := @ih m1 (ptr + (4 + c.kind.argSize)) (by omega) hrest
      rw [hseg, hbs, hwp, ← hloop] at hnext
      obtain ⟨h1, h2, h3, h4, h5⟩ := hnext
      refine ⟨h1, h2, h3, h4, fun hnone => ?_⟩
      obtain ⟨hread', hframe'⟩ := h5 hnone
      refine ⟨?_, fun x hx => (hframe' x (by omega)).trans (hframe x (Or.inl hx))⟩
      rw [hsize, Memory.read_add, Memory.read_congr (fun x _ hx => hframe' x hx), hhead,
        show (codes.stream.encodeAll cs ++ tail).length =
          stop - (ptr + (4 + c.kind.argSize)) by omega,
        hread', List.map_cons, StreamCode.encodeAll_cons, BinderCodes.stream_encode,
        List.append_assoc]
    · rw [hrec] at hseg hstep
      rw [show marshalLoop codes vm stop m ptr = (some r, m1) from hstep]
      exact ⟨rfl, hseg, hbs, hwp, fun h => by cases h⟩

/-- The frames of a table: each header followed by the bytes of the mapping it names. -/
def framesOf (es : List DataSegment) : List UInt8 :=
  es.flatMap (fun e => e.header ++ vm.mem.read (vm.start + e.offset) e.length)

@[simp] lemma framesOf_nil : framesOf vm [] = [] := rfl

@[simp] lemma framesOf_cons (e : DataSegment) (es : List DataSegment) :
    framesOf vm (e :: es) =
      e.header ++ vm.mem.read (vm.start + e.offset) e.length ++ framesOf vm es := by
  simp [framesOf]

@[simp] lemma length_framesOf (es : List DataSegment) :
    (framesOf vm es).length = framesSize es := by
  induction es with
  | nil => rfl
  | cons e es ih =>
    rw [framesOf_cons, framesSize_cons, List.length_append, List.length_append, ih,
      DataSegment.length_header, Memory.length_read]

/-- The marshaler after one appended frame. -/
def appendFrame (m : IpcMarshaler) (e : DataSegment) : IpcMarshaler where
  buf := (m.buf.write m.writePtr e.header).write (m.writePtr + dataSegmentSize)
    (vm.mem.read (vm.start + e.offset) e.length)
  bufSize := m.bufSize
  writePtr := m.writePtr + dataSegmentSize + e.length
  segments := m.segments
  accesses := .writePtr (m.writePtr + dataSegmentSize + e.length) ::
    .append (m.writePtr + dataSegmentSize) e.length :: .vmRead e.offset e.length ::
    .writePtr (m.writePtr + dataSegmentSize) :: .append m.writePtr dataSegmentSize :: m.accesses

/-- One turn of the append loop: no space, a copy past the end of the buffer, or a frame. -/
lemma appendDataSegments_cons (m : IpcMarshaler) (e : DataSegment) (es : List DataSegment) :
    (m.bufSize - m.writePtr < e.space ∧
        appendDataSegments vm (e :: es) m = (.ret (-ENOMEM), m)) ∨
      (¬ m.bufSize - m.writePtr < e.space ∧
        m.bufSize < m.writePtr + dataSegmentSize + e.length ∧
        (appendDataSegments vm (e :: es) m).1 = .fault ∧
        (appendDataSegments vm (e :: es) m).2.segments = m.segments ∧
        ((appendDataSegments vm (e :: es) m).2.accesses =
            .append m.writePtr dataSegmentSize :: m.accesses ∧
          m.bufSize < m.writePtr + dataSegmentSize ∨
        (appendDataSegments vm (e :: es) m).2.accesses =
            .append (m.writePtr + dataSegmentSize) e.length :: .vmRead e.offset e.length ::
            .writePtr (m.writePtr + dataSegmentSize) ::
            .append m.writePtr dataSegmentSize :: m.accesses)) ∨
      (¬ m.bufSize - m.writePtr < e.space ∧
        m.writePtr + dataSegmentSize + e.length ≤ m.bufSize ∧
        appendDataSegments vm (e :: es) m = appendDataSegments vm es (appendFrame vm m e)) := by
  by_cases hspace : m.bufSize - m.writePtr < e.space
  · left
    simp [appendDataSegments, hspace]
  right
  by_cases hheader : m.bufSize < m.writePtr + dataSegmentSize
  · left
    have hover : m.bufSize < m.writePtr + dataSegmentSize + e.length := by omega
    simp [appendDataSegments, hspace, hheader, hover, IpcMarshaler.note]
  · by_cases hdata : m.bufSize < m.writePtr + dataSegmentSize + e.length
    · left
      simp [appendDataSegments, hspace, hheader, hdata, IpcMarshaler.note,
        IpcMarshaler.setWritePtr]
    · right
      have hfit : m.writePtr + dataSegmentSize + e.length ≤ m.bufSize := by omega
      simp [appendDataSegments, hspace, hheader, hdata, hfit, IpcMarshaler.note,
        IpcMarshaler.setWritePtr, appendFrame]

lemma read_appendFrame (m : IpcMarshaler) (e : DataSegment) :
    (appendFrame vm m e).buf.read 0 (appendFrame vm m e).writePtr =
      m.buf.read 0 m.writePtr ++ (e.header ++ vm.mem.read (vm.start + e.offset) e.length) := by
  have hheader : (m.buf.write m.writePtr e.header).read m.writePtr dataSegmentSize = e.header := by
    simpa using Memory.read_write_self m.buf m.writePtr e.header
  have hdata : ∀ b : Memory, (b.write (m.writePtr + dataSegmentSize)
      (vm.mem.read (vm.start + e.offset) e.length)).read (m.writePtr + dataSegmentSize) e.length =
        vm.mem.read (vm.start + e.offset) e.length := fun b => by
    simpa using Memory.read_write_self b (m.writePtr + dataSegmentSize)
      (vm.mem.read (vm.start + e.offset) e.length)
  simp only [appendFrame]
  rw [Memory.read_add, Memory.read_add, Nat.zero_add, Nat.zero_add, hdata,
    Memory.read_write_of_le (by omega), Memory.read_write_of_le (by omega),
    Memory.read_write_of_le (by omega), hheader, List.append_assoc]

lemma appendDataSegments_segments (es : List DataSegment) (m : IpcMarshaler) :
    (appendDataSegments vm es m).2.segments = m.segments := by
  induction es generalizing m with
  | nil => rfl
  | cons e es ih =>
    rcases appendDataSegments_cons vm m e es with ⟨-, hout⟩ | ⟨-, -, -, hseg, -⟩ | ⟨-, -, hout⟩
    · rw [hout]
    · exact hseg
    · rw [hout, ih]
      rfl

theorem appendDataSegments_spec (es : List DataSegment) {m : IpcMarshaler}
    (hwp : m.writePtr ≤ m.bufSize) :
    let out := appendDataSegments vm es m
    out.1 = appendOutcome (m.bufSize - m.writePtr) es ∧
      (out.1 = .ret 0 → out.2.writePtr = m.writePtr + framesSize es ∧
        out.2.buf.read 0 out.2.writePtr = m.buf.read 0 m.writePtr ++ framesOf vm es) := by
  induction es generalizing m with
  | nil => simp [appendDataSegments, appendOutcome]
  | cons e es ih =>
    rw [appendOutcome]
    rcases appendDataSegments_cons vm m e es with ⟨hspace, hout⟩ | ⟨hspace, hover, hout, -, -⟩ |
      ⟨hspace, hfit, hout⟩
    · rw [hout, if_pos hspace]
      exact ⟨rfl, fun h => by cases h⟩
    · rw [if_neg hspace, if_pos (by omega)]
      exact ⟨hout, fun h => by rw [hout] at h; cases h⟩
    · have hfree : m.bufSize - m.writePtr - (dataSegmentSize + e.length) =
          (appendFrame vm m e).bufSize - (appendFrame vm m e).writePtr := by
        simp only [appendFrame]
        omega
      rw [hout, if_neg hspace, if_neg (by omega), hfree]
      obtain ⟨hres, hdone⟩ := ih (m := appendFrame vm m e) hfit
      refine ⟨hres, fun h => ?_⟩
      obtain ⟨hptr, hread⟩ := hdone h
      refine ⟨?_, ?_⟩
      · rw [hptr, framesSize_cons]
        simp only [appendFrame]
        omega
      · rw [hread, read_appendFrame, framesOf_cons, List.append_assoc]

/-- The whole marshaler in terms of the commands of the read buffer. -/
theorem marshalerMarshal_spec (junk : Memory) {R : List UInt8} (hR : R.length ≤ readBufferSize) :
    let out := marshalerMarshal codes vm (.fresh junk) R
    out.1 = marshalOutcome codes vm R ∧ out.2.segments = recordedSegments codes vm R ∧
      (out.1 = .ret 0 →
        out.2.writePtr = R.length + framesSize (recordedSegments codes vm R) ∧
        out.2.buf.read 0 out.2.writePtr =
          codes.stream.encodeAll ((codes.stream.decodeAll R).1.map (Command.relocate vm)) ++
            (codes.stream.decodeAll R).2 ++ framesOf vm (recordedSegments codes vm R)) := by
  have hcopy : (marshalCopy (.fresh junk) R).buf.read 0 (R.length - 0) =
      codes.stream.encodeAll (codes.stream.decodeAll R).1 ++ (codes.stream.decodeAll R).2 := by
    rw [codes.stream.encodeAll_decodeAll]
    exact Memory.read_write_self junk 0 R
  obtain ⟨hret, hseg, hbs, hwp, hbuf⟩ :=
    marshalLoop_spec codes vm (codes.stream.decodeAll R).1 (Nat.zero_le _) hcopy
      (codes.stream.split_decodeAll R)
  have hempty : (marshalCopy (.fresh junk) R).segments = [] := rfl
  have hbs0 : (marshalCopy (.fresh junk) R).bufSize = marshalerBufSize := rfl
  have hwp0 : (marshalCopy (.fresh junk) R).writePtr = R.length := rfl
  rw [hempty] at hret hseg hbuf
  rw [hbs0] at hbs
  rw [hwp0] at hwp
  dsimp only
  rw [marshalerMarshal, marshalOutcome]
  rcases hloop : marshalLoop codes vm R.length (marshalCopy (.fresh junk) R) 0 with ⟨_ | r, m1⟩
  · rw [hloop] at hret hseg hbs hwp hbuf
    dsimp only at hret hseg hbs hwp hbuf ⊢
    rw [← hret]
    have hnone : (recordAll vm (requestsOf (codes.stream.decodeAll R).1) []).1 = none := by
      cases hrec : (recordAll vm (requestsOf (codes.stream.decodeAll R).1) []).1 with
      | none => rfl
      | some r =>
        rw [hrec] at hret
        cases hret
    have hfit : m1.writePtr ≤ m1.bufSize := by
      rw [hbs, hwp]
      exact hR.trans (by decide)
    obtain ⟨hres, hdone⟩ := appendDataSegments_spec vm m1.segments hfit
    have hseg' := appendDataSegments_segments vm m1.segments m1
    rw [hbs, hwp] at hres
    dsimp only
    rw [← hseg, ← hres]
    rw [recordedSegments, ← hseg]
    rcases happ : appendDataSegments vm m1.segments m1 with ⟨r | _, m2⟩
    · rw [happ] at hseg' hdone
      dsimp only at hseg' hdone ⊢
      by_cases hr : r = 0
      · subst hr
        simp only [Outcome.collapse, ne_eq, not_true_eq_false, if_false]
        refine ⟨trivial, hseg', fun _ => ?_⟩
        obtain ⟨hptr, hread⟩ := hdone rfl
        refine ⟨by rw [hptr, hwp], ?_⟩
        rw [hread, hwp, ← (hbuf hnone).1, Nat.sub_zero]
      · simp [Outcome.collapse, hr, hseg']
    · rw [happ] at hseg'
      exact ⟨rfl, hseg', fun h => by cases h⟩
  · rw [hloop] at hret hseg
    dsimp only at hret hseg ⊢
    rw [← hret]
    refine ⟨rfl, hseg, fun h => ?_⟩
    have hneg : r < 0 := by
      rcases hrec : (recordAll vm (requestsOf (codes.stream.decodeAll R).1) []).1 with _ | r'
      · rw [hrec, Option.none_or] at hret
        exact tailError_neg hret.symm
      · rw [hrec] at hret
        cases hret
        exact recordAll_error_neg hrec
    exact absurd (Outcome.ret.inj h) hneg.ne

end ExpressOS

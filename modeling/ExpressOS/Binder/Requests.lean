import ExpressOS.Binder.Marshaler

/-!
# What a read buffer asks to be marshaled

The abstract side of the marshaler: the segments a command stream requests, the stream with its
pointers replaced, and the frames a list of requests stands for. Nothing here refers to buffers
or cursors.
-/

namespace ExpressOS
open Systems

/-- A non-empty segment named by a transaction record. -/
structure Request where
  ptr : ℕ
  length : ℕ
  deriving DecidableEq, Repr

def Request.segment (vm : BinderVm) (r : Request) : DataSegment :=
  ⟨r.ptr - vm.start, r.length⟩

/-- The size word and the pointer word of one half of a record, as a request. -/
def fieldRequest (size ptr : ℕ) : List Request :=
  if size ≠ 0 then [⟨ptr, size⟩] else []

/-- Data before offsets; commands other than transactions request nothing. -/
def Command.requests (c : Command) : List Request :=
  if c.kind.body = .transaction then
    fieldRequest c.dataSize c.dataPtr ++ fieldRequest c.offsetsSize c.offsetsPtr
  else []

def requestsOf (cs : List Command) : List Request :=
  cs.flatMap Command.requests

@[simp] lemma requestsOf_nil : requestsOf [] = [] := rfl

@[simp] lemma requestsOf_cons (c : Command) (cs : List Command) :
    requestsOf (c :: cs) = c.requests ++ requestsOf cs := by
  simp [requestsOf]

lemma length_lt_of_mem_requestsOf {cs : List Command} {r : Request} (h : r ∈ requestsOf cs) :
    r.length < 2 ^ 32 := by
  obtain ⟨c, -, hr⟩ := List.mem_flatMap.mp h
  unfold Command.requests fieldRequest at hr
  split_ifs at hr <;> simp at hr
  · rcases hr with rfl | rfl
    · exact c.argWord_lt 24
    · exact c.argWord_lt 28
  · exact hr ▸ c.argWord_lt 24
  · exact hr ▸ c.argWord_lt 28

def framesSize (es : List DataSegment) : ℕ :=
  (es.map (fun e => dataSegmentSize + e.length)).sum

@[simp] lemma framesSize_nil : framesSize [] = 0 := rfl

@[simp] lemma framesSize_cons (e : DataSegment) (es : List DataSegment) :
    framesSize (e :: es) = dataSegmentSize + e.length + framesSize es := by
  simp [framesSize]

/-- `record_segment` over a list of requests: the error it stops with, and the table it leaves. -/
def recordAll (vm : BinderVm) : List Request → List DataSegment → Option ℤ × List DataSegment
  | [], es => (none, es)
  | r :: rs, es =>
    if es.length ≥ maxSegmentNum then (some (-ENOMEM), es)
    else if vm.contains r.ptr then recordAll vm rs (es ++ [r.segment vm])
    else (some (-EFAULT), es)

/-- The requests that find room in the table and pass the range check, up to the first that does
not. -/
def acceptedRequests (vm : BinderVm) (room : ℕ) (rs : List Request) : List Request :=
  (rs.takeWhile (fun r => vm.contains r.ptr)).take room

lemma recordAll_append (vm : BinderVm) (rs rs' : List Request) (es : List DataSegment) :
    recordAll vm (rs ++ rs') es =
      match recordAll vm rs es with
      | (none, es') => recordAll vm rs' es'
      | (some e, es') => (some e, es') := by
  induction rs generalizing es with
  | nil => rfl
  | cons r rs ih =>
    simp only [List.cons_append, recordAll]
    split
    · rfl
    · split
      · exact ih _
      · rfl

lemma recordAll_append_of_none {vm : BinderVm} {rs : List Request} {es : List DataSegment}
    (h : (recordAll vm rs es).1 = none) (rs' : List Request) :
    recordAll vm (rs ++ rs') es = recordAll vm rs' (recordAll vm rs es).2 := by
  rw [recordAll_append]
  split
  · rename_i hrec
    rw [hrec]
  · rename_i hrec
    rw [hrec] at h
    cases h

lemma recordAll_append_of_some {vm : BinderVm} {rs : List Request} {es : List DataSegment} {e : ℤ}
    (h : (recordAll vm rs es).1 = some e) (rs' : List Request) :
    (recordAll vm (rs ++ rs') es).1 = some e := by
  rw [recordAll_append]
  split
  · rename_i hrec
    rw [hrec] at h
    cases h
  · rename_i hrec
    rw [hrec] at h
    exact h

lemma recordAll_table (vm : BinderVm) (rs : List Request) (es : List DataSegment) :
    (recordAll vm rs es).2 =
      es ++ (acceptedRequests vm (maxSegmentNum - es.length) rs).map (Request.segment vm) := by
  induction rs generalizing es with
  | nil => simp [recordAll, acceptedRequests]
  | cons r rs ih =>
    rw [recordAll]
    by_cases hfull : es.length ≥ maxSegmentNum
    · have hroom : maxSegmentNum - es.length = 0 := by omega
      simp [hfull, hroom, acceptedRequests]
    · obtain ⟨room, hroom⟩ : ∃ room, maxSegmentNum - es.length = room + 1 :=
        ⟨maxSegmentNum - es.length - 1, by omega⟩
      by_cases hin : vm.contains r.ptr
      · have hrest : maxSegmentNum - (es ++ [r.segment vm]).length = room := by
          simp only [List.length_append, List.length_singleton]
          omega
        rw [if_neg hfull, if_pos hin, ih, hrest, hroom]
        simp [acceptedRequests, hin]
      · simp [hfull, hin, acceptedRequests]

lemma recordAll_eq_none_iff (vm : BinderVm) (rs : List Request) (es : List DataSegment)
    (hes : es.length ≤ maxSegmentNum) :
    (recordAll vm rs es).1 = none ↔
      (∀ r ∈ rs, vm.contains r.ptr) ∧ es.length + rs.length ≤ maxSegmentNum := by
  induction rs generalizing es with
  | nil => simp [recordAll, hes]
  | cons r rs ih =>
    rw [recordAll]
    by_cases hfull : es.length ≥ maxSegmentNum
    · rw [if_pos hfull]
      simp only [reduceCtorEq, List.length_cons, false_iff, not_and]
      omega
    · by_cases hin : vm.contains r.ptr
      · have hlen : (es ++ [r.segment vm]).length ≤ maxSegmentNum := by
          simp only [List.length_append, List.length_singleton]
          omega
        rw [if_neg hfull, if_pos hin, ih _ hlen]
        simp only [List.length_append, List.mem_cons, forall_eq_or_imp, hin, true_and,
          List.length_cons, List.length_nil]
        exact and_congr_right (fun _ => by omega)
      · simp [hfull, hin]

lemma recordAll_of_none {vm : BinderVm} {rs : List Request} {es : List DataSegment}
    (h : (recordAll vm rs es).1 = none) :
    (recordAll vm rs es).2 = es ++ rs.map (Request.segment vm) := by
  induction rs generalizing es with
  | nil => simp [recordAll]
  | cons r rs ih =>
    rw [recordAll] at h ⊢
    by_cases hfull : es.length ≥ maxSegmentNum
    · simp [hfull] at h
    · by_cases hin : vm.contains r.ptr
      · rw [if_neg hfull, if_pos hin] at h ⊢
        rw [ih h]
        simp
      · simp [hfull, hin] at h

lemma recordAll_error_neg {vm : BinderVm} {rs : List Request} {es : List DataSegment} {r : ℤ}
    (h : (recordAll vm rs es).1 = some r) : r < 0 := by
  induction rs generalizing es with
  | nil => simp [recordAll] at h
  | cons q rs ih =>
    rw [recordAll] at h
    split at h
    · cases h; decide
    · split at h
      · exact ih h
      · cases h; decide

/-- The pointer words of a transaction that name a non-empty segment, rewritten by `f`. -/
def Command.mapPointers (f : ℕ → ℕ) (c : Command) : Command where
  kind := c.kind
  args :=
    if c.kind.body = .transaction then
      c.args.take 32 ++
        (if c.dataSize ≠ 0 then leBytes 4 (f c.dataPtr) else (c.args.drop 32).take 4) ++
        (if c.offsetsSize ≠ 0 then leBytes 4 (f c.offsetsPtr) else c.args.drop 36)
    else c.args
  length_args := by
    have hlen := c.length_args
    split
    · rename_i hbody
      have hargs : c.args.length = 40 := by rw [hlen, BrCommand.argSize, hbody]; rfl
      split <;> split <;> simp [hlen, BrCommand.argSize, hbody, SwitchBody.argSize]
    · exact hlen

lemma Command.args_mapPointers {f : ℕ → ℕ} {c : Command} (h : c.kind.body = .transaction) :
    (c.mapPointers f).args =
      c.args.take 32 ++
        (if c.dataSize ≠ 0 then leBytes 4 (f c.dataPtr) else (c.args.drop 32).take 4) ++
        (if c.offsetsSize ≠ 0 then leBytes 4 (f c.offsetsPtr) else c.args.drop 36) :=
  if_pos h

lemma Command.mapPointers_of_body_ne {f : ℕ → ℕ} {c : Command} (h : c.kind.body ≠ .transaction) :
    c.mapPointers f = c := by
  obtain ⟨k, args, hargs⟩ := c
  simp only [Command.mapPointers]
  congr 1
  exact if_neg h

/-- The command as the marshaler leaves it: offsets into the mapping instead of pointers. -/
def Command.relocate (vm : BinderVm) : Command → Command :=
  Command.mapPointers (fun p => p - vm.start)

/-- How the loop ends on bytes that start no whole command. A cut-off reference-count command is
skipped like a whole one. -/
def tailError (codes : BinderCodes) (tail : List UInt8) : Option ℤ :=
  if tail = [] then none
  else if tail.length < 4 then some (-EFAULT)
  else
    match (codes.decode (leNat (tail.take 4))).map BrCommand.body with
    | some .skip => none
    | some .transaction => some (-EFAULT)
    | some .refs => none
    | none => some (-1)

lemma tailError_neg {codes : BinderCodes} {tail : List UInt8} {r : ℤ}
    (h : tailError codes tail = some r) : r < 0 := by
  unfold tailError at h
  split_ifs at h
  · cases h; decide
  · split at h <;> cases h <;> decide

/-- A reference-count command whose two pointers are not all there. -/
def CutRefs (codes : BinderCodes) (tail : List UInt8) : Prop :=
  4 ≤ tail.length ∧ tail.length < 12 ∧
    (codes.decode (leNat (tail.take 4))).map BrCommand.body = some .refs

lemma tailError_eq_none_iff {codes : BinderCodes} {tail : List UInt8}
    (ht : splitCommand codes tail = none) :
    tailError codes tail = none ↔ tail = [] ∨ CutRefs codes tail := by
  unfold tailError CutRefs
  by_cases hnil : tail = []
  · simp [hnil]
  by_cases hlen : tail.length < 4
  · have hlen' : ¬ 4 ≤ tail.length := by omega
    simp [hnil, hlen, hlen']
  rw [if_neg hnil, if_neg hlen]
  have hge : 4 ≤ tail.length := by omega
  cases hk : codes.decode (leNat (tail.take 4)) with
  | none => simp [hnil]
  | some k =>
    have hshort := length_lt_of_splitCommand_none ht hge hk
    rw [BrCommand.argSize] at hshort
    cases hbody : k.body with
    | skip =>
      rw [hbody, SwitchBody.argSize] at hshort
      omega
    | transaction => simp [hnil, hbody]
    | refs =>
      rw [hbody, SwitchBody.argSize] at hshort
      simp [hbody, hge, hshort]

/-- How appending a table ends when `free` bytes are left. A frame that passes the 32-bit check
without fitting runs over the end of the buffer. -/
def appendOutcome : ℕ → List DataSegment → Outcome
  | _, [] => .ret 0
  | free, e :: es =>
    if free < e.space then .ret (-ENOMEM)
    else if free < dataSegmentSize + e.length then .fault
    else appendOutcome (free - (dataSegmentSize + e.length)) es

lemma DataSegment.space_of_lt {e : DataSegment} (h : dataSegmentSize + e.length < 2 ^ 32) :
    e.space = dataSegmentSize + e.length :=
  Nat.mod_eq_of_lt h

/-- Everything fits exactly when the frames fit as integers. -/
lemma appendOutcome_eq_zero_iff {free : ℕ} {es : List DataSegment} (hfree : free < 2 ^ 31) :
    appendOutcome free es = .ret 0 ↔ framesSize es ≤ free := by
  induction es generalizing free with
  | nil => simp [appendOutcome]
  | cons e es ih =>
    rw [appendOutcome, framesSize_cons]
    by_cases hspace : free < e.space
    · have hbig : free < dataSegmentSize + e.length :=
        lt_of_lt_of_le hspace (Nat.mod_le _ _)
      have hnot : ¬ dataSegmentSize + e.length + framesSize es ≤ free := by omega
      simp [hspace, hnot, ENOMEM]
    · by_cases hover : free < dataSegmentSize + e.length
      · have hnot : ¬ dataSegmentSize + e.length + framesSize es ≤ free := by omega
        simp [hspace, hover, hnot]
      · rw [if_neg hspace, if_neg hover, ih (by omega)]
        omega

/-- A copy leaves the buffer exactly when the table holds a segment whose length wraps the
32-bit sum, everything before it fits, and the wrapped sum passes for free space. -/
lemma appendOutcome_eq_fault_iff {free : ℕ} {es : List DataSegment} (hfree : free < 2 ^ 31)
    (hlen : ∀ e ∈ es, e.length < 2 ^ 32) :
    appendOutcome free es = .fault ↔
      ∃ pre e post, es = pre ++ e :: post ∧ 2 ^ 32 ≤ dataSegmentSize + e.length ∧
        framesSize pre + dataSegmentSize + e.length ≤ free + 2 ^ 32 := by
  induction es generalizing free with
  | nil => simp [appendOutcome]
  | cons e es ih =>
    have he : e.length < 2 ^ 32 := hlen e (by simp)
    have hes : ∀ e' ∈ es, e'.length < 2 ^ 32 := fun e' h => hlen e' (by simp [h])
    rw [appendOutcome]
    by_cases hspace : free < e.space
    · rw [if_pos hspace]
      constructor
      · intro h
        cases h
      · rintro ⟨pre, x, post, hsplit, hwrap, hfit⟩
        cases pre with
        | nil =>
          obtain ⟨rfl, rfl⟩ := List.cons.inj hsplit
          unfold DataSegment.space dataSegmentSize at hspace
          unfold dataSegmentSize at hwrap hfit
          simp only [framesSize_nil] at hfit
          omega
        | cons y pre =>
          obtain ⟨rfl, rfl⟩ := List.cons.inj hsplit
          rw [framesSize_cons] at hfit
          rw [DataSegment.space_of_lt (by omega)] at hspace
          omega
    · by_cases hover : free < dataSegmentSize + e.length
      · rw [if_neg hspace, if_pos hover]
        refine ⟨fun _ => ⟨[], e, es, rfl, ?_, ?_⟩, fun _ => rfl⟩
        · by_contra hsmall
          rw [DataSegment.space_of_lt (by omega)] at hspace
          omega
        · unfold DataSegment.space dataSegmentSize at hspace
          unfold dataSegmentSize
          simp only [framesSize_nil]
          omega
      · rw [if_neg hspace, if_neg hover, ih (by omega) hes]
        constructor
        · rintro ⟨pre, x, post, rfl, hwrap, hfit⟩
          refine ⟨e :: pre, x, post, rfl, hwrap, ?_⟩
          rw [framesSize_cons]
          omega
        · rintro ⟨pre, x, post, hsplit, hwrap, hfit⟩
          cases pre with
          | nil =>
            obtain ⟨rfl, rfl⟩ := List.cons.inj hsplit
            omega
          | cons y pre =>
            obtain ⟨rfl, rfl⟩ := List.cons.inj hsplit
            rw [framesSize_cons] at hfit
            exact ⟨pre, x, post, rfl, hwrap, by omega⟩

/-- `marshaler_marshal` reports every error of `append_data_segments` as -1. -/
def Outcome.collapse : Outcome → Outcome
  | .ret r => if r ≠ 0 then .ret (-1) else .ret 0
  | .fault => .fault

lemma Outcome.collapse_eq_zero_iff (o : Outcome) : o.collapse = .ret 0 ↔ o = .ret 0 := by
  rcases o with r | _
  · by_cases hr : r = 0 <;> simp [collapse, hr]
  · simp [collapse]

lemma Outcome.collapse_eq_fault_iff (o : Outcome) : o.collapse = .fault ↔ o = .fault := by
  rcases o with r | _
  · by_cases hr : r = 0 <;> simp [collapse, hr]
  · simp [collapse]

/-- How marshaling a read buffer ends, read off its commands. -/
def marshalOutcome (codes : BinderCodes) (vm : BinderVm) (R : List UInt8) : Outcome :=
  let (cs, tail) := codes.stream.decodeAll R
  let (err, es) := recordAll vm (requestsOf cs) []
  match err.or (tailError codes tail) with
  | some r => .ret r
  | none => (appendOutcome (marshalerBufSize - R.length) es).collapse

/-- The segments a read buffer leaves in the table. -/
def recordedSegments (codes : BinderCodes) (vm : BinderVm) (R : List UInt8) : List DataSegment :=
  (recordAll vm (requestsOf (codes.stream.decodeAll R).1) []).2

/-- The loop runs to the end of the stream: nothing stops it behind the whole commands, and every
segment passes the range check and finds room. -/
def StreamParses (codes : BinderCodes) (vm : BinderVm) (R : List UInt8) : Prop :=
  tailError codes (codes.stream.decodeAll R).2 = none ∧
    (∀ r ∈ requestsOf (codes.stream.decodeAll R).1, vm.contains r.ptr) ∧
    (requestsOf (codes.stream.decodeAll R).1).length ≤ maxSegmentNum

lemma marshalOutcome_of_parses {codes : BinderCodes} {vm : BinderVm} {R : List UInt8}
    (h : StreamParses codes vm R) :
    recordedSegments codes vm R =
        (requestsOf (codes.stream.decodeAll R).1).map (Request.segment vm) ∧
      marshalOutcome codes vm R =
        (appendOutcome (marshalerBufSize - R.length) (recordedSegments codes vm R)).collapse := by
  obtain ⟨htail, hin, hroom⟩ := h
  have hrec := (recordAll_eq_none_iff vm (requestsOf (codes.stream.decodeAll R).1) []
    (Nat.zero_le _)).mpr ⟨hin, by simpa using hroom⟩
  refine ⟨by simpa [recordedSegments] using recordAll_of_none hrec, ?_⟩
  simp only [marshalOutcome, hrec, htail, Option.or_none, recordedSegments]

lemma marshalOutcome_of_not_parses {codes : BinderCodes} {vm : BinderVm} {R : List UInt8}
    (h : ¬ StreamParses codes vm R) : ∃ r < 0, marshalOutcome codes vm R = .ret r := by
  have hiff := recordAll_eq_none_iff vm (requestsOf (codes.stream.decodeAll R).1) [] (Nat.zero_le _)
  rw [List.length_nil, Nat.zero_add] at hiff
  unfold marshalOutcome
  dsimp only
  cases hrec : (recordAll vm (requestsOf (codes.stream.decodeAll R).1) []).1 with
  | none =>
    cases htail : tailError codes (codes.stream.decodeAll R).2 with
    | none => exact absurd ⟨htail, hiff.mp hrec⟩ h
    | some r => exact ⟨r, tailError_neg htail, rfl⟩
  | some r => exact ⟨r, recordAll_error_neg hrec, rfl⟩

end ExpressOS

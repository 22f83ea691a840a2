import ExpressOS.Binder.Acceptance

/-!
# Which memory the marshaler touches
-/

namespace ExpressOS
open Systems

variable (codes : BinderCodes) (vm : BinderVm)

/-- What the parsing loop may do when it stays in a copied read buffer of `size` bytes. -/
def Access.Parse (size : ℕ) : Access → Prop
  | .read off len => off + len ≤ size
  | .patch off => off + 4 ≤ size
  | .entry i => i < maxSegmentNum
  | _ => False

/-- An access inside its region: reads and rewrites inside the copied read buffer, table entries
below `MAX_SEGMENT_NUM`, frames between the read buffer and the end of the output buffer, and
`write_ptr` never past that end. -/
def Access.Inside (size bufSize : ℕ) : Access → Prop
  | .fill len => len ≤ bufSize
  | .read off len => off + len ≤ size
  | .patch off => off + 4 ≤ size
  | .entry i => i < maxSegmentNum
  | .append off len => size ≤ off ∧ off + len ≤ bufSize
  | .vmRead _ _ => True
  | .writePtr p => p ≤ bufSize

lemma Access.Parse.inside {size bufSize : ℕ} {a : Access} (h : a.Parse size) :
    a.Inside size bufSize := by
  cases a <;> simp_all [Access.Parse, Access.Inside]

/-- Between two states of the marshaler only parsing accesses have been made. -/
def ParsesTo (size : ℕ) (m m' : IpcMarshaler) : Prop :=
  ∀ a ∈ m'.accesses, a ∈ m.accesses ∨ a.Parse size

namespace ParsesTo

variable {size : ℕ} {m m' m'' : IpcMarshaler}

lemma refl (m : IpcMarshaler) : ParsesTo size m m := fun _ => Or.inl

lemma trans (h : ParsesTo size m m') (h' : ParsesTo size m' m'') : ParsesTo size m m'' :=
  fun a ha => (h' a ha).elim (h a) Or.inr

lemma note_read {off len : ℕ} (h : off + len ≤ size) :
    ParsesTo size m (m.note (.read off len)) := by
  intro b hb
  rcases List.mem_cons.mp hb with rfl | hb
  · exact Or.inr h
  · exact Or.inl hb

end ParsesTo

lemma recordSegment_parses {size : ℕ} (m : IpcMarshaler) {ptr : ℕ} (length : ℕ)
    (h : ptr + 4 ≤ size) : ParsesTo size m (recordSegment vm m ptr length).2 := by
  have hread : ParsesTo size m (m.note (.read ptr 4)) := ParsesTo.note_read h
  unfold recordSegment
  split
  · exact ParsesTo.refl m
  · rename_i hfull
    dsimp only
    split
    · refine hread.trans (fun a ha => ?_)
      rcases List.mem_cons.mp ha with rfl | ha
      · exact Or.inr h
      rcases List.mem_cons.mp ha with rfl | ha
      · exact Or.inr (not_le.mp hfull)
      · exact Or.inl ha
    · exact hread

lemma marshalField_parses {stop : ℕ} (m : IpcMarshaler) {size ptr : ℕ} (hsize : size + 4 ≤ stop)
    (hptr : ptr + 4 ≤ stop) : ParsesTo stop m (marshalField vm m size ptr).2 := by
  have hread : ParsesTo stop m (m.note (.read size 4)) := ParsesTo.note_read hsize
  unfold marshalField
  dsimp only
  split
  · exact hread.trans (recordSegment_parses vm _ _ hptr)
  · exact hread

lemma marshalTransaction_parses {stop : ℕ} (m : IpcMarshaler) {tr : ℕ} (h : tr + 40 ≤ stop) :
    ParsesTo stop m (marshalTransaction vm m tr).2 := by
  have hfirst := marshalField_parses vm m (show tr + 24 + 4 ≤ stop by omega)
    (show tr + 32 + 4 ≤ stop by omega)
  have hsecond : ∀ m1, ParsesTo stop m1 (marshalField vm m1 (tr + 28) (tr + 36)).2 := fun m1 =>
    marshalField_parses vm m1 (by omega) (by omega)
  rw [marshalTransaction]
  rcases hm1 : marshalField vm m (tr + 24) (tr + 32) with ⟨ret, m1⟩
  rw [hm1] at hfirst
  have hboth := hfirst.trans (hsecond m1)
  dsimp only
  by_cases hneg : ret < 0
  · rw [if_pos hneg]
    exact hfirst
  · rw [if_neg hneg]
    rcases hm2 : marshalField vm m1 (tr + 28) (tr + 36) with ⟨ret', m2⟩
    rw [hm2] at hboth
    by_cases hneg' : ret' < 0 <;> simpa [hneg'] using hboth

/-- The parsing loop reads and rewrites only the copied read buffer, wherever its cursor ends. -/
theorem marshalLoop_parses {stop : ℕ} (m : IpcMarshaler) (ptr : ℕ) :
    ParsesTo stop m (marshalLoop codes vm stop m ptr).2 := by
  fun_induction marshalLoop codes vm stop m ptr with
  | case1 m ptr hlt hshort => exact ParsesTo.refl m
  | case2 m ptr hlt hfull cmd m1 hk ih => exact (ParsesTo.note_read (not_lt.mp hfull)).trans ih
  | case3 m ptr hlt hfull cmd m1 hk hshort => exact ParsesTo.note_read (not_lt.mp hfull)
  | case4 m ptr hlt hfull cmd m1 hk hrecord ret m2 htr hneg =>
    have hstep := marshalTransaction_parses vm m1 (not_lt.mp hrecord)
    rw [htr] at hstep
    exact (ParsesTo.note_read (not_lt.mp hfull)).trans hstep
  | case5 m ptr hlt hfull cmd m1 hk hrecord ret m2 htr hneg ih =>
    have hstep := marshalTransaction_parses vm m1 (not_lt.mp hrecord)
    rw [htr] at hstep
    exact ((ParsesTo.note_read (not_lt.mp hfull)).trans hstep).trans ih
  | case6 m ptr hlt hfull cmd m1 hk ih => exact (ParsesTo.note_read (not_lt.mp hfull)).trans ih
  | case7 m ptr hlt hfull cmd m1 hk => exact ParsesTo.note_read (not_lt.mp hfull)
  | case8 m ptr hend => exact ParsesTo.refl m

/-- Appending stays inside the output buffer exactly when no copy runs over its end. -/
theorem appendDataSegments_inside (size : ℕ) (es : List DataSegment) (m : IpcMarshaler)
    (hsize : size ≤ m.writePtr) (hwp : m.writePtr ≤ m.bufSize)
    (hm : ∀ a ∈ m.accesses, a.Inside size m.bufSize) :
    (∀ a ∈ (appendDataSegments vm es m).2.accesses, a.Inside size m.bufSize) ↔
      (appendDataSegments vm es m).1 ≠ .fault := by
  induction es generalizing m with
  | nil => simpa [appendDataSegments] using hm
  | cons e es ih =>
    rcases appendDataSegments_cons vm m e es with ⟨-, hout⟩ | ⟨-, hover, hout, -, hacc⟩ |
      ⟨-, hfit, hout⟩
    · rw [hout]
      simpa using hm
    · rw [hout]
      refine ⟨fun hall => ?_, fun h => absurd rfl h⟩
      rcases hacc with ⟨hacc, hlt⟩ | hacc
      · have hin := hall (.append m.writePtr dataSegmentSize) (by simp [hacc])
        exact absurd hin.2 (by omega)
      · have hin := hall (.append (m.writePtr + dataSegmentSize) e.length) (by simp [hacc])
        exact absurd hin.2 (by omega)
    · rw [hout]
      refine ih (appendFrame vm m e) ?_ hfit (fun a ha => ?_)
      · simp only [appendFrame]
        omega
      · simp only [appendFrame, List.mem_cons] at ha
        rcases ha with rfl | rfl | rfl | rfl | rfl | ha
        · exact hfit
        · exact ⟨by omega, hfit⟩
        · trivial
        · exact (Nat.le_add_right _ e.length).trans hfit
        · exact ⟨hsize, (Nat.le_add_right _ e.length).trans hfit⟩
        · exact hm a ha

/-- The only reads of the mapping are those of segments in the table. -/
theorem appendDataSegments_vmRead (es : List DataSegment) (m : IpcMarshaler) (off len : ℕ)
    (h : .vmRead off len ∈ (appendDataSegments vm es m).2.accesses) :
    .vmRead off len ∈ m.accesses ∨ ⟨off, len⟩ ∈ es := by
  induction es generalizing m with
  | nil => exact Or.inl h
  | cons e es ih =>
    rcases appendDataSegments_cons vm m e es with ⟨-, hout⟩ | ⟨-, -, -, -, hacc⟩ | ⟨-, -, hout⟩
    · rw [hout] at h
      exact Or.inl h
    · rcases hacc with ⟨hacc, -⟩ | hacc <;> rw [hacc] at h <;> simp at h
      · exact Or.inl h
      · rcases h with ⟨rfl, rfl⟩ | h
        · exact Or.inr (by simp)
        · exact Or.inl h
    · rw [hout] at h
      rcases ih _ h with h | h
      · simp [appendFrame] at h
        rcases h with ⟨rfl, rfl⟩ | h
        · exact Or.inr (by simp)
        · exact Or.inl h
      · exact Or.inr (List.mem_cons_of_mem _ h)

/-- The parse of the copied buffer, as both halves of `marshaler_marshal` see it. -/
lemma marshalCopy_parses (junk : Memory) (R : List UInt8) :
    ParsesTo R.length (marshalCopy (.fresh junk) R)
      (marshalLoop codes vm R.length (marshalCopy (.fresh junk) R) 0).2 :=
  marshalLoop_parses codes vm _ 0

lemma marshalCopy_accesses (junk : Memory) (R : List UInt8) :
    (marshalCopy (.fresh junk) R).accesses =
      [.writePtr R.length, .fill R.length, .writePtr 0] := rfl

lemma marshalerMarshal_vmRead (junk : Memory) {R : List UInt8} {off len : ℕ}
    (h : .vmRead off len ∈ (marshalerMarshal codes vm (.fresh junk) R).2.accesses) :
    ⟨off, len⟩ ∈ (marshalerMarshal codes vm (.fresh junk) R).2.segments := by
  have hloop : .vmRead off len ∉
      (marshalLoop codes vm R.length (marshalCopy (.fresh junk) R) 0).2.accesses := by
    intro hmem
    rcases marshalCopy_parses codes vm junk R _ hmem with hold | hparse
    · simp [marshalCopy_accesses] at hold
    · exact hparse
  rw [marshalerMarshal] at h ⊢
  rcases hm1 : marshalLoop codes vm R.length (marshalCopy (.fresh junk) R) 0 with ⟨_ | r, m1⟩
  · rw [hm1] at h hloop
    dsimp only at h hloop ⊢
    have happ := appendDataSegments_vmRead vm m1.segments m1 off len
    have hseg := appendDataSegments_segments vm m1.segments m1
    rcases hm2 : appendDataSegments vm m1.segments m1 with ⟨r | _, m2⟩
    · rw [hm2] at h happ hseg
      by_cases hr : r = 0 <;> simp [hr] at h ⊢ <;>
        exact hseg ▸ (happ h).resolve_left hloop
    · rw [hm2] at h happ hseg
      exact hseg ▸ (happ h).resolve_left hloop
  · rw [hm1] at h hloop
    exact absurd h hloop

/-- Every segment in the table ends inside the mapping, and no byte beyond it is copied, exactly
when each non-empty segment does so that the stream requests before the first pointer outside the
mapping or the seventeenth segment. -/
theorem recorded_within_vm_iff (junk : Memory) (R : List UInt8) (hR : R.length ≤ readBufferSize) :
    ((∀ e ∈ (marshalerMarshal codes vm (.fresh junk) R).2.segments,
          e.offset + e.length ≤ binderVmSize) ∧
        ∀ off len, .vmRead off len ∈ (marshalerMarshal codes vm (.fresh junk) R).2.accesses →
          off + len ≤ binderVmSize) ↔
      ∀ r ∈ acceptedRequests vm maxSegmentNum (requestsOf (codes.stream.decodeAll R).1),
        r.ptr - vm.start + r.length ≤ binderVmSize := by
  have htable : (marshalerMarshal codes vm (.fresh junk) R).2.segments =
      (acceptedRequests vm maxSegmentNum (requestsOf (codes.stream.decodeAll R).1)).map
        (Request.segment vm) := by
    rw [(marshalerMarshal_spec codes vm junk hR).2.1, recordedSegments, recordAll_table]
    rfl
  have hreads : (∀ e ∈ (marshalerMarshal codes vm (.fresh junk) R).2.segments,
      e.offset + e.length ≤ binderVmSize) →
      ∀ off len, .vmRead off len ∈ (marshalerMarshal codes vm (.fresh junk) R).2.accesses →
        off + len ≤ binderVmSize := fun hall off len hmem =>
    hall _ (marshalerMarshal_vmRead codes vm junk hmem)
  rw [and_iff_left_of_imp hreads, htable]
  simp [Request.segment]

/-- A reply whose three data bytes lie in the mapping. -/
theorem reply_within_vm :
    (replyStream 3 0x40000010).length ≤ readBufferSize ∧
      ∀ e ∈ (marshalerMarshal driverCodes zeroVm (.fresh (fun _ => 0))
        (replyStream 3 0x40000010)).2.segments, e.offset + e.length ≤ binderVmSize :=
  ⟨by decide, ((recorded_within_vm_iff driverCodes zeroVm (fun _ => 0) _ (by decide)).mpr
    (by decide +kernel)).1⟩

/-- Only the start of a segment is checked: 32 bytes from the last word of the mapping are
recorded, and copied from behind its end. -/
theorem reply_past_vm_end :
    ¬ ((∀ e ∈ (marshalerMarshal driverCodes zeroVm (.fresh (fun _ => 0))
          (replyStream 32 0x403feffc)).2.segments, e.offset + e.length ≤ binderVmSize) ∧
        ∀ off len, .vmRead off len ∈ (marshalerMarshal driverCodes zeroVm (.fresh (fun _ => 0))
          (replyStream 32 0x403feffc)).2.accesses → off + len ≤ binderVmSize) := by
  have hmem : (⟨0x3feffc, 32⟩ : DataSegment) ∈ (marshalerMarshal driverCodes zeroVm
      (.fresh (fun _ => 0)) (replyStream 32 0x403feffc)).2.segments := by decide +kernel
  rintro ⟨hall, -⟩
  exact absurd (hall _ hmem) (by decide)

/-- The table never overflows. -/
theorem segments_length_le (junk : Memory) (R : List UInt8) (hR : R.length ≤ readBufferSize) :
    (marshalerMarshal codes vm (.fresh junk) R).2.segments.length ≤ maxSegmentNum := by
  rw [(marshalerMarshal_spec codes vm junk hR).2.1, recordedSegments, recordAll_table]
  simp [acceptedRequests]

/-- Every access stays inside its region unless a copy runs over the end of the buffer. -/
theorem marshalerMarshal_inside_iff (junk : Memory) {R : List UInt8}
    (hR : R.length ≤ readBufferSize) :
    (∀ a ∈ (marshalerMarshal codes vm (.fresh junk) R).2.accesses,
        a.Inside R.length marshalerBufSize) ↔
      (marshalerMarshal codes vm (.fresh junk) R).1 ≠ .fault := by
  have hsize : R.length ≤ marshalerBufSize := hR.trans (by decide)
  obtain ⟨-, -, hbs, hwp, -⟩ :=
    marshalLoop_spec codes vm (codes.stream.decodeAll R).1 (m := marshalCopy (.fresh junk) R)
      (Nat.zero_le R.length) (by
        rw [codes.stream.encodeAll_decodeAll]
        exact Memory.read_write_self junk 0 R) (codes.stream.split_decodeAll R)
  have hloop : ∀ a ∈ (marshalLoop codes vm R.length (marshalCopy (.fresh junk) R) 0).2.accesses,
      a.Inside R.length marshalerBufSize := by
    intro a ha
    rcases marshalCopy_parses codes vm junk R a ha with hold | hparse
    · rw [marshalCopy_accesses] at hold
      simp only [List.mem_cons, List.not_mem_nil, or_false] at hold
      rcases hold with rfl | rfl | rfl
      · exact hsize
      · exact hsize
      · exact Nat.zero_le _
    · exact hparse.inside
  rw [marshalerMarshal]
  rcases hm1 : marshalLoop codes vm R.length (marshalCopy (.fresh junk) R) 0 with ⟨_ | r, m1⟩
  · rw [hm1] at hloop hbs hwp
    have hbs' : m1.bufSize = marshalerBufSize := hbs
    have hwp' : m1.writePtr = R.length := hwp
    have happ := appendDataSegments_inside vm R.length m1.segments m1 hwp'.ge
      (by omega) (by rw [hbs']; exact hloop)
    rw [hbs'] at happ
    dsimp only
    rcases hm2 : appendDataSegments vm m1.segments m1 with ⟨r | _, m2⟩
    · rw [hm2] at happ
      by_cases hr : r = 0 <;> simpa [hr] using happ
    · rw [hm2] at happ
      exact happ
  · rw [hm1] at hloop
    simpa using hloop

/-- Streams on which the 32-bit capacity sum wraps: they parse, and some segment is so long that
`8 + length` wraps while everything before it fits and the wrapped sum passes for free space. -/
def FrameOverrun (R : List UInt8) : Prop :=
  StreamParses codes vm R ∧
    ∃ pre r post, requestsOf (codes.stream.decodeAll R).1 = pre ++ r :: post ∧
      2 ^ 32 ≤ dataSegmentSize + r.length ∧
      R.length + (pre.map (fun q => dataSegmentSize + q.length)).sum +
        dataSegmentSize + r.length ≤ marshalerBufSize + 2 ^ 32

theorem marshalOutcome_eq_fault_iff {R : List UInt8} (hR : R.length ≤ readBufferSize) :
    marshalOutcome codes vm R = .fault ↔ FrameOverrun codes vm R := by
  have hsize : R.length ≤ marshalerBufSize := hR.trans (by decide)
  by_cases hparse : StreamParses codes vm R
  · obtain ⟨htable, hout⟩ := marshalOutcome_of_parses hparse
    have hfree : marshalerBufSize - R.length < 2 ^ 31 :=
      lt_of_le_of_lt (Nat.sub_le _ _) (by decide)
    have hlen : ∀ e ∈ recordedSegments codes vm R, e.length < 2 ^ 32 := by
      rw [htable]
      intro e he
      obtain ⟨r, hr, rfl⟩ := List.mem_map.mp he
      exact length_lt_of_mem_requestsOf hr
    rw [hout, Outcome.collapse_eq_fault_iff, appendOutcome_eq_fault_iff hfree hlen, FrameOverrun,
      and_iff_right hparse, htable]
    constructor
    · rintro ⟨pre, e, post, hsplit, hwrap, hfit⟩
      obtain ⟨pre', tail, hreq, rfl, htail⟩ := List.map_eq_append_iff.mp hsplit
      obtain ⟨r, post', rfl, rfl, rfl⟩ := List.map_eq_cons_iff.mp htail
      rw [framesSize_segments] at hfit
      change _ + _ + r.length ≤ _ at hfit
      exact ⟨pre', r, post', hreq, hwrap, by omega⟩
    · rintro ⟨pre, r, post, hreq, hwrap, hfit⟩
      refine ⟨pre.map (Request.segment vm), r.segment vm, post.map (Request.segment vm), ?_,
        hwrap, ?_⟩
      · rw [hreq, List.map_append, List.map_cons]
      · rw [framesSize_segments]
        change _ + _ + r.length ≤ _
        omega
  · obtain ⟨r, -, hout⟩ := marshalOutcome_of_not_parses hparse
    rw [hout, FrameOverrun]
    simp [hparse]

/-- The marshaler stays inside its buffers exactly on the streams without such an overrun. -/
theorem marshalerMarshal_stays_inside_iff (junk : Memory) (R : List UInt8)
    (hR : R.length ≤ readBufferSize) :
    ((∀ a ∈ (marshalerMarshal codes vm (.fresh junk) R).2.accesses,
          a.Inside R.length marshalerBufSize) ∧
        (marshalerMarshal codes vm (.fresh junk) R).2.segments.length ≤ maxSegmentNum) ↔
      ¬ FrameOverrun codes vm R := by
  rw [and_iff_left (segments_length_le codes vm junk R hR),
    marshalerMarshal_inside_iff codes vm junk hR, (marshalerMarshal_spec codes vm junk hR).1, ne_eq,
    marshalOutcome_eq_fault_iff codes vm hR]

/-- A reply with three data bytes stays inside. -/
theorem reply_stays_inside :
    (replyStream 3 0x40000010).length ≤ readBufferSize ∧
      ∀ a ∈ (marshalerMarshal driverCodes zeroVm (.fresh (fun _ => 0))
        (replyStream 3 0x40000010)).2.accesses, a.Inside 44 marshalerBufSize := by
  refine ⟨by decide, ((marshalerMarshal_stays_inside_iff driverCodes zeroVm (fun _ => 0) _
    (by decide)).mpr ?_).1⟩
  rw [← marshalOutcome_eq_fault_iff driverCodes zeroVm (by decide)]
  decide +kernel

/-- With `data_size = 2 ^ 32 - 8` the capacity sum is 0, and the copy runs over the buffer. -/
theorem reply_overruns_buffer :
    ¬ ((∀ a ∈ (marshalerMarshal driverCodes zeroVm (.fresh (fun _ => 0))
          (replyStream 0xfffffff8 0x40000010)).2.accesses, a.Inside 44 marshalerBufSize) ∧
        (marshalerMarshal driverCodes zeroVm (.fresh (fun _ => 0))
          (replyStream 0xfffffff8 0x40000010)).2.segments.length ≤ maxSegmentNum) := by
  have hmem : Access.append 52 0xfffffff8 ∈ (marshalerMarshal driverCodes zeroVm
      (.fresh (fun _ => 0)) (replyStream 0xfffffff8 0x40000010)).2.accesses := by decide +kernel
  rintro ⟨hall, -⟩
  exact absurd (hall _ hmem).2 (by decide)

end ExpressOS

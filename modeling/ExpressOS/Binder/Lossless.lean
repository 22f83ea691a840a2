import ExpressOS.Binder.Acceptance

/-!
# Marshaling loses nothing

The reply carries the relocated stream and one frame for each segment. `unmarshal` is the reader
on the other side: it knows the size of the stream, the number of frames and where the mapping
starts.
-/

namespace ExpressOS
open Systems

variable (codes : BinderCodes) (vm : BinderVm)

def BinderVm.slice (off len : ℕ) : List UInt8 :=
  ((vm.mem.read vm.start binderVmSize).drop off).take len

lemma BinderVm.slice_eq_read {off len : ℕ} (h : off + len ≤ binderVmSize) :
    vm.slice off len = vm.mem.read (vm.start + off) len := by
  rw [slice, Memory.read_drop _ (by omega), Memory.read_take _ (by omega)]

/-- The frame of one segment: its offset, its length, its bytes. -/
def frame (seg : ℕ × List UInt8) : List UInt8 :=
  leBytes 4 seg.1 ++ leBytes 4 seg.2.length ++ seg.2

def segmentsOf (rs : List Request) : List (ℕ × List UInt8) :=
  rs.map (fun r => (r.ptr - vm.start, vm.slice (r.ptr - vm.start) r.length))

/-- Exactly `n` frames, and nothing after them. -/
def readFrames : ℕ → List UInt8 → Option (List (ℕ × List UInt8))
  | 0, bs => if bs = [] then some [] else none
  | n + 1, bs =>
    let len := leNat ((bs.drop 4).take 4)
    if bs.length < dataSegmentSize + len then none
    else
      (readFrames n (bs.drop (dataSegmentSize + len))).map
        (fun segs => (leNat (bs.take 4), (bs.drop dataSegmentSize).take len) :: segs)

/-- The stream with the pointers of its non-empty segments moved back into the mapping. -/
def restoreStream (start : ℕ) (bs : List UInt8) : List UInt8 :=
  codes.stream.encodeAll
      ((codes.stream.decodeAll bs).1.map (Command.mapPointers (fun p => p + start))) ++
    (codes.stream.decodeAll bs).2

def unmarshal (start size dataEntries : ℕ) (bs : List UInt8) :
    Option (List UInt8 × List (ℕ × List UInt8)) :=
  (readFrames dataEntries (bs.drop size)).map
    (fun segs => (restoreStream codes start (bs.take size), segs))

lemma readFrames_frames {segs : List (ℕ × List UInt8)}
    (h : ∀ s ∈ segs, s.1 < 2 ^ 32 ∧ s.2.length < 2 ^ 32) :
    readFrames segs.length (segs.flatMap frame) = some segs := by
  induction segs with
  | nil => rfl
  | cons s segs ih =>
    obtain ⟨hoff, hlen⟩ := h s (by simp)
    have hrest := ih (fun t ht => h t (by simp [ht]))
    obtain ⟨off, data⟩ := s
    have hbytes : ((off, data) :: segs).flatMap frame =
        leBytes 4 off ++ (leBytes 4 data.length ++ (data ++ segs.flatMap frame)) := by
      simp [frame, List.append_assoc]
    have hword : leNat ((((off, data) :: segs).flatMap frame).take 4) = off := by
      rw [hbytes, List.take_left' (by simp), leNat_leBytes_word hoff]
    have hcount : leNat (((((off, data) :: segs).flatMap frame).drop 4).take 4) = data.length := by
      rw [hbytes, List.drop_left' (by simp), List.take_left' (by simp), leNat_leBytes_word hlen]
    have hbody : (((off, data) :: segs).flatMap frame).drop dataSegmentSize =
        data ++ segs.flatMap frame := by
      rw [hbytes, ← List.append_assoc, List.drop_left' (by simp [dataSegmentSize])]
    have htail : (((off, data) :: segs).flatMap frame).drop (dataSegmentSize + data.length) =
        segs.flatMap frame := by
      rw [← List.drop_drop, hbody, List.drop_left' rfl]
    have hfit : ¬ (((off, data) :: segs).flatMap frame).length < dataSegmentSize + data.length := by
      rw [hbytes]
      simp [dataSegmentSize]
      omega
    rw [List.length_cons, readFrames, hcount, if_neg hfit, hword, hbody, htail, hrest,
      List.take_left' rfl]
    rfl

section pointers

variable {c : Command}

lemma Command.length_args_transaction (h : c.kind.body = .transaction) : c.args.length = 40 := by
  rw [c.length_args, BrCommand.argSize, h]
  rfl

lemma Command.argWord_mapPointers (h : c.kind.body = .transaction) (f : ℕ → ℕ) {i : ℕ}
    (hi : i + 4 ≤ 32) : (c.mapPointers f).argWord i = c.argWord i := by
  have hlen := Command.length_args_transaction h
  rw [argWord, argWord, args_mapPointers h, List.append_assoc,
    List.drop_append_of_le_length (by simp [hlen]; omega),
    List.take_append_of_le_length (by simp [hlen]; omega), List.drop_take, List.take_take,
    min_eq_left (by omega)]

lemma Command.dataPtr_mapPointers (h : c.kind.body = .transaction) (f : ℕ → ℕ)
    (hsize : c.dataSize ≠ 0) (hlt : f c.dataPtr < 2 ^ 32) :
    (c.mapPointers f).dataPtr = f c.dataPtr := by
  have hlen := Command.length_args_transaction h
  rw [dataPtr, argWord, args_mapPointers h, List.append_assoc, List.drop_left' (by simp [hlen]),
    if_pos hsize, List.take_left' (by simp), leNat_leBytes_word hlt, dataPtr]

lemma Command.offsetsPtr_mapPointers (h : c.kind.body = .transaction) (f : ℕ → ℕ)
    (hsize : c.offsetsSize ≠ 0) (hlt : f c.offsetsPtr < 2 ^ 32) :
    (c.mapPointers f).offsetsPtr = f c.offsetsPtr := by
  have hlen := Command.length_args_transaction h
  have hfour : (if c.dataSize ≠ 0 then leBytes 4 (f c.dataPtr)
      else (c.args.drop 32).take 4).length = 4 := by
    split <;> simp [hlen]
  rw [offsetsPtr, argWord, args_mapPointers h,
    List.drop_left' (by rw [List.length_append, hfour]; simp [hlen]), if_pos hsize,
    List.take_of_length_le (by simp), leNat_leBytes_word hlt, offsetsPtr]

lemma restore_data (hbody : c.kind.body = .transaction)
    (hin : ∀ r ∈ c.requests, vm.contains r.ptr) :
    (if (c.relocate vm).dataSize ≠ 0 then leBytes 4 ((c.relocate vm).dataPtr + vm.start)
      else ((c.relocate vm).args.drop 32).take 4) = (c.args.drop 32).take 4 := by
  have hlen := Command.length_args_transaction hbody
  have hsize : (c.relocate vm).dataSize = c.dataSize :=
    Command.argWord_mapPointers hbody _ (by omega)
  rw [hsize]
  by_cases hzero : c.dataSize = 0
  · rw [if_neg (by simp [hzero]), Command.relocate, Command.args_mapPointers hbody,
      List.append_assoc, List.drop_left' (by simp [hlen]), if_neg (by simp [hzero]),
      List.take_left' (by simp [hlen])]
  · have hp : vm.contains c.dataPtr := hin ⟨c.dataPtr, c.dataSize⟩ (by
      rw [Command.requests, if_pos hbody]
      simp [fieldRequest, hzero])
    have hlt : c.dataPtr < 2 ^ 32 := c.argWord_lt 32
    have hword := leBytes_leNat ((c.args.drop 32).take 4)
    rw [show ((c.args.drop 32).take 4).length = 4 by simp [hlen]] at hword
    rw [if_pos hzero, Command.relocate, Command.dataPtr_mapPointers hbody _ hzero (by omega),
      Nat.sub_add_cancel hp.1]
    exact hword

lemma restore_offsets (hbody : c.kind.body = .transaction)
    (hin : ∀ r ∈ c.requests, vm.contains r.ptr) :
    (if (c.relocate vm).offsetsSize ≠ 0 then leBytes 4 ((c.relocate vm).offsetsPtr + vm.start)
      else (c.relocate vm).args.drop 36) = c.args.drop 36 := by
  have hlen := Command.length_args_transaction hbody
  have hsize : (c.relocate vm).offsetsSize = c.offsetsSize :=
    Command.argWord_mapPointers hbody _ (by omega)
  rw [hsize]
  by_cases hzero : c.offsetsSize = 0
  · have hfour : (if c.dataSize ≠ 0 then leBytes 4 (c.dataPtr - vm.start)
        else (c.args.drop 32).take 4).length = 4 := by
      split <;> simp [hlen]
    rw [if_neg (by simp [hzero]), Command.relocate, Command.args_mapPointers hbody,
      List.drop_left' (by rw [List.length_append, hfour]; simp [hlen]),
      if_neg (by simp [hzero])]
  · have hp : vm.contains c.offsetsPtr := hin ⟨c.offsetsPtr, c.offsetsSize⟩ (by
      rw [Command.requests, if_pos hbody]
      simp [fieldRequest, hzero])
    have hlt : c.offsetsPtr < 2 ^ 32 := c.argWord_lt 36
    have hword := leBytes_leNat (c.args.drop 36)
    rw [show (c.args.drop 36).length = 4 by simp [hlen]] at hword
    rw [if_pos hzero, Command.relocate, Command.offsetsPtr_mapPointers hbody _ hzero (by omega),
      Nat.sub_add_cancel hp.1, Command.offsetsPtr, Command.argWord,
      List.take_of_length_le (by simp [hlen]), hword]

/-- Moving the pointers back undoes the relocation of a command whose segments start inside the
mapping. -/
lemma restore_relocate (hin : ∀ r ∈ c.requests, vm.contains r.ptr) :
    (c.relocate vm).mapPointers (fun p => p + vm.start) = c := by
  by_cases hbody : c.kind.body = .transaction
  · have hbody' : (c.relocate vm).kind.body = .transaction := hbody
    have hlen := Command.length_args_transaction hbody
    have hhead : (c.relocate vm).args.take 32 = c.args.take 32 := by
      rw [Command.relocate, Command.args_mapPointers hbody, List.append_assoc,
        List.take_left' (by simp [hlen])]
    apply Command.ext
    · rfl
    · rw [Command.args_mapPointers hbody', restore_data vm hbody hin,
        restore_offsets vm hbody hin, hhead, List.append_assoc,
        show c.args.drop 36 = (c.args.drop 32).drop 4 by rw [List.drop_drop],
        List.take_append_drop, List.take_append_drop]
  · rw [Command.relocate, Command.mapPointers_of_body_ne hbody,
      Command.mapPointers_of_body_ne hbody]

end pointers

lemma restoreStream_relocate {cs : List Command} {tail : List UInt8}
    (ht : splitCommand codes tail = none) (hin : ∀ r ∈ requestsOf cs, vm.contains r.ptr) :
    restoreStream codes vm.start (codes.stream.encodeAll (cs.map (Command.relocate vm)) ++ tail) =
      codes.stream.encodeAll cs ++ tail := by
  have hback : (cs.map (Command.relocate vm)).map (Command.mapPointers (fun p => p + vm.start)) =
      cs := by
    rw [List.map_map]
    refine (List.map_congr_left (fun c hc => ?_)).trans (List.map_id cs)
    exact restore_relocate vm (fun r hr => hin r (List.mem_flatMap.mpr ⟨c, hc, hr⟩))
  rw [restoreStream, codes.stream.decodeAll_append ht, hback]

lemma framesOf_eq_frames {rs : List Request}
    (h : ∀ r ∈ rs, r.ptr - vm.start + r.length ≤ binderVmSize) :
    framesOf vm (rs.map (Request.segment vm)) = (segmentsOf vm rs).flatMap frame := by
  rw [framesOf, segmentsOf, List.flatMap_map, List.flatMap_map]
  refine List.flatMap_congr (fun r hr => ?_)
  rw [frame, vm.slice_eq_read (h r hr), Memory.length_read]
  rfl

/-- When the marshaler returns 0 and every segment ends inside the mapping, its output is the
read buffer with relocated pointers followed by the frames in command order, data before offsets,
and a reader that knows the size, the number of frames and the start of the mapping gets the read
buffer and every segment back. -/
theorem marshalerMarshal_lossless (junk : Memory) (R : List UInt8)
    (hR : R.length ≤ readBufferSize)
    (hret : (marshalerMarshal codes vm (.fresh junk) R).1 = .ret 0)
    (hseg : ∀ e ∈ (marshalerMarshal codes vm (.fresh junk) R).2.segments,
      e.offset + e.length ≤ binderVmSize) :
    let cs := (codes.stream.decodeAll R).1
    let tail := (codes.stream.decodeAll R).2
    let m := (marshalerMarshal codes vm (.fresh junk) R).2
    R = codes.stream.encodeAll cs ++ tail ∧
      m.dataEntries = (segmentsOf vm (requestsOf cs)).length ∧
      m.buf.read 0 m.writePtr = codes.stream.encodeAll (cs.map (Command.relocate vm)) ++ tail ++
        (segmentsOf vm (requestsOf cs)).flatMap frame ∧
      (codes.stream.encodeAll (cs.map (Command.relocate vm)) ++ tail).length = R.length ∧
      unmarshal codes vm.start R.length m.dataEntries (m.buf.read 0 m.writePtr) =
        some (R, segmentsOf vm (requestsOf cs)) := by
  dsimp only
  obtain ⟨hout, htable, hbuf⟩ := marshalerMarshal_spec codes vm junk hR
  have hparse : StreamParses codes vm R := by
    rw [hout, marshalOutcome_eq_zero_iff] at hret
    exact hret.1
  have htable' := (marshalOutcome_of_parses hparse).1
  rw [htable, htable'] at hseg
  have hin : ∀ r ∈ requestsOf (codes.stream.decodeAll R).1,
      r.ptr - vm.start + r.length ≤ binderVmSize := fun r hr =>
    hseg _ (List.mem_map_of_mem hr)
  have hwhole := (codes.stream.encodeAll_decodeAll R).symm
  obtain ⟨hptr, hread⟩ := hbuf hret
  have hframes : framesOf vm (recordedSegments codes vm R) =
      (segmentsOf vm (requestsOf (codes.stream.decodeAll R).1)).flatMap frame := by
    rw [htable', framesOf_eq_frames vm hin]
  have hentries : (marshalerMarshal codes vm (.fresh junk) R).2.dataEntries =
      (segmentsOf vm (requestsOf (codes.stream.decodeAll R).1)).length := by
    rw [IpcMarshaler.dataEntries, htable, htable', segmentsOf, List.length_map, List.length_map]
  have hlength : (codes.stream.encodeAll ((codes.stream.decodeAll R).1.map (Command.relocate vm)) ++
      (codes.stream.decodeAll R).2).length = R.length := by
    have hsum := congrArg List.length hread
    rw [hptr, Memory.length_read, List.length_append, length_framesOf] at hsum
    omega
  refine ⟨hwhole, hentries, by rw [hread, hframes], hlength, ?_⟩
  have hsegs : ∀ s ∈ segmentsOf vm (requestsOf (codes.stream.decodeAll R).1),
      s.1 < 2 ^ 32 ∧ s.2.length < 2 ^ 32 := by
    intro s hs
    obtain ⟨r, hr, rfl⟩ := List.mem_map.mp hs
    have hfit := hin r hr
    have hvm : binderVmSize < 2 ^ 32 := by decide
    dsimp only
    rw [vm.slice_eq_read hfit, Memory.length_read]
    omega
  rw [unmarshal, hread, hframes, hentries, List.drop_left' hlength, List.take_left' hlength,
    readFrames_frames hsegs,
    restoreStream_relocate codes vm (codes.stream.split_decodeAll R) hparse.2.1, ← hwhole]
  rfl

/-- A reply with three data bytes. -/
theorem reply_lossless :
    ((replyStream 3 0x40000010).length ≤ readBufferSize ∧
      (marshalerMarshal driverCodes zeroVm (.fresh (fun _ => 0)) (replyStream 3 0x40000010)).1 =
        .ret 0) ∧
      (∀ e ∈ (marshalerMarshal driverCodes zeroVm (.fresh (fun _ => 0))
        (replyStream 3 0x40000010)).2.segments, e.offset + e.length ≤ binderVmSize) ∧
      (marshalerMarshal driverCodes zeroVm (.fresh (fun _ => 0))
        (replyStream 3 0x40000010)).2.dataEntries =
        (segmentsOf zeroVm
          (requestsOf (driverCodes.stream.decodeAll (replyStream 3 0x40000010)).1)).length := by
  have hret : (marshalerMarshal driverCodes zeroVm (.fresh (fun _ => 0))
      (replyStream 3 0x40000010)).1 = .ret 0 := by decide +kernel
  have hseg : ∀ e ∈ (marshalerMarshal driverCodes zeroVm (.fresh (fun _ => 0))
      (replyStream 3 0x40000010)).2.segments, e.offset + e.length ≤ binderVmSize := by
    decide +kernel
  exact ⟨⟨by decide, hret⟩, hseg, (marshalerMarshal_lossless driverCodes zeroVm (fun _ => 0) _
    (by decide) hret hseg).2.1⟩

end ExpressOS

import ExpressOS.Binder.Lossless
import ExpressOS.Venus.Replies

/-!
# The reply to a binder upcall describes its own payload
-/

namespace ExpressOS
open Systems

variable (codes : VenusCodes) (abi : VenusLayout) (bcodes : BinderCodes) (vm : BinderVm)
variable (sys : Kernel) (junk : Leftover) (block : ℕ) (u : Upcall)

/-- The sizes agree, a failure comes with an empty payload and no entries, and a success with the
read buffer followed by exactly `data_entries` whole frames. -/
structure DescribesPayload (hdr : VenusHdr) (out : BwrOut) : Prop where
  size : hdr.payloadSize = handleSize + abi.bwrOutSize + out.payloadSize
  length : out.payload.length = out.payloadSize
  failed : out.ret < 0 → out.payload = [] ∧ out.dataEntries = 0
  succeeded : out.ret = 0 → out.readConsumed ≤ out.payloadSize ∧
    (readFrames out.dataEntries (out.payload.drop out.readConsumed)).isSome

/-- The first non-empty segment that the whole commands name, if there is one, starts outside of
the mapping. -/
def NothingRecorded (R : List UInt8) : Prop :=
  ∀ r ∈ (requestsOf (bcodes.stream.decodeAll R).1).head?, ¬ vm.contains r.ptr

/-- The ioctl fails, the read buffer marshals without an error, or the error comes before anything
has been recorded. -/
def CountsAgree : Prop :=
  (bwrAnswer abi sys u).ret < 0 ∨ WellFormed bcodes vm (bwrAnswer abi sys u).read ∨
    EndsInCutRefs bcodes vm (bwrAnswer abi sys u).read ∨
    NothingRecorded bcodes vm (bwrAnswer abi sys u).read

section Marshaled

variable {bcodes vm} {R : List UInt8}

lemma recordedSegments_eq_nil_iff :
    recordedSegments bcodes vm R = [] ↔ NothingRecorded bcodes vm R := by
  rw [recordedSegments, recordAll_table, NothingRecorded]
  rcases requestsOf (bcodes.stream.decodeAll R).1 with _ | ⟨r, rs⟩
  · simp [acceptedRequests]
  · by_cases hin : vm.contains r.ptr <;> simp [acceptedRequests, hin, maxSegmentNum]

lemma marshalOutcome_nonpos {r : ℤ} (h : marshalOutcome bcodes vm R = .ret r) : r ≤ 0 := by
  by_cases hparse : StreamParses bcodes vm R
  · rw [(marshalOutcome_of_parses hparse).2] at h
    rcases happ : appendOutcome (marshalerBufSize - R.length) (recordedSegments bcodes vm R) with
      r' | _
    · rw [happ, Outcome.collapse] at h
      split_ifs at h
      · cases h
        decide
      · cases h
        exact le_rfl
    · rw [happ] at h
      cases h
  · obtain ⟨r', hneg, hout⟩ := marshalOutcome_of_not_parses hparse
    rw [h] at hout
    cases hout
    exact hneg.le

lemma readFrames_framesOf (hret : marshalOutcome bcodes vm R = .ret 0) :
    (readFrames (recordedSegments bcodes vm R).length
      (framesOf vm (recordedSegments bcodes vm R))).isSome := by
  have hparse := ((marshalOutcome_eq_zero_iff bcodes vm).mp hret).1
  let data := fun e : DataSegment => (e.offset, vm.mem.read (vm.start + e.offset) e.length)
  have hframes : framesOf vm (recordedSegments bcodes vm R) =
      ((recordedSegments bcodes vm R).map data).flatMap frame := by
    rw [framesOf, List.flatMap_map]
    refine List.flatMap_congr (fun e _ => ?_)
    simp only [data, frame, Memory.length_read]
    rfl
  have hsmall : ∀ s ∈ (recordedSegments bcodes vm R).map data,
      s.1 < 2 ^ 32 ∧ s.2.length < 2 ^ 32 := by
    rw [(marshalOutcome_of_parses hparse).1]
    intro s hs
    obtain ⟨e, he, rfl⟩ := List.mem_map.mp hs
    obtain ⟨r, hr, rfl⟩ := List.mem_map.mp he
    have hin := hparse.2.1 r hr
    have hfits := vm.fits
    refine ⟨?_, ?_⟩
    · change r.ptr - vm.start < 2 ^ 32
      unfold BinderVm.contains at hin
      omega
    · simp only [data, Memory.length_read]
      exact length_lt_of_mem_requestsOf hr
  have hread := readFrames_frames hsmall
  rw [List.length_map, ← hframes] at hread
  rw [hread]
  rfl

end Marshaled

section Reply

variable {codes abi bcodes vm sys junk block u}

lemma describesPayload_empty {v : Upcall} {bwr : BinderReply} {ret : ℤ} {m : IpcMarshaler}
    (hret : ret < 0) :
    DescribesPayload abi (bwrDowncall codes abi v bwr ret m 0).hdr (bwrOut abi v bwr ret m 0) ↔
      m.segments = [] := by
  have hsize := abi.bwrOutSize_lt
  constructor
  · intro h
    exact List.length_eq_zero_iff.mp (h.failed hret).2
  · intro hnil
    refine ⟨?_, rfl, fun _ => ⟨rfl, ?_⟩, fun h0 => absurd h0 hret.ne⟩
    · exact Nat.mod_eq_of_lt (by unfold handleSize; omega)
    · simp only [bwrOut, IpcMarshaler.dataEntries, hnil, List.length_nil]

lemma describesPayload_marshaled {v : Upcall} {bwr : BinderReply}
    (hret : (marshalerMarshal bcodes vm (.fresh junk.buffer) bwr.read).1 = .ret 0) :
    let m := (marshalerMarshal bcodes vm (.fresh junk.buffer) bwr.read).2
    DescribesPayload abi (bwrDowncall codes abi v bwr 0 m m.writePtr).hdr
      (bwrOut abi v bwr 0 m m.writePtr) := by
  dsimp only
  obtain ⟨hout, hseg, hbuf⟩ := marshalerMarshal_spec bcodes vm junk.buffer bwr.read_le
  obtain ⟨hptr, hread⟩ := hbuf hret
  rw [hout] at hret
  obtain ⟨hparse, hfit⟩ := (marshalOutcome_eq_zero_iff bcodes vm).mp hret
  have hroom : framesSize (recordedSegments bcodes vm bwr.read) ≤
      marshalerBufSize - bwr.read.length := by
    rw [(marshalOutcome_of_parses hparse).1, framesSize_segments]
    exact hfit
  have hR : bwr.read.length ≤ 8 * 1024 := bwr.read_le
  have hlength : (bcodes.stream.encodeAll ((bcodes.stream.decodeAll bwr.read).1.map
      (Command.relocate vm)) ++ (bcodes.stream.decodeAll bwr.read).2).length =
        bwr.read.length := by
    have hsum := congrArg List.length hread
    rw [hptr, Memory.length_read, List.length_append, length_framesOf] at hsum
    omega
  refine ⟨?_, by simp [bwrOut], fun hneg => absurd hneg (lt_irrefl _), fun _ => ⟨?_, ?_⟩⟩
  · have hsize := abi.bwrOutSize_lt
    simp only [bwrDowncall, bwrOut, initDowncallHdr, hptr]
    refine Nat.mod_eq_of_lt ?_
    unfold marshalerBufSize at hroom
    unfold handleSize
    omega
  · dsimp only [bwrOut]
    omega
  · dsimp only [bwrOut]
    rw [hread, List.drop_left' hlength, IpcMarshaler.dataEntries, hseg]
    exact readFrames_framesOf hret

end Reply

/-- A downcall of `handle_binder_write_read` describes its payload except when the driver hands
back a read buffer that is refused after a segment has been recorded: the entries of the
half-built table are then reported with an empty payload. -/
theorem binderReply_describes_iff {d : Downcall} {handle : ℕ} {out : BwrOut}
    (hd : d ∈ (handleBinderWriteRead codes abi bcodes vm sys junk block u).sent)
    (hbody : d.body = .bwr handle out) :
    DescribesPayload abi d.hdr out ↔ CountsAgree abi bcodes vm sys u := by
  obtain ⟨hdr, body⟩ := d
  obtain rfl : body = _ := hbody
  have hR := (bwrAnswer abi sys u).read_le
  have hone : ∀ {v bwr ret m size touched calls},
      Downcall.mk hdr (.bwr handle out) ∈
          (binderOut codes abi sys v bwr ret m size touched calls).sent →
        hdr = (bwrDowncall codes abi v bwr ret m size).hdr ∧ out = bwrOut abi v bwr ret m size := by
    intro v bwr ret m size touched calls hmem
    rw [binderOut_sent] at hmem
    split_ifs at hmem
    · cases List.mem_singleton.mp hmem
      exact ⟨rfl, rfl⟩
    · cases hmem
  unfold CountsAgree
  rcases handleBinderWriteRead_cases codes abi bcodes vm sys junk block u with ⟨-, hrun⟩ |
    ⟨-, ⟨hneg, hrun⟩ | ⟨-, -, hrun⟩ | ⟨hpos, ret, hret, hrun⟩⟩
  · rw [hrun] at hd
    cases hd
  · rw [hrun] at hd
    obtain ⟨rfl, rfl⟩ := hone hd
    rw [describesPayload_empty hneg]
    exact iff_of_true rfl (.inl hneg)
  · rw [hrun] at hd
    cases hd
  · rw [hrun] at hd
    obtain ⟨hout, hseg, -⟩ := marshalerMarshal_spec bcodes vm junk.buffer hR
    have hoc : marshalOutcome bcodes vm (bwrAnswer abi sys u).read = .ret ret := by
      rw [← hout, hret]
    rw [or_iff_right (not_lt.mpr hpos), ← or_assoc,
      ← marshalOutcome_eq_zero_iff_format bcodes vm hR, hoc]
    obtain ⟨rfl, rfl⟩ := hone hd
    rcases lt_or_eq_of_le (marshalOutcome_nonpos hoc) with hneg | rfl
    · rw [if_pos hneg, describesPayload_empty hneg, hseg, recordedSegments_eq_nil_iff]
      simp [hneg.ne]
    · exact iff_of_true (describesPayload_marshaled hret) (.inl rfl)

/-- A `BINDER_WRITE_READ` with an empty write buffer and an empty patch table. -/
def binderUpcall : Upcall :=
  ⟨memoryOf [4, 0, 0, 0, 20, 0, 0, 0, 0, 0x20, 0, 0, 0, 0, 2, 0, 0, 0, 0, 0, 0, 0, 0, 0, 0, 0,
    0, 0], 4096⟩

/-- The commands with the pointer made relative, and behind them offset, length and data of the one
segment. -/
def callOut : BwrOut :=
  ⟨0x20000, 0, 0, 60, 71, 1, callBytes 0x10 ++ leBytes 4 0x10 ++ leBytes 4 3 ++ [0, 0, 0]⟩

theorem callStream_described :
    ∃ d ∈ (handleBinderWriteRead sampleCodes sampleLayout driverCodes zeroVm
        (quietKernel callStream (by decide)) cleanStack 28 binderUpcall).sent,
      d.body = .bwr 0x2000 callOut ∧ DescribesPayload sampleLayout d.hdr callOut := by
  have hsent : (⟨⟨4, 99⟩, .bwr 0x2000 callOut⟩ : Downcall) ∈
      (handleBinderWriteRead sampleCodes sampleLayout driverCodes zeroVm
        (quietKernel callStream (by decide)) cleanStack 28 binderUpcall).sent := by
    decide +kernel
  exact ⟨_, hsent, rfl, (binderReply_describes_iff _ _ _ _ _ _ _ _ hsent rfl).mpr
    (.inr (.inl callStream_wellFormed))⟩

/-- A good `BR_REPLY` with one segment, followed by an unknown command: the downcall has an empty
payload and says that it holds one entry. -/
theorem refused_reply_miscounted :
    ∃ d ∈ (handleBinderWriteRead sampleCodes sampleLayout driverCodes zeroVm
        (quietKernel (replyStream 3 0x40000010 ++ [0, 0, 0, 0]) (by decide)) cleanStack 28
          binderUpcall).sent,
      d.body = .bwr 0x2000 ⟨0x20000, -1, 0, 48, 0, 1, []⟩ ∧
        ¬ DescribesPayload sampleLayout d.hdr ⟨0x20000, -1, 0, 48, 0, 1, []⟩ := by
  refine ⟨⟨⟨4, 28⟩, .bwr 0x2000 ⟨0x20000, -1, 0, 48, 0, 1, []⟩⟩, by decide +kernel, rfl, ?_⟩
  intro h
  have hentries := (h.failed (by decide)).2
  cases hentries

end ExpressOS

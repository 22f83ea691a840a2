import ExpressOS.Venus.Results

/-!
# The bytes that go to the kernel

A downcall is built in memory that held something before, on the stack or in a new block of the
heap, and `send_downcall` passes on as many bytes as the header says. With structures that have
exactly the fields the code assigns, this file says when what was there before shows in the bytes.
-/

namespace ExpressOS
open Systems

/-- A signed value as a word. -/
def signedBytes (r : ℤ) : List UInt8 :=
  leBytes 4 (r % 2 ^ 32).toNat

/-- The structures of the replies without padding. -/
structure PackedLayout (abi : VenusLayout) : Prop where
  pipeOut : abi.pipeOutSize = 12
  pollOut : abi.pollOutSize = 8
  bwrOut : abi.bwrOutSize = 24

def BwrOut.encode (out : BwrOut) : List UInt8 :=
  leBytes 4 out.buffer ++ signedBytes out.ret ++ leBytes 4 out.writeConsumed ++
    leBytes 4 out.readConsumed ++ leBytes 4 out.payloadSize ++ leBytes 4 out.dataEntries ++
    out.payload

def DowncallBody.encode : DowncallBody → List UInt8
  | .ret r => signedBytes r
  | .pipe r readPipe writePipe => signedBytes r ++ leBytes 4 readPipe ++ leBytes 4 writePipe
  | .asyncRet handle r => leBytes 4 handle ++ signedBytes r
  | .poll handle buffer r fds => leBytes 4 handle ++ leBytes 4 buffer ++ signedBytes r ++ fds
  | .bwr handle out => leBytes 4 handle ++ out.encode

/-- The assigned bytes of a downcall. -/
def Downcall.encode (d : Downcall) : List UInt8 :=
  leBytes 4 d.hdr.opcode ++ leBytes 4 d.hdr.payloadSize ++ d.body.encode

/-- What `send_downcall` passes on of a downcall that is built where `raw` was before. -/
def Downcall.sentBytes (raw : Memory) (d : Downcall) : List UInt8 :=
  (raw.write 0 d.encode).read 0 ((hdrSize + d.hdr.payloadSize) % 2 ^ 32)

def HandlerRun.sentBytes (raw : Memory) (run : HandlerRun) : List (List UInt8) :=
  run.sent.map (Downcall.sentBytes raw)

/-- The header counts exactly the assigned bytes. -/
def Downcall.Counted (d : Downcall) : Prop :=
  d.encode.length = hdrSize + d.hdr.payloadSize ∧ hdrSize + d.hdr.payloadSize < 2 ^ 32

@[simp] lemma length_signedBytes (r : ℤ) : (signedBytes r).length = 4 := length_leBytes ..

lemma Downcall.sentBytes_of_counted {d : Downcall} (h : d.Counted) (raw : Memory) :
    d.sentBytes raw = d.encode := by
  rw [sentBytes, Nat.mod_eq_of_lt h.2, ← h.1]
  exact Memory.read_write_self raw 0 d.encode

section Handlers

variable {codes : VenusCodes} {abi : VenusLayout} {bcodes : BinderCodes} {vm : BinderVm}
variable {sys : Kernel} {junk junk' : Leftover} {block : ℕ} {u : Upcall} {d : Downcall}

/-- Of the buffer of the marshaler only what it has written is sent. -/
lemma bwrOut_congr (abi : VenusLayout) (v : Upcall) (bwr : BinderReply) {ret : ℤ}
    (hret : (marshalerMarshal bcodes vm (.fresh junk.buffer) bwr.read).1 = .ret ret)
    (hret' : (marshalerMarshal bcodes vm (.fresh junk'.buffer) bwr.read).1 = .ret ret) :
    let m := (marshalerMarshal bcodes vm (.fresh junk.buffer) bwr.read).2
    let m' := (marshalerMarshal bcodes vm (.fresh junk'.buffer) bwr.read).2
    (if ret < 0 then 0 else m.writePtr) ≤ marshalerBufSize ∧
      (if ret < 0 then 0 else m'.writePtr) = (if ret < 0 then 0 else m.writePtr) ∧
      bwrOut abi v bwr ret m' (if ret < 0 then 0 else m.writePtr) =
        bwrOut abi v bwr ret m (if ret < 0 then 0 else m.writePtr) := by
  have hR : bwr.read.length ≤ readBufferSize := bwr.read_le
  generalize bwr.read = R at *
  obtain ⟨hout, hseg, hbuf⟩ := marshalerMarshal_spec bcodes vm junk.buffer hR
  obtain ⟨-, hseg', hbuf'⟩ := marshalerMarshal_spec bcodes vm junk'.buffer hR
  have hentries : (marshalerMarshal bcodes vm (.fresh junk'.buffer) R).2.dataEntries =
      (marshalerMarshal bcodes vm (.fresh junk.buffer) R).2.dataEntries := by
    rw [IpcMarshaler.dataEntries, IpcMarshaler.dataEntries, hseg, hseg']
  dsimp only
  have hoc : marshalOutcome bcodes vm R = .ret ret := by rw [← hout, hret]
  rcases lt_or_eq_of_le (marshalOutcome_nonpos hoc) with hneg | rfl
  · rw [if_pos hneg, if_pos hneg]
    refine ⟨Nat.zero_le _, rfl, ?_⟩
    unfold bwrOut
    rw [hentries]
    rfl
  · obtain ⟨hptr, hread⟩ := hbuf hret
    obtain ⟨hptr', hread'⟩ := hbuf' hret'
    obtain ⟨hparse, hfit⟩ := (marshalOutcome_eq_zero_iff bcodes vm).mp hoc
    rw [if_neg (lt_irrefl 0), if_neg (lt_irrefl 0)]
    refine ⟨?_, hptr'.trans hptr.symm, ?_⟩
    · rw [hptr, (marshalOutcome_of_parses hparse).1, framesSize_segments]
      unfold readBufferSize at hR
      unfold marshalerBufSize at *
      omega
    · unfold bwrOut
      rw [hentries, hread, ← hptr'.trans hptr.symm, hread']

lemma handleBinderWriteRead_sent :
    (handleBinderWriteRead codes abi bcodes vm sys junk block u).sent =
      let bwr := bwrAnswer abi sys u
      let v : Upcall := ⟨(bwrPatches abi u).mem, u.ptr⟩
      let m := (marshalerMarshal bcodes vm (.fresh junk.buffer) bwr.read).2
      if (∀ a ∈ (bwrPatches abi u).patched, (Touch.mk a 4).Inside u.ptr block) ∧
          sys.malloc = true then
        if bwr.ret < 0 then [bwrDowncall codes abi v bwr bwr.ret (.fresh junk.buffer) 0]
        else
          match marshalOutcome bcodes vm bwr.read with
          | .fault => []
          | .ret ret => [bwrDowncall codes abi v bwr ret m (if ret < 0 then 0 else m.writePtr)]
      else [] := by
  have hspec := (marshalerMarshal_spec bcodes vm junk.buffer (bwrAnswer abi sys u).read_le).1
  dsimp only
  by_cases hmalloc : sys.malloc = true
  · simp only [hmalloc, and_true]
    rcases handleBinderWriteRead_cases codes abi bcodes vm sys junk block u with ⟨hout, hrun⟩ |
      ⟨hin, ⟨hneg, hrun⟩ | ⟨hpos, hover, hrun⟩ | ⟨hpos, ret, hret, hrun⟩⟩
    · rw [hrun, if_neg hout]
    · rw [hrun, binderOut_sent, if_pos hmalloc, if_pos hin, if_pos hneg]
    · rw [hrun, if_pos hin, if_neg (not_lt.mpr hpos), ← hspec, hover]
    · rw [hrun, binderOut_sent, if_pos hmalloc, if_pos hin, if_neg (not_lt.mpr hpos), ← hspec,
        hret]
  · rw [if_neg (fun h => hmalloc h.2)]
    rcases handleBinderWriteRead_cases codes abi bcodes vm sys junk block u with ⟨-, hrun⟩ |
      ⟨-, ⟨-, hrun⟩ | ⟨-, -, hrun⟩ | ⟨-, ret, -, hrun⟩⟩ <;> rw [hrun]
    · rw [binderOut_sent, if_neg hmalloc]
    · rw [binderOut_sent, if_neg hmalloc]

lemma bwrDowncall_counted (hpacked : PackedLayout abi) {v : Upcall} {bwr : BinderReply} {ret : ℤ}
    {m : IpcMarshaler} {size : ℕ} (hsize : size ≤ marshalerBufSize) :
    (bwrDowncall codes abi v bwr ret m size).Counted := by
  have hpayload : (handleSize + abi.bwrOutSize + size) % 2 ^ 32 = handleSize + 24 + size := by
    rw [hpacked.bwrOut]
    unfold marshalerBufSize at hsize
    unfold handleSize
    omega
  unfold Downcall.Counted bwrDowncall initDowncallHdr
  dsimp only
  rw [hpayload]
  unfold marshalerBufSize at hsize
  simp only [Downcall.encode, DowncallBody.encode, BwrOut.encode, bwrOut, List.length_append,
    length_leBytes, length_signedBytes, Memory.length_read, hdrSize, handleSize]
  omega

/-- The stack shows in what is sent only through the array of `handle_pipe`. -/
lemma handleCall_sent_congr {k : VenusCall} (hk : ¬ (k = .pipe ∧ sys.pipe.1.ret < 0)) :
    (handleCall codes abi bcodes vm sys junk' block u k).sent =
      (handleCall codes abi bcodes vm sys junk block u k).sent := by
  cases k with
  | close | socket | poll | alienMmap2 | futexWait | futexWake => rfl
  | pipe =>
    have hsucc : ¬ sys.pipe.1.ret < 0 := fun h => hk ⟨rfl, h⟩
    simp [handleCall, handlePipe, HandlerRun.reply, hsucc]
  | binderWriteRead =>
    have hR := (bwrAnswer abi sys u).read_le
    have hspec := (marshalerMarshal_spec bcodes vm junk.buffer hR).1
    have hspec' := (marshalerMarshal_spec bcodes vm junk'.buffer hR).1
    simp only [handleCall, handleBinderWriteRead_sent]
    split_ifs with hsends hneg
    · rfl
    · cases hout : marshalOutcome bcodes vm (bwrAnswer abi sys u).read with
      | fault => rfl
      | ret ret =>
        rw [hout] at hspec hspec'
        obtain ⟨-, hsize, hcongr⟩ := bwrOut_congr abi ⟨(bwrPatches abi u).mem, u.ptr⟩
          (bwrAnswer abi sys u) hspec hspec'
        simp only [bwrDowncall, hsize, hcongr]
    · rfl

lemma handlePoll_counted (hpacked : PackedLayout abi)
    (hpoll : ∀ fds nfds timeout, (sys.poll fds nfds timeout).2.length = fds.length)
    (hd : d ∈ (handlePoll codes abi sys u).sent) : d.Counted := by
  rw [handlePoll_eq] at hd
  dsimp only at hd
  split_ifs at hd with hmalloc hshort
  · cases hd
  · rw [List.mem_singleton.mp hd]
    have hfits := not_le.mp (fun h => hshort ((pollSizes_short_iff _).mpr h))
    have hfds : (pollCall abi sys u).2.length =
        (pollSizes abi (u.field abi.pollNfds)).pollfds := by
      rw [pollCall, hpoll, Memory.length_read]
    unfold pollFdsOffset hdrSize handleSize at hfits
    rw [hpacked.pollOut] at hfits
    have hsum : handleSize + (pollSizes abi (u.field abi.pollNfds)).pollfds + abi.pollOutSize <
        2 ^ 32 := by
      rw [hpacked.pollOut]
      unfold handleSize
      omega
    have hpayload : (pollSizes abi (u.field abi.pollNfds)).payload =
        handleSize + (pollSizes abi (u.field abi.pollNfds)).pollfds + abi.pollOutSize :=
      Nat.mod_eq_of_lt hsum
    rw [hpacked.pollOut, handleSize] at hpayload
    simp only [Downcall.Counted, Downcall.encode, DowncallBody.encode, initDowncallHdr,
      List.length_append, length_leBytes, length_signedBytes, hdrSize, hfds, hpayload]
    omega
  · cases hd

lemma handleBinderWriteRead_counted (hpacked : PackedLayout abi)
    (hd : d ∈ (handleBinderWriteRead codes abi bcodes vm sys junk block u).sent) : d.Counted := by
  have hR := (bwrAnswer abi sys u).read_le
  have hspec := (marshalerMarshal_spec bcodes vm junk.buffer hR).1
  rw [handleBinderWriteRead_sent] at hd
  dsimp only at hd
  split_ifs at hd with hsends hneg
  · rw [List.mem_singleton.mp hd]
    exact bwrDowncall_counted hpacked (Nat.zero_le _)
  · cases hout : marshalOutcome bcodes vm (bwrAnswer abi sys u).read with
    | fault =>
      rw [hout] at hd
      cases hd
    | ret ret =>
      rw [hout] at hspec hd
      rw [List.mem_singleton.mp hd]
      exact bwrDowncall_counted hpacked
        (bwrOut_congr abi u (bwrAnswer abi sys u) hspec hspec).1
  · cases hd

/-- The header of every downcall counts the bytes that the handler assigns. -/
lemma handleCall_counted (hpacked : PackedLayout abi)
    (hpoll : ∀ fds nfds timeout, (sys.poll fds nfds timeout).2.length = fds.length)
    {k : VenusCall} (hd : d ∈ (handleCall codes abi bcodes vm sys junk block u k).sent) :
    d.Counted := by
  cases k with
  | close | alienMmap2 =>
    rw [List.mem_singleton.mp hd]
    simp [Downcall.Counted, Downcall.encode, DowncallBody.encode, initDowncallHdr, longSize,
      hdrSize]
  | socket | futexWait | futexWake =>
    rw [List.mem_singleton.mp hd]
    simp [Downcall.Counted, Downcall.encode, DowncallBody.encode, initDowncallHdr, longSize,
      handleSize, hdrSize]
  | pipe =>
    rw [List.mem_singleton.mp hd]
    simp [Downcall.Counted, Downcall.encode, DowncallBody.encode, initDowncallHdr,
      hpacked.pipeOut, hdrSize]
  | poll => exact handlePoll_counted hpacked hpoll hd
  | binderWriteRead => exact handleBinderWriteRead_counted hpacked hd

end Handlers

/-- What was on the stack and in new blocks before does not show in what is sent. -/
def LeakFree (codes : VenusCodes) (abi : VenusLayout) (bcodes : BinderCodes) (vm : BinderVm)
    (sys : Kernel) (block : ℕ) (u : Upcall) : Prop :=
  ∀ junk junk' raw raw',
    (workerHandle codes abi bcodes vm sys junk block u).sentBytes raw =
      (workerHandle codes abi bcodes vm sys junk' block u).sentBytes raw'

/-- What is sent depends on nothing but the upcall and the answers of the calls, except for a
`PIPE` whose call fails. -/
theorem leakFree_iff {codes : VenusCodes} {abi : VenusLayout} {bcodes : BinderCodes}
    {vm : BinderVm} {sys : Kernel} {block : ℕ} {u : Upcall} (hpacked : PackedLayout abi)
    (hpoll : ∀ fds nfds timeout, (sys.poll fds nfds timeout).2.length = fds.length) :
    LeakFree codes abi bcodes vm sys block u ↔
      ¬ (codes.decode u.opcode = some .pipe ∧ sys.pipe.1.ret < 0) := by
  -- as many bytes are passed on as are assigned
  have hbytes : ∀ (junk : Leftover) (raw : Memory) (k : VenusCall),
      codes.decode u.opcode = some k →
        (workerHandle codes abi bcodes vm sys junk block u).sentBytes raw =
          (handleCall codes abi bcodes vm sys junk block u k).sent.map Downcall.encode := by
    intro junk raw k hk
    have hsent : (workerHandle codes abi bcodes vm sys junk block u).sent =
        (handleCall codes abi bcodes vm sys junk block u k).sent := by
      rw [workerHandle, hk]
    rw [HandlerRun.sentBytes, hsent]
    apply List.map_congr_left
    intro d hd
    exact Downcall.sentBytes_of_counted (handleCall_counted hpacked hpoll hd) raw
  constructor
  · rintro hleak ⟨hk, hfail⟩
    have hsame := hleak ⟨(0, 0), fun _ => 0⟩ ⟨(1, 0), fun _ => 0⟩ (fun _ => 0) (fun _ => 0)
    rw [hbytes _ _ _ hk, hbytes _ _ _ hk] at hsame
    simp only [handleCall, handlePipe, HandlerRun.reply, if_pos hfail, List.map_cons,
      List.map_nil, Downcall.encode, DowncallBody.encode, List.cons.injEq, and_true,
      List.append_cancel_left_eq, List.append_cancel_right_eq] at hsame
    exact absurd hsame (by decide)
  · intro hno junk junk' raw raw'
    cases hk : codes.decode u.opcode with
    | none => simp [workerHandle, hk, HandlerRun.sentBytes]
    | some k =>
      rw [hbytes junk raw k hk, hbytes junk' raw' k hk]
      congr 1
      apply handleCall_sent_congr
      rintro ⟨rfl, hfail⟩
      exact hno ⟨hk, hfail⟩

end ExpressOS

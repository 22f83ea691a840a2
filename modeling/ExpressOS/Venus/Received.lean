import ExpressOS.Binder.Causes
import ExpressOS.Binder.Safety
import ExpressOS.Systems.WordFields
import ExpressOS.Venus.Answers
import ExpressOS.Venus.Glue
import ExpressOS.Venus.Surroundings
import ExpressOS.Venus.Wire

/-!
# What arrives in the kernel

`receive` reads the bytes of a downcall on the other side of the glue device: the opcode says which
member of the union they fill. It accepts exactly what `Downcall.encode` writes, and from the bytes
of every handler it recovers the downcall.
-/

namespace ExpressOS
open Systems

/-- The members of the union in `struct expressos_venus_downcall`. -/
inductive DowncallShape
  | ret
  | pipe
  | asyncRet
  | poll
  | bwr
  deriving DecidableEq, Repr

/-- The member for the answer to a call. -/
def VenusCall.shape : VenusCall → DowncallShape
  | .close | .alienMmap2 => .ret
  | .pipe => .pipe
  | .socket | .futexWait | .futexWake => .asyncRet
  | .poll => .poll
  | .binderWriteRead => .bwr

/-- The words in front of the variable part of a member. -/
def DowncallShape.fieldCount : DowncallShape → ℕ
  | .ret => 1
  | .asyncRet => 2
  | .pipe | .poll => 3
  | .bwr => 7

def readBody (shape : DowncallShape) (bs : List UInt8) : Option DowncallBody :=
  match shape, takeWords shape.fieldCount bs with
  | .ret, some ([r], []) => some (.ret (toSigned r))
  | .pipe, some ([r, readPipe, writePipe], []) => some (.pipe (toSigned r) readPipe writePipe)
  | .asyncRet, some ([handle, r], []) => some (.asyncRet handle (toSigned r))
  | .poll, some ([handle, buffer, r], fds) => some (.poll handle buffer (toSigned r) fds)
  | .bwr, some ([handle, buffer, r, writeConsumed, readConsumed, size, entries], payload) =>
    if payload.length = size then
      some (.bwr handle
        ⟨buffer, toSigned r, writeConsumed, readConsumed, size, entries, payload⟩)
    else none
  | _, _ => none

/-- A downcall that fills the bytes. -/
def receive (codes : VenusCodes) (bs : List UInt8) : Option Downcall :=
  match splitFrame bs with
  | some (f, []) => (codes.decode f.opcode).bind fun k =>
    (readBody k.shape f.payload).map (fun body => ⟨⟨f.opcode, f.payload.length⟩, body⟩)
  | _ => none

/-- An `int` or a `long`. -/
def IsInt (r : ℤ) : Prop := -2 ^ 31 ≤ r ∧ r < 2 ^ 31

instance (r : ℤ) : Decidable (IsInt r) := inferInstanceAs (Decidable (_ ∧ _))

namespace DowncallBody

/-- A body of the shape, with values that fit their fields. -/
def Fits : DowncallBody → DowncallShape → Prop
  | .ret r, shape => shape = .ret ∧ IsInt r
  | .pipe r readPipe writePipe, shape =>
    shape = .pipe ∧ IsInt r ∧ readPipe < 2 ^ 32 ∧ writePipe < 2 ^ 32
  | .asyncRet handle r, shape => shape = .asyncRet ∧ handle < 2 ^ 32 ∧ IsInt r
  | .poll handle buffer r _, shape =>
    shape = .poll ∧ handle < 2 ^ 32 ∧ buffer < 2 ^ 32 ∧ IsInt r
  | .bwr handle out, shape => shape = .bwr ∧ handle < 2 ^ 32 ∧ out.buffer < 2 ^ 32 ∧
    IsInt out.ret ∧ out.writeConsumed < 2 ^ 32 ∧ out.readConsumed < 2 ^ 32 ∧
    out.payloadSize < 2 ^ 32 ∧ out.dataEntries < 2 ^ 32 ∧ out.payload.length = out.payloadSize

/-- The words of a body, and the bytes behind them. -/
def words : DowncallBody → List ℕ
  | .ret r => [signedWord r]
  | .pipe r readPipe writePipe => [signedWord r, readPipe, writePipe]
  | .asyncRet handle r => [handle, signedWord r]
  | .poll handle buffer r _ => [handle, buffer, signedWord r]
  | .bwr handle out => [handle, out.buffer, signedWord out.ret, out.writeConsumed,
    out.readConsumed, out.payloadSize, out.dataEntries]

def tail : DowncallBody → List UInt8
  | .ret _ | .pipe _ _ _ | .asyncRet _ _ => []
  | .poll _ _ _ fds => fds
  | .bwr _ out => out.payload

end DowncallBody

section Words

lemma toSigned_signedWord {r : ℤ} (h : IsInt r) : toSigned (signedWord r) = r := by
  obtain ⟨hlow, hhigh⟩ := h
  unfold toSigned signedWord
  split_ifs with hsign <;> omega

lemma signedWord_toSigned {w : ℕ} (h : w < 2 ^ 32) : signedWord (toSigned w) = w := by
  unfold toSigned signedWord
  split_ifs <;> omega

lemma isInt_toSigned {w : ℕ} (h : w < 2 ^ 32) : IsInt (toSigned w) := by
  unfold toSigned IsInt
  split_ifs <;> omega

lemma signedWord_lt (r : ℤ) : signedWord r < 2 ^ 32 := by
  unfold signedWord
  omega

lemma signedBytes_eq (r : ℤ) : signedBytes r = leBytes 4 (signedWord r) := rfl

end Words

section Bodies

variable {shape : DowncallShape} {body : DowncallBody} {bs : List UInt8}

lemma DowncallBody.encode_eq (body : DowncallBody) :
    body.encode = wordBytes body.words ++ body.tail := by
  cases body <;>
    simp [DowncallBody.encode, words, tail, signedBytes_eq, BwrOut.encode, List.append_assoc]

lemma DowncallBody.Fits.length_words (h : body.Fits shape) :
    body.words.length = shape.fieldCount := by
  cases body <;>
  · obtain ⟨rfl, -⟩ := h
    rfl

lemma DowncallBody.Fits.words_lt (h : body.Fits shape) : ∀ w ∈ body.words, w < 2 ^ 32 := by
  cases body with
  | ret r => simpa [words] using signedWord_lt r
  | pipe r readPipe writePipe =>
    obtain ⟨-, -, hread, hwrite⟩ := h
    simpa [words] using ⟨signedWord_lt r, hread, hwrite⟩
  | asyncRet handle r =>
    obtain ⟨-, hhandle, -⟩ := h
    simpa [words] using ⟨hhandle, signedWord_lt r⟩
  | poll handle buffer r fds =>
    obtain ⟨-, hhandle, hbuffer, -⟩ := h
    simpa [words] using ⟨hhandle, hbuffer, signedWord_lt r⟩
  | bwr handle out =>
    obtain ⟨-, hhandle, hbuffer, -, hwritten, hread, hsize, hentries, -⟩ := h
    simpa [words] using
      ⟨hhandle, hbuffer, signedWord_lt out.ret, hwritten, hread, hsize, hentries⟩

lemma readBody_encode (h : body.Fits shape) : readBody shape body.encode = some body := by
  have htake : takeWords shape.fieldCount body.encode = some (body.words, body.tail) := by
    rw [body.encode_eq, ← h.length_words]
    exact takeWords_wordBytes h.words_lt body.tail
  unfold readBody
  rw [htake]
  cases body with
  | ret r =>
    obtain ⟨rfl, hr⟩ := h
    simp [DowncallBody.words, DowncallBody.tail, toSigned_signedWord hr]
  | pipe r readPipe writePipe =>
    obtain ⟨rfl, hr, -⟩ := h
    simp [DowncallBody.words, DowncallBody.tail, toSigned_signedWord hr]
  | asyncRet handle r =>
    obtain ⟨rfl, -, hr⟩ := h
    simp [DowncallBody.words, DowncallBody.tail, toSigned_signedWord hr]
  | poll handle buffer r fds =>
    obtain ⟨rfl, -, -, hr⟩ := h
    simp [DowncallBody.words, DowncallBody.tail, toSigned_signedWord hr]
  | bwr handle out =>
    obtain ⟨rfl, -, -, hr, -, -, -, -, hlength⟩ := h
    simp [DowncallBody.words, DowncallBody.tail, toSigned_signedWord hr, hlength]

/-- What is accepted is well formed. -/
lemma encode_of_readBody (h : readBody shape bs = some body) :
    body.Fits shape ∧ body.encode = bs := by
  cases htake : takeWords shape.fieldCount bs with
  | none =>
    unfold readBody at h
    rw [htake] at h
    cases shape <;> cases h
  | some taken =>
    obtain ⟨ws, rest⟩ := taken
    obtain ⟨rfl, -, hwords⟩ := wordBytes_of_takeWords htake
    unfold readBody at h
    rw [htake] at h
    rw [DowncallBody.encode_eq]
    split at h
    · rename_i r heq
      cases heq
      cases h
      have hr : r < 2 ^ 32 := hwords r (by simp)
      exact ⟨⟨rfl, isInt_toSigned hr⟩,
        by simp [DowncallBody.words, DowncallBody.tail, signedWord_toSigned hr]⟩
    · rename_i r readPipe writePipe heq
      cases heq
      cases h
      have hr : r < 2 ^ 32 := hwords r (by simp)
      exact ⟨⟨rfl, isInt_toSigned hr, hwords readPipe (by simp), hwords writePipe (by simp)⟩,
        by simp [DowncallBody.words, DowncallBody.tail, signedWord_toSigned hr]⟩
    · rename_i handle r heq
      cases heq
      cases h
      have hr : r < 2 ^ 32 := hwords r (by simp)
      exact ⟨⟨rfl, hwords handle (by simp), isInt_toSigned hr⟩,
        by simp [DowncallBody.words, DowncallBody.tail, signedWord_toSigned hr]⟩
    · rename_i handle buffer r fds heq
      cases heq
      cases h
      have hr : r < 2 ^ 32 := hwords r (by simp)
      exact ⟨⟨rfl, hwords handle (by simp), hwords buffer (by simp), isInt_toSigned hr⟩,
        by simp [DowncallBody.words, DowncallBody.tail, signedWord_toSigned hr]⟩
    · rename_i handle buffer r writeConsumed readConsumed size entries payload heq
      cases heq
      split_ifs at h with hsize
      cases h
      have hr : r < 2 ^ 32 := hwords r (by simp)
      exact ⟨⟨rfl, hwords handle (by simp), hwords buffer (by simp), isInt_toSigned hr,
        hwords writeConsumed (by simp), hwords readConsumed (by simp), hwords size (by simp),
        hwords entries (by simp), hsize⟩,
        by simp [DowncallBody.words, DowncallBody.tail, signedWord_toSigned hr]⟩
    · cases h

end Bodies

/-- A downcall that a receiver can make sense of: one of the calls, with the member for it, and a
header that counts it. -/
structure Downcall.Proper (codes : VenusCodes) (d : Downcall) : Prop where
  counted : d.body.encode.length = d.hdr.payloadSize
  payload_lt : d.hdr.payloadSize < 2 ^ 32
  member : ∃ k, codes.decode d.hdr.opcode = some k ∧ d.body.Fits k.shape

lemma Downcall.Counted.proper {codes : VenusCodes} {d : Downcall} (h : d.Counted) {k : VenusCall}
    (hk : codes.decode d.hdr.opcode = some k) (hfits : d.body.Fits k.shape) : d.Proper codes := by
  obtain ⟨hcount, hlt⟩ := h
  rw [Downcall.encode, List.length_append, List.length_append, length_leBytes, length_leBytes,
    hdrSize] at hcount
  exact ⟨by omega, by omega, k, hk, hfits⟩

/-- Exactly the bytes of a proper downcall are accepted. -/
theorem receive_eq_some_iff {codes : VenusCodes} {bs : List UInt8} {d : Downcall} :
    receive codes bs = some d ↔ d.Proper codes ∧ bs = d.encode := by
  unfold receive
  constructor
  · intro h
    split at h
    · rename_i f hsplit
      obtain ⟨k, hk, hbody⟩ := Option.bind_eq_some_iff.mp h
      obtain ⟨body, hread, rfl⟩ := Option.map_eq_some_iff.mp hbody
      obtain ⟨hfits, hencode⟩ := encode_of_readBody hread
      refine ⟨⟨congrArg List.length hencode, f.payload_lt, k, hk, hfits⟩, ?_⟩
      rw [splitFrame_some hsplit, List.append_nil, Frame.encode, Downcall.encode, hencode]
    · cases h
  · rintro ⟨⟨hlength, hlt, k, hk, hfits⟩, rfl⟩
    have hopcode : d.hdr.opcode < 2 ^ 32 := by
      rw [← codes.code_of_decode hk]
      exact (codes.code_lt k).trans_le codes.callCount_le
    have hpayload : d.body.encode.length < 2 ^ 32 := hlength ▸ hlt
    have hframe : d.encode =
        (Frame.mk d.hdr.opcode d.body.encode hopcode hpayload).encode ++ [] := by
      rw [List.append_nil, Frame.encode, Downcall.encode]
      dsimp only
      rw [hlength]
    rw [hframe, splitFrame_encode]
    simp [hk, readBody_encode hfits, hlength]

/-! ### The downcalls of the handlers -/

/-- The calls return what their C types hold, and `poll` leaves the length of its array. -/
structure CTyped (sys : Kernel) : Prop where
  close : ∀ fd, IsInt (sys.close fd).value
  pipe : IsInt sys.pipe.1.value ∧ sys.pipe.2.1 < 2 ^ 32 ∧ sys.pipe.2.2 < 2 ^ 32
  socket : ∀ domain type protocol, IsInt (sys.socket domain type protocol).value
  poll : ∀ fds nfds timeout, IsInt (sys.poll fds nfds timeout).1.value ∧
    (sys.poll fds nfds timeout).2.length = fds.length
  mmap : ∀ addr length prot flags fd offset,
    (sys.mmap addr length prot flags fd offset).1 < 2 ^ 32 ∧
      IsInt (-(sys.mmap addr length prot flags fd offset).2)
  futex : ∀ uaddr op val ts bitset, IsInt (sys.futex uaddr op val ts bitset)
  binderWriteRead : ∀ write, IsInt (sys.binderWriteRead write).ret ∧
    (sys.binderWriteRead write).writeConsumed < 2 ^ 32

lemma quietKernel_cTyped (R : List UInt8) (hR : R.length ≤ readBufferSize) :
    CTyped (quietKernel R hR) := by
  have hvalue : IsInt (SysResult.mk 0 0).value := by decide
  have hzero : IsInt 0 := by decide
  have hword : ∀ w : ℕ, w < 4 → w < 2 ^ 32 := fun w hw => hw.trans (by decide)
  exact ⟨fun _ => hvalue, ⟨hvalue, hword 3 (by decide), (by decide : 4 < 2 ^ 32)⟩,
    fun _ _ _ => hvalue, fun _ _ _ => ⟨hvalue, rfl⟩,
    fun _ _ _ _ _ _ => ⟨hword 0 (by decide), hzero⟩, fun _ _ _ _ _ => hzero,
    fun _ => ⟨hzero, hword 0 (by decide)⟩⟩

section Handlers

variable {codes : VenusCodes} {abi : VenusLayout} {bcodes : BinderCodes} {vm : BinderVm}
  {sys : Kernel} {junk : Leftover} {block : ℕ} {u : Upcall} {d : Downcall}

lemma MarshalCause.isInt_code (c : MarshalCause) : IsInt c.code := by
  cases c <;> decide

lemma isInt_of_marshalOutcome {R : List UInt8} {ret : ℤ}
    (h : marshalOutcome bcodes vm R = .ret ret) : IsInt ret := by
  obtain ⟨c, -, hcode⟩ | ⟨-, hzero | hfault⟩ := marshalOutcome_cause bcodes vm R
  · cases h.symm.trans hcode
    exact c.isInt_code
  · cases h.symm.trans hzero
    decide
  · cases h.symm.trans hfault

lemma bwrDowncall_fits {v : Upcall} {bwr : BinderReply} {ret : ℤ} {m : IpcMarshaler} {size : ℕ}
    (hret : IsInt ret) (hwritten : bwr.writeConsumed < 2 ^ 32)
    (hentries : m.segments.length ≤ maxSegmentNum) (hsize : size ≤ marshalerBufSize) :
    (bwrDowncall codes abi v bwr ret m size).body.Fits .bwr := by
  have hread := bwr.read_le
  unfold readBufferSize at hread
  unfold maxSegmentNum at hentries
  unfold marshalerBufSize at hsize
  refine ⟨rfl, leNat_lt_word (by simp), leNat_lt_word (by simp), hret, hwritten, ?_, ?_, ?_,
    Memory.length_read _ _ _⟩
  · change bwr.read.length < 2 ^ 32
    omega
  · change size < 2 ^ 32
    omega
  · change m.segments.length < 2 ^ 32
    omega

lemma handleBinderWriteRead_fits (hsys : CTyped sys)
    (hd : d ∈ (handleBinderWriteRead codes abi bcodes vm sys junk block u).sent) :
    d.hdr.opcode = codes.code .binderWriteRead ∧ d.body.Fits .bwr := by
  have hR := (bwrAnswer abi sys u).read_le
  obtain ⟨hret, hwritten⟩ := hsys.binderWriteRead
    ((bwrPatches abi u).mem.read (u.ptr + abi.bwrPayload) (u.field abi.bwrWriteSize))
  have hspec := (marshalerMarshal_spec bcodes vm junk.buffer hR).1
  have hentries := segments_length_le bcodes vm junk.buffer _ hR
  rw [handleBinderWriteRead_sent] at hd
  dsimp only at hd
  split_ifs at hd with hsends hneg
  · rw [List.mem_singleton.mp hd]
    exact ⟨rfl, bwrDowncall_fits hret hwritten (Nat.zero_le _) (Nat.zero_le _)⟩
  · cases hout : marshalOutcome bcodes vm (bwrAnswer abi sys u).read with
    | fault =>
      rw [hout] at hd
      cases hd
    | ret ret =>
      rw [hout] at hspec hd
      rw [List.mem_singleton.mp hd]
      exact ⟨rfl, bwrDowncall_fits (isInt_of_marshalOutcome hout) hwritten hentries
        (bwrOut_congr abi u (bwrAnswer abi sys u) hspec hspec).1⟩
  · cases hd

/-- A handler answers under a known opcode, with the member for it. -/
lemma handleCall_fits (hsys : CTyped sys)
    (hjunk : junk.pipefd.1 < 2 ^ 32 ∧ junk.pipefd.2 < 2 ^ 32) {k : VenusCall}
    (hd : d ∈ (handleCall codes abi bcodes vm sys junk block u k).sent) :
    d.hdr.opcode = codes.code k.replyCall ∧ d.body.Fits k.replyCall.shape := by
  have hword : ∀ a, u.mem.word a < 2 ^ 32 := fun a => leNat_lt_word (by simp)
  cases k with
  | close =>
    rw [List.mem_singleton.mp hd]
    exact ⟨rfl, rfl, hsys.close _⟩
  | pipe =>
    rw [List.mem_singleton.mp hd]
    obtain ⟨hr, hread, hwrite⟩ := hsys.pipe
    refine ⟨rfl, rfl, hr, ?_, ?_⟩
    · split_ifs
      · exact hjunk.1
      · exact hread
    · split_ifs
      · exact hjunk.2
      · exact hwrite
  | socket =>
    rw [List.mem_singleton.mp hd]
    exact ⟨rfl, rfl, hword _, hsys.socket _ _ _⟩
  | poll =>
    change d ∈ (handlePoll codes abi sys u).sent at hd
    rw [handlePoll_eq] at hd
    dsimp only at hd
    split_ifs at hd with hmalloc hshort
    · cases hd
    · rw [List.mem_singleton.mp hd]
      exact ⟨rfl, rfl, hword _, hword _, (hsys.poll _ _ _).1⟩
    · cases hd
  | binderWriteRead => exact handleBinderWriteRead_fits hsys hd
  | alienMmap2 =>
    rw [List.mem_singleton.mp hd]
    obtain ⟨hlt, herrno⟩ := hsys.mmap (u.field abi.mmapAddr) (u.field abi.mmapLength)
      (u.field abi.mmapProt) (u.field abi.mmapFlags) (u.field abi.mmapFd)
      (u.field abi.mmapPgoffset * pageSize % 2 ^ 32)
    refine ⟨rfl, rfl, ?_⟩
    split_ifs
    · exact herrno
    · exact isInt_toSigned hlt
  | futexWait | futexWake =>
    rw [List.mem_singleton.mp hd]
    exact ⟨rfl, rfl, hword _, hsys.futex _ _ _ _ _⟩

lemma Downcall.Counted.received (h : d.Counted) {k : VenusCall}
    (hopcode : d.hdr.opcode = codes.code k) (hfits : d.body.Fits k.shape) (raw : Memory) :
    receive codes (d.sentBytes raw) = some d := by
  rw [sentBytes_of_counted h]
  refine receive_eq_some_iff.mpr ⟨h.proper ?_ hfits, rfl⟩
  rw [hopcode]
  exact codes.decode_code k

lemma workerHandle_received (hpacked : PackedLayout abi) (hsys : CTyped sys)
    (hjunk : junk.pipefd.1 < 2 ^ 32 ∧ junk.pipefd.2 < 2 ^ 32)
    (hd : d ∈ (workerHandle codes abi bcodes vm sys junk block u).sent) (raw : Memory) :
    receive codes (d.sentBytes raw) = some d := by
  unfold workerHandle at hd
  cases hk : codes.decode u.opcode with
  | none =>
    rw [hk] at hd
    cases hd
  | some k =>
    rw [hk] at hd
    have hcounted := handleCall_counted hpacked (fun fds nfds t => (hsys.poll fds nfds t).2) hd
    obtain ⟨hopcode, hfits⟩ := handleCall_fits hsys hjunk hd
    exact hcounted.received hopcode hfits raw

/-- Whatever the memory held in which the downcalls were built, the receiver reads back what the
handler has assigned. For an upcall that is passed over nothing is written. -/
theorem downcalls_received (hpacked : PackedLayout abi) (hsys : CTyped sys)
    (hjunk : junk.pipefd.1 < 2 ^ 32 ∧ junk.pipefd.2 < 2 ^ 32) (raw : Memory) :
    ((workerHandle codes abi bcodes vm sys junk block u).sentBytes raw).map (receive codes) =
        (workerHandle codes abi bcodes vm sys junk block u).sent.map some ∧
      (codes.decode u.opcode = none →
        (workerHandle codes abi bcodes vm sys junk block u).sentBytes raw = []) := by
  refine ⟨?_, fun hunknown => ?_⟩
  · rw [HandlerRun.sentBytes, List.map_map]
    apply List.map_congr_left
    intro d hd
    exact workerHandle_received hpacked hsys hjunk hd raw
  · rw [HandlerRun.sentBytes, (workerHandle_unknown hunknown).1, List.map_nil]

end Handlers

/-- `sampleCodes` gives the opcode 8 to none of the calls. -/
def unknownUpcall : Upcall := ⟨memoryOf [8, 0, 0, 0, 0, 0, 0, 0], 4096⟩

theorem downcalls_received_pollAndUnknown :
    ((workerHandle sampleCodes sampleLayout driverCodes zeroVm (quietKernel [] (by decide))
          cleanStack 40 twoPollfds).sentBytes (fun _ => 0xff)).map (receive sampleCodes) =
        [some ⟨⟨3, 28⟩, .poll 0x2000 0x3000 0 [5, 0, 0, 0, 1, 0, 0, 0, 6, 0, 0, 0, 4, 0, 0, 0]⟩] ∧
      (workerHandle sampleCodes sampleLayout driverCodes zeroVm (quietKernel [] (by decide))
        cleanStack 8 unknownUpcall).sentBytes (fun _ => 0xff) = [] := by
  have hsys : CTyped (quietKernel [] (by decide)) := quietKernel_cTyped _ _
  constructor
  · rw [(downcalls_received sampleLayout_packed hsys (by decide) _).1]
    decide +kernel
  · have hunknown : sampleCodes.decode unknownUpcall.opcode = none := by decide +kernel
    exact (downcalls_received sampleLayout_packed hsys (by decide) _).2 hunknown

/-! ### The answers of a run -/

/-- The calls of a handler return what their C types hold. -/
def SystemAct.CTyped : SystemAct → Prop
  | .handle _ _ _ sys junk =>
    ExpressOS.CTyped sys ∧ junk.pipefd.1 < 2 ^ 32 ∧ junk.pipefd.2 < 2 ^ 32
  | _ => True

section Runs

variable {codes : VenusCodes} {abi : VenusLayout} {bcodes : BinderCodes} {vm : BinderVm} {buf : ℕ}
  {s s' : VenusSystem}

end Runs

/-- What the kernel learns from the answer to a `BINDER_WRITE_READ` that succeeded: the handle, the
read buffer as the driver has filled it, and the segments that it names. -/
def receiveReply (codes : VenusCodes) (bcodes : BinderCodes) (start : ℕ) (bs : List UInt8) :
    Option (ℕ × List UInt8 × List (ℕ × List UInt8)) :=
  match receive codes bs with
  | some ⟨_, .bwr handle out⟩ =>
    if out.ret < 0 then none
    else
      (unmarshal bcodes start out.readConsumed out.dataEntries out.payload).map
        (fun read => (handle, read))
  | _ => none

section Reply

variable {codes : VenusCodes} {abi : VenusLayout} {bcodes : BinderCodes} {vm : BinderVm}
  {sys : Kernel} {junk : Leftover} {block : ℕ} {u : Upcall} {cs : List Command}

lemma marshalOutcome_of_segmentsFit
    (hR : (bcodes.stream.encodeAll cs).length ≤ readBufferSize)
    (hfit : SegmentsFit vm (bcodes.stream.encodeAll cs).length (requestsOf cs)) :
    marshalOutcome bcodes vm (bcodes.stream.encodeAll cs) = .ret 0 :=
  (marshalOutcome_eq_zero_iff_format bcodes vm hR).mpr (.inl ⟨cs, rfl, hfit⟩)

/-- Of whole commands whose segments end inside the mapping nothing is lost on the way. -/
lemma unmarshal_commands (hR : (bcodes.stream.encodeAll cs).length ≤ readBufferSize)
    (hfit : SegmentsFit vm (bcodes.stream.encodeAll cs).length (requestsOf cs))
    (hends : ∀ r ∈ requestsOf cs, r.ptr - vm.start + r.length ≤ binderVmSize) (buffer : Memory) :
    let m := (marshalerMarshal bcodes vm (.fresh buffer) (bcodes.stream.encodeAll cs)).2
    unmarshal bcodes vm.start (bcodes.stream.encodeAll cs).length m.dataEntries
        (m.buf.read 0 m.writePtr) =
      some (bcodes.stream.encodeAll cs, segmentsOf vm (requestsOf cs)) := by
  dsimp only
  have hdecode : bcodes.stream.decodeAll (bcodes.stream.encodeAll cs) = (cs, []) := by
    have hwhole := bcodes.stream.decodeAll_append bcodes.stream.split_nil cs
    rwa [List.append_nil] at hwhole
  have hzero := marshalOutcome_of_segmentsFit hR hfit
  obtain ⟨hout, htable, hbuf⟩ := marshalerMarshal_spec bcodes vm buffer hR
  obtain ⟨hptr, hread⟩ := hbuf (hout.trans hzero)
  have hparse := ((marshalOutcome_eq_zero_iff bcodes vm).mp hzero).1
  have hrecorded : recordedSegments bcodes vm (bcodes.stream.encodeAll cs) =
      (requestsOf cs).map (Request.segment vm) := by
    rw [(marshalOutcome_of_parses hparse).1, hdecode]
  have hlength := congrArg List.length hread
  rw [hptr, Memory.length_read, List.length_append, length_framesOf, Nat.add_right_cancel_iff,
    hdecode, List.append_nil] at hlength
  rw [hdecode, hrecorded, framesOf_eq_frames vm hends, List.append_nil] at hread
  have hentries : (marshalerMarshal bcodes vm (.fresh buffer)
      (bcodes.stream.encodeAll cs)).2.dataEntries = (segmentsOf vm (requestsOf cs)).length := by
    rw [IpcMarshaler.dataEntries, htable, hrecorded, segmentsOf, List.length_map,
      List.length_map]
  have hsmall : ∀ s ∈ segmentsOf vm (requestsOf cs), s.1 < 2 ^ 32 ∧ s.2.length < 2 ^ 32 := by
    intro s hs
    obtain ⟨r, hr, rfl⟩ := List.mem_map.mp hs
    have hend := hends r hr
    have hvm : binderVmSize < 2 ^ 32 := by decide
    dsimp only
    rw [vm.slice_eq_read hend, Memory.length_read]
    omega
  have hnil : splitCommand bcodes [] = none := bcodes.stream.split_nil
  have hback := restoreStream_relocate bcodes vm hnil hfit.1
  rw [List.append_nil, List.append_nil] at hback
  rw [unmarshal, hread, hentries, List.drop_left' hlength.symm, List.take_left' hlength.symm,
    readFrames_frames hsmall, hback]
  rfl

lemma handleBinderWriteRead_success
    (hpatched : ∀ a ∈ (bwrPatches abi u).patched, (Touch.mk a 4).Inside u.ptr block)
    (hmalloc : sys.malloc = true) (hdriver : 0 ≤ (bwrAnswer abi sys u).ret)
    (hzero : marshalOutcome bcodes vm (bwrAnswer abi sys u).read = .ret 0) :
    let m := (marshalerMarshal bcodes vm (.fresh junk.buffer) (bwrAnswer abi sys u).read).2
    (handleBinderWriteRead codes abi bcodes vm sys junk block u).sent =
      [bwrDowncall codes abi ⟨(bwrPatches abi u).mem, u.ptr⟩ (bwrAnswer abi sys u) 0 m
        m.writePtr] := by
  rw [handleBinderWriteRead_sent]
  dsimp only
  rw [if_pos ⟨hpatched, hmalloc⟩, if_neg (not_lt.mpr hdriver), hzero]
  rfl

/-- When the driver hands back whole commands whose segments lie in the mapping and find room, the
kernel gets them, and the bytes of every segment, from the one downcall that is sent. -/
theorem binderReply_received (hpacked : PackedLayout abi) (hsys : CTyped sys)
    (hk : codes.decode u.opcode = some .binderWriteRead)
    (hpatched : ∀ a ∈ (bwrPatches abi u).patched, (Touch.mk a 4).Inside u.ptr block)
    (hmalloc : sys.malloc = true) (hdriver : 0 ≤ (bwrAnswer abi sys u).ret)
    (hread : (bwrAnswer abi sys u).read = bcodes.stream.encodeAll cs)
    (hfit : SegmentsFit vm (bcodes.stream.encodeAll cs).length (requestsOf cs))
    (hends : ∀ r ∈ requestsOf cs, r.ptr - vm.start + r.length ≤ binderVmSize) (raw : Memory) :
    ∃ bytes, (workerHandle codes abi bcodes vm sys junk block u).sentBytes raw = [bytes] ∧
      receiveReply codes bcodes vm.start bytes =
        some ((bwrPatches abi u).mem.word (u.ptr + handleOffset), bcodes.stream.encodeAll cs,
          segmentsOf vm (requestsOf cs)) := by
  have hR : (bcodes.stream.encodeAll cs).length ≤ readBufferSize :=
    hread ▸ (bwrAnswer abi sys u).read_le
  have hsent : (handleBinderWriteRead codes abi bcodes vm sys junk block u).sent = _ :=
    handleBinderWriteRead_success hpatched hmalloc hdriver
      (hread ▸ marshalOutcome_of_segmentsFit hR hfit)
  have hworker : (workerHandle codes abi bcodes vm sys junk block u).sent =
      (handleBinderWriteRead codes abi bcodes vm sys junk block u).sent := by
    rw [workerHandle, hk]
    rfl
  have hmem := List.mem_singleton_self (bwrDowncall codes abi ⟨(bwrPatches abi u).mem, u.ptr⟩
    (bwrAnswer abi sys u) 0
    (marshalerMarshal bcodes vm (.fresh junk.buffer) (bwrAnswer abi sys u).read).2
    (marshalerMarshal bcodes vm (.fresh junk.buffer) (bwrAnswer abi sys u).read).2.writePtr)
  rw [← hsent] at hmem
  obtain ⟨hopcode, hfits⟩ := handleBinderWriteRead_fits hsys hmem
  have hreceived := (handleBinderWriteRead_counted hpacked hmem).received hopcode hfits raw
  refine ⟨_, by rw [HandlerRun.sentBytes, hworker, hsent, List.map_singleton], ?_⟩
  rw [receiveReply, hreceived]
  dsimp only [bwrDowncall, bwrOut]
  rw [if_neg (lt_irrefl 0), hread, unmarshal_commands hR hfit hends]
  rfl

end Reply

theorem binderReply_received_threeBytes :
    ∃ bytes, (workerHandle sampleCodes sampleLayout driverCodes zeroVm
        (quietKernel (driverCodes.stream.encodeAll [threeBytes]) (by decide)) cleanStack 28
          binderUpcall).sentBytes (fun _ => 0xff) = [bytes] ∧
      receiveReply sampleCodes driverCodes zeroVm.start bytes =
        some (0x2000, driverCodes.stream.encodeAll [threeBytes], [(0x10, [0, 0, 0])]) := by
  have hrequests : requestsOf [threeBytes] = [⟨0x40000010, 3⟩] := by decide +kernel
  have hsegments : segmentsOf zeroVm (requestsOf [threeBytes]) = [(0x10, [0, 0, 0])] := by
    rw [hrequests, segmentsOf, List.map_singleton, BinderVm.slice_eq_read _ (by decide)]
    rfl
  have hhandle : (bwrPatches sampleLayout binderUpcall).mem.word
      (binderUpcall.ptr + handleOffset) = 0x2000 := by decide +kernel
  have hk : sampleCodes.decode binderUpcall.opcode = some .binderWriteRead := by decide +kernel
  have hpatched : ∀ a ∈ (bwrPatches sampleLayout binderUpcall).patched,
      (Touch.mk a 4).Inside binderUpcall.ptr 28 := by decide +kernel
  have hfit : SegmentsFit zeroVm (driverCodes.stream.encodeAll [threeBytes]).length
      (requestsOf [threeBytes]) := by
    rw [hrequests]
    exact ⟨by decide, by decide, by decide +kernel⟩
  have hends : ∀ r ∈ requestsOf [threeBytes], r.ptr - zeroVm.start + r.length ≤ binderVmSize := by
    rw [hrequests]
    decide
  rw [← hhandle, ← hsegments]
  exact binderReply_received sampleLayout_packed (quietKernel_cTyped _ _) hk hpatched rfl
    (le_refl 0) rfl hfit hends _

end ExpressOS

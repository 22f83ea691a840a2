import ExpressOS.Binder.Safety
import ExpressOS.Venus.Dispatcher
import ExpressOS.Venus.Handlers

/-!
# One matching reply for each upcall
-/

namespace ExpressOS
open Systems

variable (codes : VenusCodes) (abi : VenusLayout) (bcodes : BinderCodes) (vm : BinderVm)
variable (sys : Kernel) (junk : Leftover) (block : ℕ) (u : Upcall)

/-- One downcall is sent, under the opcode of the upcall, and it carries the handle of the upcall
when the upcall is routed by its handle. -/
def MatchingReply (k : VenusCall) (run : HandlerRun) : Prop :=
  ∃ d, run.sent = [d] ∧ d.hdr.opcode = u.opcode ∧ (k.isAsync → d.body.handle = some u.handle)

/-- `handle_poll` answers when it gets a block for the downcall and the size of the downcall does
not wrap. -/
def PollReplies : Prop :=
  sys.malloc = true ∧
    hdrSize + handleSize + abi.pollOutSize + u.field abi.pollNfds * pollfdSize % 2 ^ 32 < 2 ^ 32

def bwrPatches : Patching :=
  patchPayloadPtr u.mem (u.ptr + abi.bwrPayload) (u.field abi.patchTableEntryNum)
    (u.field abi.patchTableOffset)

def bwrAnswer : BinderReply :=
  sys.binderWriteRead
    ((bwrPatches abi u).mem.read (u.ptr + abi.bwrPayload) (u.field abi.bwrWriteSize))

/-- `handle_binder_write_read` answers with the right handle when every patched word lies in the
block, the patches leave the handle as it was, there is a block for the downcall, and the read
buffer does not make the marshaler overrun its own. -/
def BwrReplies : Prop :=
  (∀ a ∈ (bwrPatches abi u).patched, (Touch.mk a 4).Inside u.ptr block) ∧
    (bwrPatches abi u).mem.word (u.ptr + handleOffset) = u.handle ∧ sys.malloc = true ∧
    (0 ≤ (bwrAnswer abi sys u).ret → ¬ FrameOverrun bcodes vm (bwrAnswer abi sys u).read)

def Replies : VenusCall → Prop
  | .close | .pipe | .socket | .alienMmap2 | .futexWait => True
  | .futexWake => False
  | .poll => PollReplies abi sys u
  | .binderWriteRead => BwrReplies abi bcodes vm sys block u

def pollfdTouch : Touch :=
  u.touch abi.pollFds (u.field abi.pollNfds * pollfdSize % 2 ^ 32)

/-- The paths through `handle_poll`: no block, a block that is too short for the copy, or an
answer. -/
lemma handlePoll_cases :
    let run := handlePoll codes abi sys u
    (sys.malloc ≠ true ∧ ∃ calls,
        run = ⟨u.touchFields [abi.pollNfds], calls, [], .ret (-ENOMEM)⟩) ∨
      (sys.malloc = true ∧ ¬ PollReplies abi sys u ∧ ∃ calls,
        run = ⟨u.touchFields [abi.pollNfds] ++ [pollfdTouch abi u], calls, [], .fault⟩) ∨
      (PollReplies abi sys u ∧ ∃ calls d, d.hdr.opcode = codes.code .poll ∧
        d.body.handle = some u.handle ∧
        run = .reply sys (u.touchFields [abi.pollNfds] ++ [pollfdTouch abi u] ++
          u.touchFields [abi.pollTimeout, handleOffset, abi.pollBuffer]) calls d) := by
  have hout := abi.pollOutSize_lt
  have hfds : u.field abi.pollNfds * pollfdSize % 2 ^ 32 < 2 ^ 32 := Nat.mod_lt _ (by norm_num)
  -- the size of the downcall falls short of its contents exactly when it wraps
  have hwrap : (hdrSize + (handleSize + u.field abi.pollNfds * pollfdSize % 2 ^ 32 +
        abi.pollOutSize) % 2 ^ 32) % 2 ^ 32 <
        hdrSize + handleSize + abi.pollOutSize + u.field abi.pollNfds * pollfdSize % 2 ^ 32 ↔
      ¬ hdrSize + handleSize + abi.pollOutSize + u.field abi.pollNfds * pollfdSize % 2 ^ 32 <
        2 ^ 32 := by
    generalize u.field abi.pollNfds * pollfdSize % 2 ^ 32 = fds at *
    unfold hdrSize handleSize
    omega
  dsimp only
  unfold handlePoll PollReplies
  dsimp only
  by_cases hblock : sys.malloc = true
  · rw [if_pos hblock]
    split_ifs with hshort
    · exact .inr (.inl ⟨hblock, fun h => hwrap.mp hshort h.2, _, rfl⟩)
    · refine .inr (.inr ⟨⟨hblock, ?_⟩, _, _, rfl, rfl, rfl⟩)
      by_contra hfit
      exact hshort (hwrap.mpr hfit)
  · rw [if_neg hblock]
    exact .inl ⟨hblock, _, rfl⟩

/-- What the patches of an upcall reach, with the fields that describe them. -/
def patchTouches : List Touch :=
  u.touchFields [abi.bwrWriteSize, abi.patchTableEntryNum, abi.patchTableOffset] ++
    ((bwrPatches abi u).entries ++ (bwrPatches abi u).patched).map (fun a => ⟨a, 4⟩)

/-- The write buffer as the driver reads it. -/
def writeBufferTouch : Touch :=
  u.touch abi.bwrPayload (u.field abi.bwrWriteSize)

/-- The `BINDER_WRITE_READ` ioctl. -/
def bwrCall : HandlerCall :=
  .binderWriteRead
    ((bwrPatches abi u).mem.read (u.ptr + abi.bwrPayload) (u.field abi.bwrWriteSize))
    (bwrAnswer abi sys u).ret

/-- The paths through the handler of `BINDER_WRITE_READ`: a patch leaves the block, the ioctl
fails, the marshaler overruns its buffer, or it returns. -/
lemma handleBinderWriteRead_cases :
    let run := handleBinderWriteRead codes abi bcodes vm sys junk block u
    let out := marshalerMarshal bcodes vm (.fresh junk.buffer) (bwrAnswer abi sys u).read
    let v : Upcall := ⟨(bwrPatches abi u).mem, u.ptr⟩
    let touched := patchTouches abi u ++ [writeBufferTouch abi u]
    let calls := [bwrCall abi sys u]
    (¬ (∀ a ∈ (bwrPatches abi u).patched, (Touch.mk a 4).Inside u.ptr block) ∧
        run = ⟨patchTouches abi u, [], [], .fault⟩) ∨
      (∀ a ∈ (bwrPatches abi u).patched, (Touch.mk a 4).Inside u.ptr block) ∧
        ((bwrAnswer abi sys u).ret < 0 ∧ run =
            binderOut codes abi sys v (bwrAnswer abi sys u) (bwrAnswer abi sys u).ret
              (.fresh junk.buffer) 0 touched calls ∨
          0 ≤ (bwrAnswer abi sys u).ret ∧ out.1 = .fault ∧ run = ⟨touched, calls, [], .fault⟩ ∨
          0 ≤ (bwrAnswer abi sys u).ret ∧ ∃ ret, out.1 = .ret ret ∧ run =
            binderOut codes abi sys v (bwrAnswer abi sys u) ret out.2
              (if ret < 0 then 0 else out.2.writePtr) touched calls) := by
  dsimp only
  unfold handleBinderWriteRead
  dsimp only
  by_cases hin : ∀ a ∈ (bwrPatches abi u).patched, (Touch.mk a 4).Inside u.ptr block
  · rw [if_pos (by exact hin)]
    refine .inr ⟨hin, ?_⟩
    split_ifs with hret
    · exact .inl ⟨hret, rfl⟩
    · have hpos : 0 ≤ (bwrAnswer abi sys u).ret := not_lt.mp hret
      split
      · rename_i hout
        exact .inr (.inl ⟨hpos, congrArg Prod.fst hout, rfl⟩)
      · rename_i ret m hout
        refine .inr (.inr ⟨hpos, ret, congrArg Prod.fst hout, ?_⟩)
        rw [show m = _ from (congrArg Prod.snd hout).symm]
        rfl
  · rw [if_neg (by exact hin)]
    exact .inl ⟨hin, rfl⟩

lemma binderOut_sent (v : Upcall) (bwr : BinderReply) (ret : ℤ) (m : IpcMarshaler) (size : ℕ)
    (touched : List Touch) (calls : List HandlerCall) :
    (binderOut codes abi sys v bwr ret m size touched calls).sent =
      if sys.malloc then [bwrDowncall codes abi v bwr ret m size] else [] := by
  unfold binderOut
  split <;> rfl

section Parts

variable {codes abi bcodes vm sys junk block u}

lemma not_matchingReply_of_sent_nil {k : VenusCall} {run : HandlerRun} (h : run.sent = []) :
    ¬ MatchingReply u k run := by
  rintro ⟨d, hd, -⟩
  rw [h] at hd
  cases hd

lemma handlePoll_replies_iff (hk : codes.code .poll = u.opcode) :
    MatchingReply u .poll (handlePoll codes abi sys u) ↔ PollReplies abi sys u := by
  rcases handlePoll_cases codes abi sys u with ⟨hblock, _, hrun⟩ |
    ⟨-, hno, _, hrun⟩ | ⟨hyes, _, d, hopcode, hhandle, hrun⟩
  · rw [hrun]
    exact iff_of_false (not_matchingReply_of_sent_nil rfl) (fun h => hblock h.1)
  · rw [hrun]
    exact iff_of_false (not_matchingReply_of_sent_nil rfl) hno
  · rw [hrun]
    exact iff_of_true ⟨d, rfl, hopcode.trans hk, fun _ => hhandle⟩ hyes

lemma binderOut_replies_iff (hk : codes.code .binderWriteRead = u.opcode) (v : Upcall)
    (bwr : BinderReply) (ret : ℤ) (m : IpcMarshaler) (size : ℕ) (touched : List Touch)
    (calls : List HandlerCall) :
    MatchingReply u .binderWriteRead (binderOut codes abi sys v bwr ret m size touched calls) ↔
      v.handle = u.handle ∧ sys.malloc = true := by
  have hsent := binderOut_sent codes abi sys v bwr ret m size touched calls
  by_cases hblock : sys.malloc = true
  · rw [if_pos hblock] at hsent
    constructor
    · rintro ⟨d, hd, -, hsame⟩
      rw [hsent, List.singleton_inj] at hd
      rw [← hd] at hsame
      exact ⟨Option.some.inj (hsame rfl), hblock⟩
    · rintro ⟨hsame, -⟩
      exact ⟨_, hsent, hk, fun _ => congrArg some hsame⟩
  · rw [if_neg hblock] at hsent
    exact iff_of_false (not_matchingReply_of_sent_nil hsent) (fun h => hblock h.2)

lemma handleBinderWriteRead_replies_iff (hk : codes.code .binderWriteRead = u.opcode) :
    MatchingReply u .binderWriteRead
        (handleBinderWriteRead codes abi bcodes vm sys junk block u) ↔
      BwrReplies abi bcodes vm sys block u := by
  have hR := (bwrAnswer abi sys u).read_le
  have hfault : (marshalerMarshal bcodes vm (.fresh junk.buffer) (bwrAnswer abi sys u).read).1 =
      .fault ↔ FrameOverrun bcodes vm (bwrAnswer abi sys u).read := by
    rw [(marshalerMarshal_spec bcodes vm junk.buffer hR).1,
      marshalOutcome_eq_fault_iff bcodes vm hR]
  unfold BwrReplies
  rcases handleBinderWriteRead_cases codes abi bcodes vm sys junk block u with ⟨hout, hrun⟩ |
    ⟨hin, ⟨hneg, hrun⟩ | ⟨hpos, hover, hrun⟩ | ⟨hpos, ret, hret, hrun⟩⟩
  · rw [hrun]
    exact iff_of_false (not_matchingReply_of_sent_nil rfl) (fun h => hout h.1)
  · rw [hrun, binderOut_replies_iff hk, and_iff_right hin]
    exact and_congr_right (fun _ => (and_iff_left (fun hpos => absurd hneg (not_lt.mpr hpos))).symm)
  · rw [hrun]
    refine iff_of_false (not_matchingReply_of_sent_nil rfl) ?_
    rintro ⟨-, -, -, hno⟩
    exact hno hpos (hfault.mp hover)
  · have hno : ¬ FrameOverrun bcodes vm (bwrAnswer abi sys u).read := by
      rw [← hfault, hret]
      simp
    rw [hrun, binderOut_replies_iff hk, and_iff_right hin]
    exact and_congr_right (fun _ => (and_iff_left (fun _ => hno)).symm)

end Parts

/-- An upcall is answered by exactly one downcall with its own opcode and handle, except in the
kinds that `Replies` leaves out: every `FUTEX_WAKE`, a `POLL` without a block or with a downcall
size that wraps, and a `BINDER_WRITE_READ` whose patches leave its block or change its handle, whose
downcall gets no block, or whose read buffer makes the marshaler overrun. -/
theorem workerHandle_replies_iff {k : VenusCall} (hk : codes.decode u.opcode = some k) :
    MatchingReply u k (workerHandle codes abi bcodes vm sys junk block u) ↔
      Replies abi bcodes vm sys block u k := by
  have hcode : codes.code k = u.opcode := codes.code_of_decode hk
  have hsent : MatchingReply u k (workerHandle codes abi bcodes vm sys junk block u) ↔
      MatchingReply u k (handleCall codes abi bcodes vm sys junk block u k) := by
    rw [workerHandle, hk]
    rfl
  rw [hsent]
  cases k with
  | close | pipe | alienMmap2 => exact iff_of_true ⟨_, rfl, hcode, fun h => by cases h⟩ trivial
  | socket | futexWait => exact iff_of_true ⟨_, rfl, hcode, fun _ => rfl⟩ trivial
  | poll => exact handlePoll_replies_iff hcode
  | binderWriteRead => exact handleBinderWriteRead_replies_iff hcode
  | futexWake =>
    refine iff_of_false ?_ not_false
    rintro ⟨d, hd, hopcode, -⟩
    obtain rfl := List.singleton_inj.mp hd
    rw [← hcode] at hopcode
    cases codes.code_injective hopcode

/-- Some numbering of the calls, for concrete upcalls. -/
def sampleCodes : VenusCodes where
  all := [.close, .pipe, .socket, .poll, .binderWriteRead, .alienMmap2, .futexWait, .futexWake]
  mem_all := by intro k; cases k <;> simp
  code
    | .close => 0
    | .pipe => 1
    | .socket => 2
    | .poll => 3
    | .binderWriteRead => 4
    | .alienMmap2 => 5
    | .futexWait => 6
    | .futexWake => 7
  code_injective := by intro j k h; cases j <;> cases k <;> simp_all
  callCount := 9
  code_lt := by intro k; cases k <;> decide
  callCount_le := by decide

/-- Fields in the order in which the handlers name them, without padding. -/
def sampleLayout : VenusLayout where
  closeFd := 8
  socketDomain := 12
  socketType := 16
  socketProtocol := 20
  pollNfds := 12
  pollTimeout := 16
  pollBuffer := 20
  pollFds := 24
  bwrBuffer := 12
  bwrWriteSize := 16
  patchTableEntryNum := 20
  patchTableOffset := 24
  bwrPayload := 28
  mmapAddr := 8
  mmapLength := 12
  mmapProt := 16
  mmapFlags := 20
  mmapFd := 24
  mmapPgoffset := 28
  waitOp := 12
  waitTs := 16
  waitUaddr := 24
  waitVal := 28
  waitBitset := 32
  wakeUaddr := 12
  wakeOp := 16
  wakeBitset := 20
  pipeOutSize := 12
  pollOutSize := 8
  bwrOutSize := 24
  pollOutSize_lt := by decide
  bwrOutSize_lt := by decide

/-- Every call succeeds with 0, and the driver hands back the read buffer `R`. -/
def quietKernel (R : List UInt8) (hR : R.length ≤ readBufferSize) : Kernel where
  close _ := ⟨0, 0⟩
  pipe := (⟨0, 0⟩, 3, 4)
  socket _ _ _ := ⟨0, 0⟩
  poll fds _ _ := (⟨0, 0⟩, fds)
  mmap _ _ _ _ _ _ := (0, 0)
  futex _ _ _ _ _ := 0
  binderWriteRead _ := ⟨0, 0, R, hR⟩
  sendDowncall _ := 0
  malloc := true

def cleanStack : Leftover := ⟨(0, 0), fun _ => 0⟩

/-- A `POLL` of the descriptors 5 and 6 for the thread with handle `0x2000`. -/
def twoPollfds : Upcall :=
  ⟨memoryOf [3, 0, 0, 0, 32, 0, 0, 0, 0, 0x20, 0, 0, 2, 0, 0, 0, 100, 0, 0, 0, 0, 0x30, 0, 0,
    5, 0, 0, 0, 1, 0, 0, 0, 6, 0, 0, 0, 4, 0, 0, 0], 4096⟩

theorem poll_replied :
    sampleCodes.decode twoPollfds.opcode = some .poll ∧
      MatchingReply twoPollfds .poll
        (workerHandle sampleCodes sampleLayout driverCodes zeroVm (quietKernel [] (by decide))
          cleanStack 40 twoPollfds) := by
  have hk : sampleCodes.decode twoPollfds.opcode = some .poll := by decide +kernel
  have hfds : twoPollfds.field sampleLayout.pollNfds = 2 := by decide +kernel
  refine ⟨hk, (workerHandle_replies_iff _ _ _ _ _ _ _ _ hk).mpr ⟨rfl, ?_⟩⟩
  rw [hfds]
  decide

/-- A `FUTEX_WAKE` of the thread with handle `0x2000`. -/
def wakeUpcall : Upcall :=
  ⟨memoryOf [7, 0, 0, 0, 16, 0, 0, 0, 0, 0x20, 0, 0, 0, 0x10, 0, 0, 1, 0, 0, 0, 0, 0, 0, 0], 4096⟩

/-- `handle_futex_wake` answers under the opcode of `FUTEX_WAIT`. -/
theorem futex_wake_reply_mismatched :
    sampleCodes.decode wakeUpcall.opcode = some .futexWake ∧
      ¬ MatchingReply wakeUpcall .futexWake
        (workerHandle sampleCodes sampleLayout driverCodes zeroVm (quietKernel [] (by decide))
          cleanStack 24 wakeUpcall) := by
  refine ⟨by decide +kernel, ?_⟩
  have hsent : (workerHandle sampleCodes sampleLayout driverCodes zeroVm
      (quietKernel [] (by decide)) cleanStack 24 wakeUpcall).sent =
        [⟨⟨6, 8⟩, .asyncRet 0x2000 0⟩] := by decide +kernel
  have hopcode : wakeUpcall.opcode = 7 := by decide +kernel
  rintro ⟨d, hd, hsame, -⟩
  rw [hsent, List.singleton_inj] at hd
  rw [← hd, hopcode] at hsame
  cases hsame

end ExpressOS

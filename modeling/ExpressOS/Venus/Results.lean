import ExpressOS.Binder.Causes
import ExpressOS.Venus.BinderReply
import ExpressOS.Venus.Sizes

/-!
# What the replies say about failures

The calls of the C library return -1 and set `errno`, `mmap` returns `MAP_FAILED`, `sys_futex`
returns the negative error itself, and the marshaler has values of its own. This file says which
of them arrive in the result field of a downcall as the negative error number of their cause.
-/

namespace ExpressOS
open Systems

variable (abi : VenusLayout) (bcodes : BinderCodes) (vm : BinderVm) (sys : Kernel) (errno : ℤ)
variable (u : Upcall)

/-- A failure, for which the C library returns -1, is reported as the negative `errno`, and a
success as the value returned. -/
def Reported (r : SysResult) (result : ℤ) : Prop :=
  (r.ret = -1 → result = -r.errno) ∧ (0 ≤ r.ret → result = r.ret)

/-- What is asked of the result of `BINDER_WRITE_READ`; `errno` is that of the ioctl. -/
def BwrReported (result : ℤ) : Prop :=
  let bwr := bwrAnswer abi sys u
  (bwr.ret = -1 → result = -errno) ∧
    (0 ≤ bwr.ret →
      match marshalCause bcodes vm bwr.read with
      | none => result = bwr.ret
      | some c => ∀ e, c.errno = some e → result = -e)

def ResultCorrect (result : ℤ) : VenusCall → Prop
  | .close => Reported (sys.close (u.field abi.closeFd)) result
  | .pipe => Reported sys.pipe.1 result
  | .socket => Reported (sys.socket (u.field abi.socketDomain) (u.field abi.socketType)
      (u.field abi.socketProtocol)) result
  | .poll => Reported (pollCall abi sys u).1 result
  | .binderWriteRead => BwrReported abi bcodes vm sys errno u result
  | .alienMmap2 =>
    ((mmapCall abi sys u).1 = mapFailed → result = -(mmapCall abi sys u).2) ∧
      ((mmapCall abi sys u).1 ≠ mapFailed → result = toSigned (mmapCall abi sys u).1)
  | .futexWait => result = sys.futex (u.field abi.waitUaddr) (u.field abi.waitOp)
      (u.field abi.waitVal) (if u.field abi.waitOp &&& flagsHasTimeout ≠ 0 then
        some (u.mem.read (u.ptr + abi.waitTs) 8) else none) (u.field abi.waitBitset)
  | .futexWake => result = sys.futex (u.field abi.wakeUaddr) (u.field abi.wakeOp) 0 none
      (u.field abi.wakeBitset)

/-- When the result field is right: always, but for a `BINDER_WRITE_READ` whose ioctl fails with
another error than `EPERM`, whose ioctl succeeds with another value than 0, or whose read buffer
runs out of room behind the commands. -/
def ResultKept : VenusCall → Prop
  | .binderWriteRead =>
    let bwr := bwrAnswer abi sys u
    (bwr.ret = -1 → errno = 1) ∧
      (0 ≤ bwr.ret → (marshalCause bcodes vm bwr.read = none → bwr.ret = 0) ∧
        marshalCause bcodes vm bwr.read ≠ some .bufferFull)
  | _ => True

section Results

variable {codes : VenusCodes} {abi bcodes vm sys errno u} {junk : Leftover} {block : ℕ}

lemma reported_value (r : SysResult) : Reported r r.value := by
  unfold Reported SysResult.value
  constructor
  · intro hfail
    rw [if_pos (by omega)]
  · intro hpos
    rw [if_neg (by omega)]

lemma handlePoll_result {d : Downcall} (hd : d ∈ (handlePoll codes abi sys u).sent) :
    d.body.result = (pollCall abi sys u).1.value := by
  rw [handlePoll_eq] at hd
  dsimp only at hd
  split_ifs at hd
  · cases hd
  · rw [List.mem_singleton.mp hd]
    rfl
  · cases hd

lemma handleBinderWriteRead_result {d : Downcall}
    (hd : d ∈ (handleBinderWriteRead codes abi bcodes vm sys junk block u).sent) :
    (bwrAnswer abi sys u).ret < 0 ∧ d.body.result = (bwrAnswer abi sys u).ret ∨
      0 ≤ (bwrAnswer abi sys u).ret ∧
        marshalOutcome bcodes vm (bwrAnswer abi sys u).read = .ret d.body.result := by
  have hresult : ∀ {v bwr ret m size touched calls},
      d ∈ (binderOut codes abi sys v bwr ret m size touched calls).sent → d.body.result = ret := by
    intro v bwr ret m size touched calls hmem
    rw [binderOut_sent] at hmem
    split_ifs at hmem
    · rw [List.mem_singleton.mp hmem]
      rfl
    · cases hmem
  have hspec := (marshalerMarshal_spec bcodes vm junk.buffer (bwrAnswer abi sys u).read_le).1
  rcases handleBinderWriteRead_cases codes abi bcodes vm sys junk block u with ⟨-, hrun⟩ |
    ⟨-, ⟨hneg, hrun⟩ | ⟨-, -, hrun⟩ | ⟨hpos, ret, hret, hrun⟩⟩
  · rw [hrun] at hd
    cases hd
  · rw [hrun] at hd
    exact .inl ⟨hneg, hresult hd⟩
  · rw [hrun] at hd
    cases hd
  · rw [hrun] at hd
    rw [hresult hd, ← hspec, hret]
    exact .inr ⟨hpos, rfl⟩

lemma bwr_result_iff {d : Downcall}
    (hioctl : (bwrAnswer abi sys u).ret = -1 ∨ 0 ≤ (bwrAnswer abi sys u).ret)
    (hd : d ∈ (handleBinderWriteRead codes abi bcodes vm sys junk block u).sent) :
    BwrReported abi bcodes vm sys errno u d.body.result ↔
      ResultKept abi bcodes vm sys errno u .binderWriteRead := by
  unfold BwrReported ResultKept
  dsimp only
  rcases handleBinderWriteRead_result hd with ⟨hneg, hresult⟩ | ⟨hpos, hout⟩
  · have hfail : (bwrAnswer abi sys u).ret = -1 := hioctl.resolve_right (not_le.mpr hneg)
    rw [hresult, hfail]
    constructor
    · rintro ⟨hneg', -⟩
      exact ⟨fun _ => by have h := hneg' rfl; omega, fun h => absurd h (by decide)⟩
    · rintro ⟨herrno, -⟩
      exact ⟨fun _ => by rw [herrno rfl], fun h => absurd h (by decide)⟩
  · have hsucc : (bwrAnswer abi sys u).ret ≠ -1 := by omega
    simp only [hsucc, false_imp_iff, true_and, hpos, true_imp_iff]
    rcases marshalOutcome_cause bcodes vm (bwrAnswer abi sys u).read with ⟨c, hc, hret⟩ |
      ⟨hnone, hret | hfault⟩
    · rw [hout, Outcome.ret.injEq] at hret
      rw [hc, hret]
      cases c <;> simp [MarshalCause.errno, MarshalCause.code, ENOMEM]
    · rw [hout, Outcome.ret.injEq] at hret
      rw [hnone, hret]
      simp [eq_comm]
    · rw [hout] at hfault
      cases hfault

end Results

/-- Every downcall that is sent has the right result field, except in the cases that `ResultKept`
leaves out. -/
theorem result_correct_iff {codes : VenusCodes} {abi : VenusLayout} {bcodes : BinderCodes}
    {vm : BinderVm} {sys : Kernel} {errno : ℤ} {junk : Leftover} {block : ℕ} {u : Upcall}
    {k : VenusCall} (hk : codes.decode u.opcode = some k)
    (hioctl : (bwrAnswer abi sys u).ret = -1 ∨ 0 ≤ (bwrAnswer abi sys u).ret) {d : Downcall}
    (hd : d ∈ (workerHandle codes abi bcodes vm sys junk block u).sent) :
    ResultCorrect abi bcodes vm sys errno u d.body.result k ↔
      ResultKept abi bcodes vm sys errno u k := by
  have hsent : d ∈ (handleCall codes abi bcodes vm sys junk block u k).sent := by
    rw [workerHandle, hk] at hd
    exact hd
  cases k with
  | close =>
    rw [List.mem_singleton.mp hsent]
    exact iff_of_true (reported_value _) trivial
  | pipe =>
    rw [List.mem_singleton.mp hsent]
    exact iff_of_true (reported_value _) trivial
  | socket =>
    rw [List.mem_singleton.mp hsent]
    exact iff_of_true (reported_value _) trivial
  | poll =>
    apply iff_of_true _ trivial
    rw [handlePoll_result hsent]
    exact reported_value _
  | binderWriteRead => exact bwr_result_iff hioctl hsent
  | alienMmap2 =>
    rw [List.mem_singleton.mp hsent]
    exact iff_of_true ⟨fun h => if_pos h, fun h => if_neg h⟩ trivial
  | futexWait | futexWake =>
    rw [List.mem_singleton.mp hsent]
    exact iff_of_true rfl trivial

def EINTR : ℤ := 4

/-- `poll` is interrupted, and nothing is read from the driver. -/
def interruptedPoll : Kernel :=
  { quietKernel [] (Nat.zero_le readBufferSize) with poll := fun fds _ _ => (⟨-1, EINTR⟩, fds) }

/-- The `POLL` fails with `EINTR`, and the `BINDER_WRITE_READ` reads three bytes of data. -/
theorem poll_and_reply_results :
    (∃ d ∈ (workerHandle sampleCodes sampleLayout driverCodes zeroVm interruptedPoll cleanStack 40
        twoPollfds).sent, d.body.result = -EINTR ∧
      ResultCorrect sampleLayout driverCodes zeroVm interruptedPoll 0 twoPollfds d.body.result
        .poll) ∧
    ∃ d ∈ (workerHandle sampleCodes sampleLayout driverCodes zeroVm
        (quietKernel callStream (by decide)) cleanStack 28 binderUpcall).sent,
      d.body.result = 0 ∧
        ResultCorrect sampleLayout driverCodes zeroVm (quietKernel callStream (by decide)) 0
          binderUpcall d.body.result .binderWriteRead := by
  constructor
  · have hsent : (⟨⟨3, 28⟩, .poll 0x2000 0x3000 (-EINTR)
        [5, 0, 0, 0, 1, 0, 0, 0, 6, 0, 0, 0, 4, 0, 0, 0]⟩ : Downcall) ∈
        (workerHandle sampleCodes sampleLayout driverCodes zeroVm interruptedPoll cleanStack 40
          twoPollfds).sent := by
      decide +kernel
    exact ⟨_, hsent, rfl, (result_correct_iff (by decide +kernel) (.inr le_rfl) hsent).mpr trivial⟩
  · have hsent : (⟨⟨4, 99⟩, .bwr 0x2000 callOut⟩ : Downcall) ∈
        (workerHandle sampleCodes sampleLayout driverCodes zeroVm
          (quietKernel callStream (by decide)) cleanStack 28 binderUpcall).sent := by
      decide +kernel
    refine ⟨_, hsent, rfl, (result_correct_iff (by decide +kernel) (.inr le_rfl) hsent).mpr ?_⟩
    refine ⟨fun h => absurd h (by decide), fun _ => ⟨fun _ => rfl, ?_⟩⟩
    decide +kernel

/-- The ioctl is interrupted: it returns -1, and `errno` is `EINTR`. -/
def interruptedKernel : Kernel :=
  { quietKernel [] (Nat.zero_le readBufferSize) with
    binderWriteRead := fun _ => ⟨-1, 0, [], Nat.zero_le readBufferSize⟩ }

/-- An ioctl that fails with `EINTR` is reported as -1, and so is a read buffer whose segment
does not fit into the output buffer. -/
theorem bwr_failures_misreported :
    (∃ d ∈ (workerHandle sampleCodes sampleLayout driverCodes zeroVm interruptedKernel cleanStack
        28 binderUpcall).sent, d.body.result = -1 ∧
      ¬ ResultCorrect sampleLayout driverCodes zeroVm interruptedKernel EINTR binderUpcall
        d.body.result .binderWriteRead) ∧
    ∃ d ∈ (workerHandle sampleCodes sampleLayout driverCodes zeroVm
        (quietKernel (replyStream 0x5000 0x40000010) (by decide)) cleanStack 28
          binderUpcall).sent, d.body.result = -1 ∧
      ¬ ResultCorrect sampleLayout driverCodes zeroVm
        (quietKernel (replyStream 0x5000 0x40000010) (by decide)) 0 binderUpcall d.body.result
          .binderWriteRead := by
  constructor
  · refine ⟨⟨⟨4, 28⟩, .bwr 0x2000 ⟨0x20000, -1, 0, 0, 0, 0, []⟩⟩, by decide +kernel, rfl, ?_⟩
    rintro ⟨hfail, -⟩
    exact absurd (hfail rfl) (by decide)
  · refine ⟨⟨⟨4, 28⟩, .bwr 0x2000 ⟨0x20000, -1, 0, 44, 0, 1, []⟩⟩, by decide +kernel, rfl, ?_⟩
    have hcause : marshalCause driverCodes zeroVm (bwrAnswer sampleLayout
        (quietKernel (replyStream 0x5000 0x40000010) (by decide)) binderUpcall).read =
          some .bufferFull := by decide +kernel
    rintro ⟨-, hsucc⟩
    have hresult := hsucc le_rfl
    rw [hcause] at hresult
    exact absurd (hresult ENOMEM rfl) (by decide)

end ExpressOS

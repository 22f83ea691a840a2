import ExpressOS.Venus.Confinement
import ExpressOS.Venus.Glue

/-!
# What lies around an upcall

A handler is given a copy of its upcall on the heap. When the payload holds what its opcode calls
for, the handler sends the same whatever lies around the copy.
-/

namespace ExpressOS
open Systems

/-- `mem'` holds the same copy of the upcall. -/
def SameCopy (block : ℕ) (u : Upcall) (mem' : Memory) : Prop :=
  ∀ x, u.ptr ≤ x → x < u.ptr + block → mem' x = u.mem x

/-- The payload of `u` holds the handle where it is looked at, and the fields and arrays of its
call. -/
structure PayloadInside (abi : VenusLayout) (block : ℕ) (u : Upcall) (k : VenusCall) : Prop where
  handle : k.isAsync → handleOffset + 4 ≤ block
  fields : ∀ off ∈ abi.fixedFields k, off + 4 ≤ block
  arrays : ArraysInside abi block u k

section Reads

variable {abi : VenusLayout} {block : ℕ} {u : Upcall} {mem mem' : Memory}

lemma Touch.Inside.read_eq {a len base size : ℕ} (hin : (Touch.mk a len).Inside base size)
    (hsame : ∀ x, base ≤ x → x < base + size → mem' x = mem x) :
    mem'.read a len = mem.read a len := by
  rcases hin with hnone | ⟨hlow, hhigh⟩
  · obtain rfl : len = 0 := hnone
    rfl
  · dsimp only at hlow hhigh
    apply Memory.read_congr
    intro x hx hx'
    exact hsame x (by omega) (by omega)

lemma Touch.Inside.word_eq {a base size : ℕ} (hin : (Touch.mk a 4).Inside base size)
    (hsame : ∀ x, base ≤ x → x < base + size → mem' x = mem x) : mem'.word a = mem.word a := by
  unfold Memory.word
  rw [hin.read_eq hsame]

lemma SameCopy.field (h : SameCopy block u mem') {off : ℕ} (hoff : off + 4 ≤ block) :
    (Upcall.mk mem' u.ptr).field off = u.field off :=
  Touch.Inside.word_eq (.inr ⟨by dsimp only; omega, by dsimp only; omega⟩) h

lemma patchRun_congr {buf table n base size : ℕ}
    (hsame : ∀ x, base ≤ x → x < base + size → mem' x = mem x)
    (hin : ∀ i < n, PatchInside mem buf table i base size) :
    (patchRun mem' buf table n).patched = (patchRun mem buf table n).patched ∧
      ∀ x, base ≤ x → x < base + size →
        (patchRun mem' buf table n).mem x = (patchRun mem buf table n).mem x := by
  induction n with
  | zero => exact ⟨rfl, hsame⟩
  | succ n ih =>
    obtain ⟨hpatched, hmem⟩ := ih (fun i hi => hin i (by omega))
    obtain ⟨hentry, hword⟩ := hin n (by omega)
    have hvalue := hentry.word_eq hmem
    have hold := hword.word_eq hmem
    rw [patchRun_succ, patchRun_succ, patchTurn, patchTurn]
    dsimp only
    rw [hvalue, hold, hpatched]
    refine ⟨rfl, fun x hx hx' => ?_⟩
    exact Memory.setWord_congr (fun _ => hmem x hx hx')

end Reads

section Handlers

variable {codes : VenusCodes} {abi : VenusLayout} {bcodes : BinderCodes} {vm : BinderVm}
variable {sys : Kernel} {junk : Leftover} {block : ℕ} {u : Upcall} {mem' : Memory}

lemma handleBinderWriteRead_surroundings (hin : PayloadInside abi block u .binderWriteRead)
    (h : SameCopy block u mem') :
    (handleBinderWriteRead codes abi bcodes vm sys junk block ⟨mem', u.ptr⟩).sent =
      (handleBinderWriteRead codes abi bcodes vm sys junk block u).sent := by
  have hfields := hin.fields
  simp only [VenusLayout.fixedFields, List.forall_mem_cons] at hfields
  obtain ⟨hsize, hnum, hoffset, hbuffer, -⟩ := hfields
  obtain ⟨hwrite, hpatches⟩ := hin.arrays
  obtain ⟨hpatched, hmem⟩ := patchRun_congr h hpatches
  have hbwr : bwrPatches abi ⟨mem', u.ptr⟩ = patchRun mem' (u.ptr + abi.bwrPayload)
      ((u.ptr + abi.bwrPayload + u.field abi.patchTableOffset) % 2 ^ 32)
      (toSigned (u.field abi.patchTableEntryNum)).toNat := by
    rw [bwrPatches, h.field hnum, h.field hoffset]
    rfl
  have hpatched' : (bwrPatches abi ⟨mem', u.ptr⟩).patched = (bwrPatches abi u).patched := by
    rw [hbwr, hpatched]
    rfl
  have hcopy : SameCopy block ⟨(bwrPatches abi u).mem, u.ptr⟩
      (bwrPatches abi ⟨mem', u.ptr⟩).mem := by
    rw [hbwr]
    exact hmem
  have hanswer : bwrAnswer abi sys ⟨mem', u.ptr⟩ = bwrAnswer abi sys u := by
    unfold bwrAnswer
    rw [h.field hsize]
    exact congrArg sys.binderWriteRead (hwrite.read_eq hcopy)
  have hout : ∀ bwr ret m size,
      bwrDowncall codes abi ⟨(bwrPatches abi ⟨mem', u.ptr⟩).mem, u.ptr⟩ bwr ret m size =
        bwrDowncall codes abi ⟨(bwrPatches abi u).mem, u.ptr⟩ bwr ret m size := by
    intro bwr ret m size
    have hhandle : (Upcall.mk (bwrPatches abi ⟨mem', u.ptr⟩).mem u.ptr).handle =
        (Upcall.mk (bwrPatches abi u).mem u.ptr).handle := hcopy.field (hin.handle rfl)
    have hback := hcopy.field hbuffer
    dsimp only at hback
    rw [bwrDowncall, bwrDowncall, bwrOut, bwrOut, hhandle, hback]
  simp only [handleBinderWriteRead_sent, hanswer, hpatched', hout]

lemma handlePoll_surroundings (hin : PayloadInside abi block u .poll) (h : SameCopy block u mem') :
    (handlePoll codes abi sys ⟨mem', u.ptr⟩).sent = (handlePoll codes abi sys u).sent := by
  have hfields := hin.fields
  simp only [VenusLayout.fixedFields, List.forall_mem_cons] at hfields
  obtain ⟨hnfds, htimeout, hbuffer, -⟩ := hfields
  have hfds := hin.arrays.read_eq h
  have hhandle : (Upcall.mk mem' u.ptr).handle = u.handle := h.field (hin.handle rfl)
  have hcall : pollCall abi sys ⟨mem', u.ptr⟩ = pollCall abi sys u := by
    unfold pollCall
    rw [h.field hnfds, h.field htimeout]
    exact congrArg (fun fds => sys.poll fds (u.field abi.pollNfds) (u.field abi.pollTimeout)) hfds
  rw [handlePoll_eq, handlePoll_eq, h.field hnfds, h.field hbuffer, hhandle, hcall]
  dsimp only
  split_ifs <;> rfl

lemma handleFutexWait_surroundings (hin : PayloadInside abi block u .futexWait)
    (h : SameCopy block u mem') :
    (handleFutexWait codes abi sys ⟨mem', u.ptr⟩).sent =
      (handleFutexWait codes abi sys u).sent := by
  have hfields := hin.fields
  simp only [VenusLayout.fixedFields, List.forall_mem_cons] at hfields
  obtain ⟨hop, huaddr, hval, hbitset, -⟩ := hfields
  have hhandle : (Upcall.mk mem' u.ptr).handle = u.handle := h.field (hin.handle rfl)
  have hts : (if u.field abi.waitOp &&& flagsHasTimeout ≠ 0 then
        some (mem'.read (u.ptr + abi.waitTs) 8) else none) =
      if u.field abi.waitOp &&& flagsHasTimeout ≠ 0 then
        some (u.mem.read (u.ptr + abi.waitTs) 8) else none := by
    split_ifs with htimed
    · exact congrArg some ((hin.arrays htimed).read_eq h)
    · rfl
  simp only [handleFutexWait, HandlerRun.reply, h.field hop, h.field huaddr, h.field hval,
    h.field hbitset, hhandle, hts]

lemma handleCall_surroundings {k : VenusCall} (hin : PayloadInside abi block u k)
    (h : SameCopy block u mem') :
    (handleCall codes abi bcodes vm sys junk block ⟨mem', u.ptr⟩ k).sent =
      (handleCall codes abi bcodes vm sys junk block u k).sent := by
  have hfield : ∀ off ∈ abi.fixedFields k, (Upcall.mk mem' u.ptr).field off = u.field off :=
    fun off hoff => h.field (hin.fields off hoff)
  have hhandle : k.isAsync → (Upcall.mk mem' u.ptr).handle = u.handle :=
    fun hk => h.field (hin.handle hk)
  cases k with
  | pipe => rfl
  | poll => exact handlePoll_surroundings hin h
  | binderWriteRead => exact handleBinderWriteRead_surroundings hin h
  | futexWait => exact handleFutexWait_surroundings hin h
  | close | alienMmap2 =>
    simp only [VenusLayout.fixedFields, List.forall_mem_cons] at hfield
    simp only [handleCall, handleClose, handleAlienMmap2, HandlerRun.reply, hfield]
  | socket | futexWake =>
    simp only [VenusLayout.fixedFields, List.forall_mem_cons] at hfield
    simp only [handleCall, handleSocket, handleFutexWake, HandlerRun.reply, hfield, hhandle rfl]

end Handlers

/-- Neither the stack, new blocks nor what lies around the copy of the upcall show in what is
sent. -/
def LeakFreeAround (codes : VenusCodes) (abi : VenusLayout) (bcodes : BinderCodes) (vm : BinderVm)
    (sys : Kernel) (block : ℕ) (u : Upcall) : Prop :=
  ∀ junk junk' raw raw' mem', SameCopy block u mem' →
    (workerHandle codes abi bcodes vm sys junk block u).sentBytes raw =
      (workerHandle codes abi bcodes vm sys junk' block ⟨mem', u.ptr⟩).sentBytes raw'

section LeakFree

variable {codes : VenusCodes} {abi : VenusLayout} {bcodes : BinderCodes} {vm : BinderVm}
variable {sys : Kernel} {block : ℕ} {u : Upcall}

lemma leakFreeAround_iff (hopcode : 4 ≤ block)
    (hin : ∀ k, codes.decode u.opcode = some k → PayloadInside abi block u k) :
    LeakFreeAround codes abi bcodes vm sys block u ↔ LeakFree codes abi bcodes vm sys block u := by
  constructor
  · intro haround junk junk' raw raw'
    exact haround junk junk' raw raw' u.mem (fun _ _ _ => rfl)
  · intro hleak junk junk' raw raw' mem' hsame
    rw [hleak junk junk' raw raw', HandlerRun.sentBytes, HandlerRun.sentBytes]
    have hfield := hsame.field (show 0 + 4 ≤ block by omega)
    have hdecode : (Upcall.mk mem' u.ptr).opcode = u.opcode := hfield
    congr 1
    rw [workerHandle, workerHandle, hdecode]
    cases hk : codes.decode u.opcode with
    | none => rfl
    | some k => exact (handleCall_surroundings (hin k hk) hsame).symm

end LeakFree

/-- What is sent shows nothing of what the stack and new blocks held before exactly if it is no
reply to a `PIPE` whose call fails, and no registration with an environment variable that is
missing or has no comma. When the copy holds the opcode and the payload what its opcode calls for,
nothing around the copy shows either. The two runs have the same binder mapping, with what lies
behind it: a segment that starts in the mapping and ends outside is copied from there. -/
theorem nothing_leaks_iff {codes : VenusCodes} {abi : VenusLayout} {bcodes : BinderCodes}
    {vm : BinderVm} {sys : Kernel} {block : ℕ} {u : Upcall} (hpacked : PackedLayout abi)
    (hpoll : ∀ fds nfds timeout, (sys.poll fds nfds timeout).2.length = fds.length) :
    (LeakFree codes abi bcodes vm sys block u ↔
        ¬ (codes.decode u.opcode = some .pipe ∧ sys.pipe.1.ret < 0)) ∧
      (4 ≤ block → (∀ k, codes.decode u.opcode = some k → PayloadInside abi block u k) →
        (LeakFreeAround codes abi bcodes vm sys block u ↔
          ¬ (codes.decode u.opcode = some .pipe ∧ sys.pipe.1.ret < 0))) ∧
      ∀ registerHelper vmStart glueFd env,
        (∀ raw raw', initGlue registerHelper vmStart glueFd env raw =
            initGlue registerHelper vmStart glueFd env raw') ↔
          glueFd < 0 ∨ ∃ e, env = some e ∧ comma ∈ e := by
  refine ⟨leakFree_iff hpacked hpoll, fun hopcode hin => ?_, initGlue_leakFree_iff⟩
  rw [leakFreeAround_iff hopcode hin]
  exact leakFree_iff hpacked hpoll

lemma sampleLayout_packed : PackedLayout sampleLayout := ⟨rfl, rfl, rfl⟩

/-- A `POLL` of two descriptors, and a workspace `"5,100"`. -/
theorem poll_leaks_nothing :
    LeakFreeAround sampleCodes sampleLayout driverCodes zeroVm (quietKernel [] (by decide)) 40
        twoPollfds ∧
      ∀ raw raw', initGlue 8 0x40000000 3 (some [0x35, 0x2c, 0x31, 0x30, 0x30]) raw =
        initGlue 8 0x40000000 3 (some [0x35, 0x2c, 0x31, 0x30, 0x30]) raw' := by
  have hk : sampleCodes.decode twoPollfds.opcode = some .poll := by decide +kernel
  obtain ⟨-, haround, hglue⟩ := @nothing_leaks_iff sampleCodes sampleLayout driverCodes zeroVm
    (quietKernel [] (by decide)) 40 twoPollfds sampleLayout_packed (fun _ _ _ => rfl)
  constructor
  · have harrays : ArraysInside sampleLayout 40 twoPollfds .poll := by
      unfold ArraysInside Touch.Inside
      decide +kernel
    refine (haround (by decide) (fun k hk' => ?_)).mpr (fun h => ?_)
    · obtain rfl := Option.some.inj (hk.symm.trans hk')
      exact ⟨fun _ => by decide, by decide, harrays⟩
    · rw [hk] at h
      cases h.1
  · exact (hglue _ _ _ _).mpr (.inr ⟨_, rfl, by decide⟩)

/-- `pipe` fails for want of descriptors. -/
def exhaustedKernel : Kernel :=
  { quietKernel [] (Nat.zero_le readBufferSize) with pipe := (⟨-1, 24⟩, 0, 0) }

def pipeUpcall : Upcall := ⟨memoryOf [1, 0, 0, 0, 0, 0, 0, 0], 4096⟩

/-- A `POLL` with one entry, which lies behind the payload. -/
def shortPollUpcall : Upcall :=
  ⟨memoryOf [3, 0, 0, 0, 16, 0, 0, 0, 0, 0x20, 0, 0, 1, 0, 0, 0, 0, 0, 0, 0, 0, 0, 0, 0], 4096⟩

/-- The reply to a `PIPE` that fails carries two words of the stack, a registration without the
environment variable carries two more, and the reply to a `POLL` that is too short carries what
lies behind it. -/
theorem stack_and_heap_leak :
    ¬ LeakFree sampleCodes sampleLayout driverCodes zeroVm exhaustedKernel 8 pipeUpcall ∧
      (¬ ∀ raw raw', initGlue 8 0x40000000 3 none raw = initGlue 8 0x40000000 3 none raw') ∧
      ¬ LeakFreeAround sampleCodes sampleLayout driverCodes zeroVm (quietKernel [] (by decide)) 24
        shortPollUpcall := by
  refine ⟨?_, ?_, ?_⟩
  · intro hleak
    have hsame := hleak ⟨(5, 6), fun _ => 0⟩ ⟨(7, 8), fun _ => 0⟩ (fun _ => 0) (fun _ => 0)
    revert hsame
    decide +kernel
  · intro hsame
    have hzero := hsame (fun _ => 0) (fun _ => 1)
    revert hzero
    decide +kernel
  · intro hleak
    have hsame := hleak cleanStack cleanStack (fun _ => 0) (fun _ => 0)
      (shortPollUpcall.mem.write 4120 [1]) (fun x _ hx => Memory.write_of_lt hx)
    revert hsame
    decide +kernel

end ExpressOS

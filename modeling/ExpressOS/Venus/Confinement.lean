import ExpressOS.Venus.Dispatcher
import ExpressOS.Venus.Replies
import ExpressOS.Venus.Routing

/-!
# What an upcall must hold for its accesses to stay inside

Nothing but the framing of the dispatcher looks at the length of an upcall. Which bytes are
reached then depends on the opcode and on counts and offsets inside the payload, and this file
says exactly what the payload has to hold.
-/

namespace ExpressOS
open Systems

variable (codes : VenusCodes) (abi : VenusLayout) (bcodes : BinderCodes) (vm : BinderVm)

def findWorkerTouches (u : Upcall) : List Touch :=
  if u.opcode ≥ codes.callCount then u.touchFields [0]
  else if isAsyncOpcode codes u.opcode then u.touchFields [0, handleOffset]
  else u.touchFields [0]

/-- The frame that `post_upcall` is given; `occupied` when the mailbox of the worker is not
empty, and a message shows the opcode and the handle. -/
def postUpcallTouches (occupied : Bool) (u : Upcall) : List Touch :=
  findWorkerTouches codes u ++
    match findWorker codes u with
    | none => []
    | some _ =>
      (if occupied then u.touchFields [0, handleOffset] else []) ++
        u.touchFields [4] ++ [u.touch 0 u.size]

/-- The accesses to the frame `u`, and to its copy `v` whatever the system calls answer, stay
inside the `size` bytes of each. -/
def AccessesInside (occupied : Bool) (u v : Upcall) : Prop :=
  (∀ t ∈ postUpcallTouches codes occupied u, t.Inside u.ptr u.size) ∧
    ∀ sys junk, ∀ t ∈ (workerHandle codes abi bcodes vm sys junk u.size v).touched,
      t.Inside v.ptr u.size

/-- The words that the handler of a call reads one by one, besides the handle. -/
def VenusLayout.fixedFields : VenusCall → List ℕ
  | .close => [abi.closeFd]
  | .pipe => []
  | .socket => [abi.socketDomain, abi.socketType, abi.socketProtocol]
  | .poll => [abi.pollNfds, abi.pollTimeout, abi.pollBuffer]
  | .binderWriteRead =>
    [abi.bwrWriteSize, abi.patchTableEntryNum, abi.patchTableOffset, abi.bwrBuffer]
  | .alienMmap2 =>
    [abi.mmapAddr, abi.mmapLength, abi.mmapProt, abi.mmapFlags, abi.mmapFd, abi.mmapPgoffset]
  | .futexWait => [abi.waitOp, abi.waitUaddr, abi.waitVal, abi.waitBitset]
  | .futexWake => [abi.wakeUaddr, abi.wakeOp, abi.wakeBitset]

/-- Some entries of a patch table worked off. -/
def patchRun (mem : Memory) (buf table n : ℕ) : Patching :=
  (List.range n).foldl (patchTurn buf table) ⟨mem, [], []⟩

/-- Entry `i` of a patch table, and the word it names when its turn comes, lie inside. -/
def PatchInside (mem : Memory) (buf table i base size : ℕ) : Prop :=
  let entry := (table + 4 * i) % 2 ^ 32
  let word := (buf + (patchRun mem buf table i).mem.word entry) % 2 ^ 32
  (Touch.mk entry 4).Inside base size ∧ (Touch.mk word 4).Inside base size

instance (mem : Memory) (buf table i base size : ℕ) :
    Decidable (PatchInside mem buf table i base size) :=
  inferInstanceAs (Decidable (_ ∧ _))

/-- The payload of `v` holds the arrays that its opcode calls for. -/
def ArraysInside (size : ℕ) (v : Upcall) : VenusCall → Prop
  | .poll => (v.touch abi.pollFds (v.field abi.pollNfds * pollfdSize % 2 ^ 32)).Inside v.ptr size
  | .binderWriteRead =>
    (v.touch abi.bwrPayload (v.field abi.bwrWriteSize)).Inside v.ptr size ∧
      ∀ i < (toSigned (v.field abi.patchTableEntryNum)).toNat,
        PatchInside v.mem (v.ptr + abi.bwrPayload)
          ((v.ptr + abi.bwrPayload + v.field abi.patchTableOffset) % 2 ^ 32) i v.ptr size
  | .futexWait =>
    v.field abi.waitOp &&& flagsHasTimeout ≠ 0 → (v.touch abi.waitTs 8).Inside v.ptr size
  | _ => True

/-- What a frame has to hold: the handle where it is looked at, and the fields and arrays of its
call. -/
def PayloadHolds (occupied : Bool) (u v : Upcall) : Prop :=
  (isAsyncOpcode codes u.opcode ∨ occupied = true ∧ u.opcode < codes.callCount →
      handleOffset + 4 ≤ u.size) ∧
    ∀ k, codes.decode u.opcode = some k →
      (∀ off ∈ abi.fixedFields k, off + 4 ≤ u.size) ∧ ArraysInside abi u.size v k

section Touches

variable {abi}

lemma touch_inside_iff {v : Upcall} {off len size : ℕ} (hlen : 0 < len) :
    (v.touch off len).Inside v.ptr size ↔ off + len ≤ size := by
  unfold Touch.Inside Upcall.touch
  dsimp only
  omega

lemma touchFields_inside_iff {v : Upcall} {offs : List ℕ} {size : ℕ} :
    (∀ t ∈ v.touchFields offs, t.Inside v.ptr size) ↔ ∀ off ∈ offs, off + 4 ≤ size := by
  simp only [Upcall.touchFields, List.forall_mem_map, touch_inside_iff (show 0 < 4 by decide)]

lemma patchRun_succ (mem : Memory) (buf table n : ℕ) :
    patchRun mem buf table (n + 1) = patchTurn buf table (patchRun mem buf table n) n := by
  rw [patchRun, List.range_succ, List.foldl_append]
  rfl

lemma patchRun_inside_iff (mem : Memory) (buf table n base size : ℕ) :
    (∀ a ∈ (patchRun mem buf table n).entries ++ (patchRun mem buf table n).patched,
        (Touch.mk a 4).Inside base size) ↔
      ∀ i < n, PatchInside mem buf table i base size := by
  induction n with
  | zero => simp [patchRun]
  | succ n ih =>
    have hsplit : (∀ a ∈ (patchRun mem buf table (n + 1)).entries ++
          (patchRun mem buf table (n + 1)).patched, (Touch.mk a 4).Inside base size) ↔
        (∀ a ∈ (patchRun mem buf table n).entries ++ (patchRun mem buf table n).patched,
          (Touch.mk a 4).Inside base size) ∧ PatchInside mem buf table n base size := by
      rw [patchRun_succ]
      simp only [patchTurn, PatchInside, List.mem_append, List.mem_cons, or_imp, forall_and,
        forall_eq]
      tauto
    rw [hsplit, ih, Nat.forall_lt_succ_right]

end Touches

/-- Every call fails, except `malloc`. -/
def failingKernel : Kernel where
  close _ := ⟨-1, 0⟩
  pipe := (⟨-1, 0⟩, 0, 0)
  socket _ _ _ := ⟨-1, 0⟩
  poll fds _ _ := (⟨-1, 0⟩, fds)
  mmap _ _ _ _ _ _ := (mapFailed, 0)
  futex _ _ _ _ _ := -1
  binderWriteRead _ := ⟨-1, 0, [], by decide⟩
  sendDowncall _ := -1
  malloc := true

lemma failingKernel_malloc : failingKernel.malloc = true := rfl

lemma bwrAnswer_failingKernel (v : Upcall) : (bwrAnswer abi failingKernel v).ret = -1 := rfl

section Handlers

variable {codes abi bcodes vm}

/-- What the handlers that make no use of memory reach does not depend on the system calls. -/
lemma handleCall_touched_of_fixed {k : VenusCall} (hpoll : k ≠ .poll)
    (hbwr : k ≠ .binderWriteRead) (sys : Kernel) (junk : Leftover) (block : ℕ) (v : Upcall) :
    (handleCall codes abi bcodes vm sys junk block v k).touched =
      v.touchFields (abi.fixedFields k ++ if k.isAsync then [handleOffset] else []) ++
        if k = .futexWait ∧ v.field abi.waitOp &&& flagsHasTimeout ≠ 0 then
          [v.touch abi.waitTs 8] else [] := by
  cases k with
  | poll => exact absurd rfl hpoll
  | binderWriteRead => exact absurd rfl hbwr
  | close | pipe | socket | alienMmap2 | futexWait | futexWake =>
    simp [handleCall, handleClose, handlePipe, handleSocket, handleAlienMmap2, handleFutexWait,
      handleFutexWake, HandlerRun.reply, VenusLayout.fixedFields, VenusCall.isAsync,
      Upcall.touchFields]

lemma handlePoll_touched_subset (sys : Kernel) (v : Upcall) :
    (handlePoll codes abi sys v).touched ⊆
      v.touchFields [abi.pollNfds] ++ [pollfdTouch abi v] ++
        v.touchFields [abi.pollTimeout, handleOffset, abi.pollBuffer] := by
  rcases handlePoll_cases codes abi sys v with ⟨-, _, hrun⟩ | ⟨-, -, _, hrun⟩ |
    ⟨-, _, d, -, -, hrun⟩
  · rw [hrun, List.append_assoc]
    exact List.subset_append_left _ _
  · rw [hrun]
    exact List.subset_append_left _ _
  · rw [hrun]
    exact List.Subset.refl _

lemma binderOut_touched (sys : Kernel) (v : Upcall) (bwr : BinderReply) (ret : ℤ)
    (m : IpcMarshaler) (size : ℕ) (touched : List Touch) (calls : List HandlerCall) :
    (binderOut codes abi sys v bwr ret m size touched calls).touched =
      touched ++ if sys.malloc then v.touchFields [handleOffset, abi.bwrBuffer] else [] := by
  unfold binderOut
  split
  · rfl
  · simp

lemma handleBinderWriteRead_touched_subset (sys : Kernel) (junk : Leftover) (block : ℕ)
    (v : Upcall) :
    (handleBinderWriteRead codes abi bcodes vm sys junk block v).touched ⊆
      patchTouches abi v ++ [writeBufferTouch abi v] ++
        v.touchFields [handleOffset, abi.bwrBuffer] := by
  rcases handleBinderWriteRead_cases codes abi bcodes vm sys junk block v with ⟨-, hrun⟩ |
    ⟨-, ⟨-, hrun⟩ | ⟨-, -, hrun⟩ | ⟨-, ret, -, hrun⟩⟩
  · rw [hrun, List.append_assoc]
    exact List.subset_append_left _ _
  · rw [hrun, binderOut_touched]
    split
    · exact List.Subset.refl _
    · simp
  · rw [hrun]
    exact List.subset_append_left _ _
  · rw [hrun, binderOut_touched]
    split
    · exact List.Subset.refl _
    · simp

variable {v : Upcall} {size : ℕ}

lemma patchTouches_inside_iff :
    (∀ t ∈ patchTouches abi v, t.Inside v.ptr size) ↔
      (∀ off ∈ [abi.bwrWriteSize, abi.patchTableEntryNum, abi.patchTableOffset], off + 4 ≤ size) ∧
        ∀ i < (toSigned (v.field abi.patchTableEntryNum)).toNat,
          PatchInside v.mem (v.ptr + abi.bwrPayload)
            ((v.ptr + abi.bwrPayload + v.field abi.patchTableOffset) % 2 ^ 32) i v.ptr size := by
  rw [← patchRun_inside_iff, ← touchFields_inside_iff, patchTouches, List.forall_mem_append,
    List.forall_mem_map]
  rfl

/-- The handler of `BINDER_WRITE_READ` reaches all it can when the ioctl fails. -/
lemma handleBinderWriteRead_inside_iff :
    (∀ sys junk, ∀ t ∈ (handleBinderWriteRead codes abi bcodes vm sys junk size v).touched,
        t.Inside v.ptr size) ↔
      ∀ t ∈ patchTouches abi v ++ [writeBufferTouch abi v] ++
        v.touchFields [handleOffset, abi.bwrBuffer], t.Inside v.ptr size := by
  refine ⟨fun h => ?_, fun h sys junk t ht =>
    h t (handleBinderWriteRead_touched_subset sys junk size v ht)⟩
  have hrun := h failingKernel cleanStack
  rcases handleBinderWriteRead_cases codes abi bcodes vm failingKernel cleanStack size v with
    ⟨hout, hpath⟩ | ⟨-, ⟨-, hpath⟩ | ⟨hpos, -⟩ | ⟨hpos, -⟩⟩
  · rw [hpath] at hrun
    refine absurd (fun a ha => ?_) hout
    refine hrun _ (List.mem_append_right _ (List.mem_map.mpr ⟨a, ?_, rfl⟩))
    exact List.mem_append_right _ ha
  · rw [hpath, binderOut_touched] at hrun
    exact hrun
  · rw [bwrAnswer_failingKernel] at hpos
    omega
  · rw [bwrAnswer_failingKernel] at hpos
    omega

/-- So does the handler of `POLL`: a `pollfd` array that lies in a frame is too short for the size
of the downcall to wrap. -/
lemma handlePoll_inside_iff (hsize : size ≤ bufSize) :
    (∀ sys, ∀ t ∈ (handlePoll codes abi sys v).touched, t.Inside v.ptr size) ↔
      ∀ t ∈ v.touchFields [abi.pollNfds] ++ [pollfdTouch abi v] ++
        v.touchFields [abi.pollTimeout, handleOffset, abi.pollBuffer], t.Inside v.ptr size := by
  refine ⟨fun h => ?_, fun h sys t ht => h t (handlePoll_touched_subset sys v ht)⟩
  have hrun := h failingKernel
  rcases handlePoll_cases codes abi failingKernel v with ⟨hno, -⟩ | ⟨-, hno, _, hpath⟩ |
    ⟨-, _, d, -, -, hpath⟩
  · exact absurd failingKernel_malloc hno
  · rw [hpath] at hrun
    have hfds : (pollfdTouch abi v).Inside v.ptr size := hrun _ (by simp)
    refine absurd ⟨failingKernel_malloc, ?_⟩ hno
    have hout := abi.pollOutSize_lt
    unfold Touch.Inside pollfdTouch Upcall.touch at hfds
    dsimp only at hfds
    generalize v.field abi.pollNfds * pollfdSize % 2 ^ 32 = fds at hfds ⊢
    unfold bufSize at hsize
    unfold hdrSize handleSize
    omega
  · rw [hpath] at hrun
    exact hrun

/-- What the handler of a call reaches lies inside exactly when its fields and arrays do. -/
lemma handleCall_inside_iff (hsize : size ≤ bufSize) (k : VenusCall) :
    (∀ sys junk, ∀ t ∈ (handleCall codes abi bcodes vm sys junk size v k).touched,
        t.Inside v.ptr size) ↔
      ((k.isAsync → handleOffset + 4 ≤ size) ∧ ∀ off ∈ abi.fixedFields k, off + 4 ≤ size) ∧
        ArraysInside abi size v k := by
  by_cases hpoll : k = .poll
  · subst hpoll
    have hreach : (∀ sys junk, ∀ t ∈ (handleCall codes abi bcodes vm sys junk size v .poll).touched,
        t.Inside v.ptr size) ↔
        ∀ sys, ∀ t ∈ (handlePoll codes abi sys v).touched, t.Inside v.ptr size :=
      ⟨fun h sys => h sys cleanStack, fun h sys _ => h sys⟩
    rw [hreach, handlePoll_inside_iff hsize]
    simp only [List.forall_mem_append, touchFields_inside_iff, List.forall_mem_singleton,
      VenusLayout.fixedFields, List.forall_mem_cons, VenusCall.isAsync, ArraysInside, pollfdTouch]
    tauto
  by_cases hbwr : k = .binderWriteRead
  · subst hbwr
    rw [show (∀ sys junk, ∀ t ∈ (handleCall codes abi bcodes vm sys junk size v
        .binderWriteRead).touched, t.Inside v.ptr size) ↔ _ from handleBinderWriteRead_inside_iff]
    simp only [List.forall_mem_append, patchTouches_inside_iff, touchFields_inside_iff,
      List.forall_mem_singleton, VenusLayout.fixedFields, List.forall_mem_cons, VenusCall.isAsync,
      ArraysInside, writeBufferTouch]
    tauto
  have hconst := fun sys junk => @handleCall_touched_of_fixed codes abi bcodes vm k hpoll hbwr sys
    junk size v
  simp only [hconst, List.forall_mem_append, touchFields_inside_iff]
  have hworld : Nonempty Kernel := ⟨failingKernel⟩
  have hstack : Nonempty Leftover := ⟨cleanStack⟩
  simp only [forall_const]
  have harrays : (∀ t ∈ if k = .futexWait ∧ v.field abi.waitOp &&& flagsHasTimeout ≠ 0 then
      [v.touch abi.waitTs 8] else [], t.Inside v.ptr size) ↔ ArraysInside abi size v k := by
    cases k with
    | poll => exact absurd rfl hpoll
    | binderWriteRead => exact absurd rfl hbwr
    | futexWait => by_cases hts : v.field abi.waitOp &&& flagsHasTimeout = 0 <;>
        simp [hts, ArraysInside]
    | close | pipe | socket | alienMmap2 | futexWake => simp [ArraysInside]
  have hhandle : (∀ off ∈ if k.isAsync = true then [handleOffset] else [], off + 4 ≤ size) ↔
      (k.isAsync = true → handleOffset + 4 ≤ size) := by
    by_cases hasync : k.isAsync = true <;> simp [hasync]
  rw [harrays, hhandle]
  tauto

end Handlers

section Frame

variable {codes abi bcodes vm} {u v : Upcall} {occupied : Bool}

/-- What `find_worker` and `post_upcall` reach is the header, the whole frame, and sometimes the
handle. -/
lemma postUpcallTouches_inside_iff (hframe : hdrSize + u.payloadSize ≤ bufSize) :
    (∀ t ∈ postUpcallTouches codes occupied u, t.Inside u.ptr u.size) ↔
      (isAsyncOpcode codes u.opcode ∨ occupied = true ∧ u.opcode < codes.callCount →
        handleOffset + 4 ≤ u.size) := by
  have hsize : u.size = hdrSize + u.payloadSize :=
    Upcall.size_of_lt (lt_of_le_of_lt hframe (by decide))
  have hhdr : 8 ≤ u.size := by
    rw [hsize, hdrSize]
    omega
  have hwhole : (u.touch 0 u.size).Inside u.ptr u.size :=
    (touch_inside_iff (by omega)).mpr (by omega)
  unfold postUpcallTouches findWorkerTouches findWorker
  by_cases hcall : u.opcode ≥ codes.callCount
  · have hno : ¬ isAsyncOpcode codes u.opcode = true := fun h =>
      absurd (opcode_lt_callCount h) (not_lt.mpr hcall)
    have hle : ¬ u.opcode < codes.callCount := not_lt.mpr hcall
    simp only [if_pos hcall, List.append_nil, touchFields_inside_iff, List.forall_mem_singleton,
      hno, hle, and_false, or_false, Bool.false_eq_true, false_imp_iff, iff_true]
    omega
  · have hlt : u.opcode < codes.callCount := not_le.mp hcall
    rw [if_neg hcall, if_neg hcall]
    have hhead : ∀ offs : List ℕ, (∀ t ∈ u.touchFields offs, t.Inside u.ptr u.size) ↔
        ∀ off ∈ offs, off + 4 ≤ u.size := fun _ => touchFields_inside_iff
    by_cases hasync : isAsyncOpcode codes u.opcode = true
    · cases occupied <;> simp [hasync, or_imp, forall_and, hhead, hwhole] <;> omega
    · cases occupied <;> simp [hasync, or_imp, forall_and, hhead, hwhole, hlt] <;> omega

lemma opcode_of_copy (hframe : hdrSize + u.payloadSize ≤ bufSize)
    (hcopy : v.mem.read v.ptr u.size = u.copy) : v.opcode = u.opcode := by
  have hsize : u.size = hdrSize + u.payloadSize :=
    Upcall.size_of_lt (lt_of_le_of_lt hframe (by decide))
  have hhdr : 0 + 4 ≤ u.size := by
    rw [hsize, hdrSize]
    omega
  have hv := Memory.word_eq_of_read hcopy hhdr
  have hu := Memory.word_eq_of_read (show u.mem.read u.ptr u.size = u.copy from rfl) hhdr
  exact hv.trans hu.symm

end Frame

/-- For a frame that lies whole in the buffer of the dispatcher, the accesses of `find_worker`,
`post_upcall` and the handler stay inside the frame and its copy exactly when the payload holds the
handle where it is looked at, the fields of the opcode, the `pollfd` entries, the write buffer, the
`timespec`, and every patch table entry and patched word. -/
theorem accessesInside_iff (occupied : Bool) (u v : Upcall)
    (hframe : hdrSize + u.payloadSize ≤ bufSize) (hcopy : v.mem.read v.ptr u.size = u.copy) :
    AccessesInside codes abi bcodes vm occupied u v ↔ PayloadHolds codes abi occupied u v := by
  have hopcode := opcode_of_copy hframe hcopy
  have hsize : u.size = hdrSize + u.payloadSize :=
    Upcall.size_of_lt (lt_of_le_of_lt hframe (by decide))
  have hhdr : 0 + 4 ≤ u.size := by
    rw [hsize, hdrSize]
    omega
  unfold AccessesInside PayloadHolds
  rw [postUpcallTouches_inside_iff hframe]
  refine and_congr_right (fun hhandle => ?_)
  unfold workerHandle
  rw [hopcode]
  cases hk : codes.decode u.opcode with
  | none =>
    simp only [touchFields_inside_iff, List.forall_mem_singleton, reduceCtorEq, false_imp_iff,
      implies_true, iff_true]
    exact fun _ _ => hhdr
  | some k =>
    have hhead : ∀ t ∈ v.touchFields [0], t.Inside v.ptr u.size :=
      touchFields_inside_iff.mpr (by simpa using hhdr)
    have hasync : k.isAsync = true → handleOffset + 4 ≤ u.size := by
      intro h
      refine hhandle (.inl ?_)
      rw [isAsyncOpcode, hk]
      exact h
    have hcall := @handleCall_inside_iff codes abi bcodes vm v u.size (hsize ▸ hframe) k
    simp only [List.forall_mem_append, Option.some.injEq, forall_eq']
    constructor
    · intro h
      obtain ⟨⟨-, hfields⟩, harrays⟩ := hcall.mp (fun sys junk t ht => (h sys junk).2 t ht)
      exact ⟨hfields, harrays⟩
    · rintro ⟨hfields, harrays⟩ sys junk
      exact ⟨hhead, hcall.mpr ⟨⟨hasync, hfields⟩, harrays⟩ sys junk⟩

/-- A `BINDER_WRITE_READ` with four bytes to write and one patch, of these four bytes. -/
def patchedUpcall : Upcall :=
  ⟨memoryOf [4, 0, 0, 0, 28, 0, 0, 0, 0, 0x20, 0, 0, 0, 0, 2, 0, 4, 0, 0, 0, 1, 0, 0, 0, 4, 0, 0, 0,
    0, 0, 0, 0, 0, 0, 0, 0], 4096⟩

theorem patched_upcall_inside :
    hdrSize + patchedUpcall.payloadSize ≤ bufSize ∧
      AccessesInside sampleCodes sampleLayout driverCodes zeroVm true patchedUpcall
        patchedUpcall := by
  have hframe : hdrSize + patchedUpcall.payloadSize ≤ bufSize := by decide +kernel
  refine ⟨hframe, (accessesInside_iff _ _ _ _ _ _ _ hframe rfl).mpr ⟨by decide +kernel, ?_⟩⟩
  intro k hk
  have hbwr : sampleCodes.decode patchedUpcall.opcode = some .binderWriteRead := by decide +kernel
  obtain rfl := Option.some.inj (hbwr.symm.trans hk)
  exact ⟨by decide +kernel, by decide +kernel, by decide +kernel⟩

/-- A `SOCKET` frame with an empty payload: the dispatcher accepts it, and `find_worker` looks for
its handle behind the frame. -/
theorem empty_socket_leaves_frame :
    let u : Upcall := ⟨memoryOf [2, 0, 0, 0, 0, 0, 0, 0], 4096⟩
    (4096, 4104) ∈ (framingLoop u.mem 4096 8 1).accepted ∧
      ¬ AccessesInside sampleCodes sampleLayout driverCodes zeroVm false u u := by
  refine ⟨by decide +kernel, ?_⟩
  rintro ⟨hpost, -⟩
  have hhandle := hpost ⟨4104, 4⟩ (by decide +kernel)
  revert hhandle
  decide +kernel

end ExpressOS

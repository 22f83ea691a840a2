import ExpressOS.Venus.Downcall

/-!
# The handlers

`fs.c`, `net.c`, `mm.c`, `futex.c` and `handle_binder_write_read` of `binder.c`, and the switch of
`worker_loop` that selects one of them.
-/

namespace ExpressOS
open Systems

/-- `FLAGS_HAS_TIMEOUT` -/
def flagsHasTimeout : ℕ := 0x4
def pageSize : ℕ := 4096
def mapFailed : ℕ := 2 ^ 32 - 1

/-- `sizeof (struct pollfd)` -/
def pollfdSize : ℕ := 8

/-- The memory while a patch table is worked off, and the addresses of the table entries read and
of the words rewritten so far, latest first. -/
structure Patching where
  mem : Memory
  entries : List ℕ
  patched : List ℕ

/-- The body of the loop of `patch_payload_ptr`. -/
def patchTurn (buf table : ℕ) (p : Patching) (i : ℕ) : Patching :=
  let entry := (table + 4 * i) % 2 ^ 32
  let word := (buf + p.mem.word entry) % 2 ^ 32
  ⟨p.mem.setWord word (p.mem.word word + buf), entry :: p.entries, word :: p.patched⟩

def patchPayloadPtr (mem : Memory) (buf entries offset : ℕ) : Patching :=
  let patchTable := (buf + offset) % 2 ^ 32
  (List.range (toSigned entries).toNat).foldl (patchTurn buf patchTable) ⟨mem, [], []⟩

variable (codes : VenusCodes) (abi : VenusLayout) (bcodes : BinderCodes) (vm : BinderVm)
variable (sys : Kernel) (junk : Leftover)

def handleClose (u : Upcall) : HandlerRun :=
  let r := sys.close (u.field abi.closeFd)
  .reply sys (u.touchFields [abi.closeFd]) [.close (u.field abi.closeFd) r]
    ⟨initDowncallHdr (codes.code .close) longSize, .ret r.value⟩

def handlePipe (_u : Upcall) : HandlerRun :=
  let (r, readPipe, writePipe) := sys.pipe
  -- a failing call leaves the array as it was
  let pipefd := if r.ret < 0 then junk.pipefd else (readPipe, writePipe)
  .reply sys [] [.pipe r]
    ⟨initDowncallHdr (codes.code .pipe) abi.pipeOutSize, .pipe r.value pipefd.1 pipefd.2⟩

def handleSocket (u : Upcall) : HandlerRun :=
  let domain := u.field abi.socketDomain
  let type := u.field abi.socketType
  let protocol := u.field abi.socketProtocol
  let r := sys.socket domain type protocol
  .reply sys
    (u.touchFields [abi.socketDomain, abi.socketType, abi.socketProtocol, handleOffset])
    [.socket domain type protocol r]
    ⟨initDowncallHdr (codes.code .socket) (handleSize + longSize), .asyncRet u.handle r.value⟩

def handlePoll (u : Upcall) : HandlerRun :=
  let nfds := u.field abi.pollNfds
  let fdsSize := nfds * pollfdSize % 2 ^ 32
  let payloadSize := (handleSize + fdsSize + abi.pollOutSize) % 2 ^ 32
  let downcallSize := (hdrSize + payloadSize) % 2 ^ 32
  let touched := u.touchFields [abi.pollNfds]
  let calls := [.malloc downcallSize sys.malloc]
  if sys.malloc then
    let touched := touched ++ [u.touch abi.pollFds fdsSize]
    -- `res->fds` lies behind the header, the handle and `struct expressos_venus_poll_out`
    let place := hdrSize + handleSize + abi.pollOutSize
    let fds := u.mem.read (u.ptr + abi.pollFds) fdsSize
    let calls := calls ++ [.memcpy place fds]
    if downcallSize < place + fdsSize then ⟨touched, calls, [], .fault⟩
    else
      let timeout := u.field abi.pollTimeout
      let (r, fds) := sys.poll fds nfds timeout
      .reply sys (touched ++ u.touchFields [abi.pollTimeout, handleOffset, abi.pollBuffer])
        (calls ++ [.poll place nfds timeout r])
        ⟨initDowncallHdr (codes.code .poll) payloadSize,
          .poll u.handle (u.field abi.pollBuffer) r.value fds⟩
  else ⟨touched, calls, [], .ret (-ENOMEM)⟩

def handleAlienMmap2 (u : Upcall) : HandlerRun :=
  let addr := u.field abi.mmapAddr
  let length := u.field abi.mmapLength
  let prot := u.field abi.mmapProt
  let flags := u.field abi.mmapFlags
  let fd := u.field abi.mmapFd
  let offset := u.field abi.mmapPgoffset * pageSize % 2 ^ 32
  let r := sys.mmap addr length prot flags fd offset
  let ret := if r.1 = mapFailed then -r.2 else toSigned r.1
  .reply sys
    (u.touchFields [abi.mmapAddr, abi.mmapLength, abi.mmapProt, abi.mmapFlags, abi.mmapFd,
      abi.mmapPgoffset])
    [.mmap addr length prot flags fd offset r]
    ⟨initDowncallHdr (codes.code .alienMmap2) longSize, .ret ret⟩

def handleFutexWait (u : Upcall) : HandlerRun :=
  let op := u.field abi.waitOp
  let timed := op &&& flagsHasTimeout ≠ 0
  let ts := if timed then some (u.mem.read (u.ptr + abi.waitTs) 8) else none
  let uaddr := u.field abi.waitUaddr
  let val := u.field abi.waitVal
  let bitset := u.field abi.waitBitset
  let retval := sys.futex uaddr op val ts bitset
  .reply sys
    (u.touchFields [abi.waitOp, abi.waitUaddr, abi.waitVal, abi.waitBitset, handleOffset] ++
      if timed then [u.touch abi.waitTs 8] else [])
    [.futex uaddr op val ts bitset retval]
    ⟨initDowncallHdr (codes.code .futexWait) (handleSize + longSize), .asyncRet u.handle retval⟩

def handleFutexWake (u : Upcall) : HandlerRun :=
  let uaddr := u.field abi.wakeUaddr
  let op := u.field abi.wakeOp
  let bitset := u.field abi.wakeBitset
  let retval := sys.futex uaddr op 0 none bitset
  .reply sys (u.touchFields [abi.wakeUaddr, abi.wakeOp, abi.wakeBitset, handleOffset])
    [.futex uaddr op 0 none bitset retval]
    -- the opcode of the other futex call
    ⟨initDowncallHdr (codes.code .futexWait) (handleSize + longSize), .asyncRet u.handle retval⟩

/-- What `handle_binder_write_read` reports; `size` is what is sent of the buffer of the
marshaler. -/
def bwrOut (u : Upcall) (bwr : BinderReply) (ret : ℤ) (m : IpcMarshaler) (size : ℕ) : BwrOut where
  buffer := u.field abi.bwrBuffer
  ret := ret
  writeConsumed := bwr.writeConsumed
  readConsumed := bwr.read.length
  payloadSize := size
  dataEntries := m.dataEntries
  payload := m.buf.read 0 size

def bwrDowncall (u : Upcall) (bwr : BinderReply) (ret : ℤ) (m : IpcMarshaler) (size : ℕ) :
    Downcall :=
  ⟨initDowncallHdr (codes.code .binderWriteRead) ((handleSize + abi.bwrOutSize + size) % 2 ^ 32),
    .bwr u.handle (bwrOut abi u bwr ret m size)⟩

/-- `handle_binder_write_read` from the label `out` on. -/
def binderOut (u : Upcall) (bwr : BinderReply) (ret : ℤ) (m : IpcMarshaler) (size : ℕ)
    (touched : List Touch) (calls : List HandlerCall) : HandlerRun :=
  let payloadSize := (handleSize + abi.bwrOutSize + size) % 2 ^ 32
  let calls := calls ++ [.malloc ((hdrSize + payloadSize) % 2 ^ 32) sys.malloc]
  if sys.malloc then
    let place := hdrSize + handleSize + abi.bwrOutSize
    .reply sys (touched ++ u.touchFields [handleOffset, abi.bwrBuffer])
      (calls ++ [.memcpy place (m.buf.read 0 size)]) (bwrDowncall codes abi u bwr ret m size)
  -- the header is written through a null pointer
  else ⟨touched, calls, [], .fault⟩

/-- `block` is the size of the copy that the upcall pointer points to. -/
def handleBinderWriteRead (block : ℕ) (u : Upcall) : HandlerRun :=
  let payload := u.ptr + abi.bwrPayload
  let writeSize := u.field abi.bwrWriteSize
  let p := patchPayloadPtr u.mem payload (u.field abi.patchTableEntryNum)
    (u.field abi.patchTableOffset)
  let touched := u.touchFields [abi.bwrWriteSize, abi.patchTableEntryNum, abi.patchTableOffset] ++
    (p.entries ++ p.patched).map (fun a => ⟨a, 4⟩)
  if ∀ a ∈ p.patched, (Touch.mk a 4).Inside u.ptr block then
    let touched := touched ++ [⟨payload, writeSize⟩]
    let write := p.mem.read payload writeSize
    let bwr := sys.binderWriteRead write
    let calls := [.binderWriteRead write bwr.ret]
    let m := IpcMarshaler.fresh junk.buffer
    -- the upcall as the patches leave it
    let u : Upcall := ⟨p.mem, u.ptr⟩
    if bwr.ret < 0 then binderOut codes abi sys u bwr bwr.ret m 0 touched calls
    else
      match marshalerMarshal bcodes vm m bwr.read with
      | (.fault, _) => ⟨touched, calls, [], .fault⟩
      | (.ret ret, m) =>
        binderOut codes abi sys u bwr ret m (if ret < 0 then 0 else m.writePtr) touched calls
  else ⟨touched, [], [], .fault⟩

/-- The cases of the switch of `worker_loop`. -/
def handleCall (block : ℕ) (u : Upcall) : VenusCall → HandlerRun
  | .close => handleClose codes abi sys u
  | .pipe => handlePipe codes abi sys junk u
  | .socket => handleSocket codes abi sys u
  | .poll => handlePoll codes abi sys u
  | .binderWriteRead => handleBinderWriteRead codes abi bcodes vm sys junk block u
  | .alienMmap2 => handleAlienMmap2 codes abi sys u
  | .futexWait => handleFutexWait codes abi sys u
  | .futexWake => handleFutexWake codes abi sys u

/-- What `worker_loop` does with an upcall; an unknown opcode is reported and passed over. -/
def workerHandle (block : ℕ) (u : Upcall) : HandlerRun :=
  let touched := u.touchFields [0]
  match codes.decode u.opcode with
  | some k =>
    let run := handleCall codes abi bcodes vm sys junk block u k
    { run with touched := touched ++ run.touched }
  | none => ⟨touched, [], [], .ret 0⟩

end ExpressOS

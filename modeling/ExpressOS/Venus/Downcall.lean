import ExpressOS.Binder.Marshaler
import ExpressOS.Venus.Upcall

/-!
# Downcalls and the world of the handlers

What a handler is given besides its upcall: where the fields of the upcall structures lie, and
what the system calls answer. Both come from outside of venus and are parameters. What it
produces: the downcalls it sends and the bytes it reaches through the upcall pointer.
-/

namespace ExpressOS
open Systems

/-- Where the fields of the payload structures lie, counted from the upcall pointer, and how large
the structures of the replies are. Every field is one word, except the two words of the
`timespec` at `waitTs` and the arrays at `pollFds` and `bwrPayload`. -/
structure VenusLayout where
  closeFd : ℕ
  socketDomain : ℕ
  socketType : ℕ
  socketProtocol : ℕ
  pollNfds : ℕ
  pollTimeout : ℕ
  pollBuffer : ℕ
  pollFds : ℕ
  bwrBuffer : ℕ
  bwrWriteSize : ℕ
  patchTableEntryNum : ℕ
  patchTableOffset : ℕ
  bwrPayload : ℕ
  mmapAddr : ℕ
  mmapLength : ℕ
  mmapProt : ℕ
  mmapFlags : ℕ
  mmapFd : ℕ
  mmapPgoffset : ℕ
  waitOp : ℕ
  waitTs : ℕ
  waitUaddr : ℕ
  waitVal : ℕ
  waitBitset : ℕ
  wakeUaddr : ℕ
  wakeOp : ℕ
  wakeBitset : ℕ
  pipeOutSize : ℕ
  pollOutSize : ℕ
  bwrOutSize : ℕ
  pollOutSize_lt : pollOutSize < 2 ^ 16
  bwrOutSize_lt : bwrOutSize < 2 ^ 16

/-- `sizeof (u->async.handle)`, and `sizeof (long)` of the 32-bit machine. -/
def handleSize : ℕ := 4
def longSize : ℕ := 4

/-- `async.handle` is the first field behind the header. -/
def handleOffset : ℕ := 8

def toSigned (w : ℕ) : ℤ := if w < 2 ^ 31 then w else w - 2 ^ 32

/-- `struct expressos_venus_hdr` -/
structure VenusHdr where
  opcode : ℕ
  payloadSize : ℕ
  deriving DecidableEq, Repr

def initDowncallHdr (type payloadSize : ℕ) : VenusHdr :=
  ⟨type, payloadSize⟩

/-- `struct expressos_venus_binder_write_read_out` -/
structure BwrOut where
  buffer : ℕ
  ret : ℤ
  writeConsumed : ℕ
  readConsumed : ℕ
  payloadSize : ℕ
  dataEntries : ℕ
  payload : List UInt8
  deriving DecidableEq, Repr

/-- The members of the union in `struct expressos_venus_downcall` that handlers fill in. -/
inductive DowncallBody
  | ret (ret : ℤ)
  | pipe (ret : ℤ) (readPipe writePipe : ℕ)
  | asyncRet (handle : ℕ) (ret : ℤ)
  | poll (handle buffer : ℕ) (ret : ℤ) (fds : List UInt8)
  | bwr (handle : ℕ) (out : BwrOut)
  deriving DecidableEq, Repr

/-- `async.handle` of a downcall, in the members that have it. -/
def DowncallBody.handle : DowncallBody → Option ℕ
  | .ret _ | .pipe _ _ _ => none
  | .asyncRet handle _ | .poll handle _ _ _ | .bwr handle _ => some handle

def DowncallBody.result : DowncallBody → ℤ
  | .ret r | .pipe r _ _ | .asyncRet _ r | .poll _ _ r _ => r
  | .bwr _ out => out.ret

structure Downcall where
  hdr : VenusHdr
  body : DowncallBody
  deriving DecidableEq, Repr

/-- The value a system call returns, and `errno` after it. -/
structure SysResult where
  ret : ℤ
  errno : ℤ
  deriving DecidableEq, Repr

/-- `if (retval < 0) retval = -errno;` -/
def SysResult.value (r : SysResult) : ℤ :=
  if r.ret < 0 then -r.errno else r.ret

/-- What the `BINDER_WRITE_READ` ioctl does to `struct binder_write_read` and the read buffer. -/
structure BinderReply where
  ret : ℤ
  writeConsumed : ℕ
  read : List UInt8
  read_le : read.length ≤ readBufferSize

/-- The outcomes of the calls that a handler makes. `binderWriteRead` is given the write buffer,
`poll` the `pollfd` array, `futex` the timeout if there is one; `malloc` says whether a block is
there. -/
structure Kernel where
  close : ℕ → SysResult
  pipe : SysResult × ℕ × ℕ
  socket : ℕ → ℕ → ℕ → SysResult
  poll : List UInt8 → ℕ → ℕ → SysResult × List UInt8
  mmap : ℕ → ℕ → ℕ → ℕ → ℕ → ℕ → ℕ × ℤ
  futex : ℕ → ℕ → ℕ → Option (List UInt8) → ℕ → ℤ
  binderWriteRead : List UInt8 → BinderReply
  sendDowncall : Downcall → ℤ
  malloc : Bool

/-- What the stack held before: the array of `handle_pipe` and the buffer of the marshaler. -/
structure Leftover where
  pipefd : ℕ × ℕ
  buffer : Memory

/-- Some bytes that are reached through the upcall pointer. -/
structure Touch where
  addr : ℕ
  len : ℕ
  deriving DecidableEq, Repr

def Touch.Inside (t : Touch) (base size : ℕ) : Prop :=
  t.len = 0 ∨ base ≤ t.addr ∧ t.addr + t.len ≤ base + size

instance (t : Touch) (base size : ℕ) : Decidable (t.Inside base size) :=
  inferInstanceAs (Decidable (_ ∨ _))

namespace Upcall

variable (u : Upcall)

def touch (off len : ℕ) : Touch := ⟨u.ptr + off, len⟩

def field (off : ℕ) : ℕ := u.mem.word (u.ptr + off)

def touchFields (offs : List ℕ) : List Touch :=
  offs.map (fun off => u.touch off 4)

end Upcall

/-- A call that a handler makes, with its arguments and what it returns. A place is counted from
the start of the block that `malloc` has returned; `memcpy` copies `bytes` there. -/
inductive HandlerCall
  | close (fd : ℕ) (r : SysResult)
  | pipe (r : SysResult)
  | socket (domain type protocol : ℕ) (r : SysResult)
  | malloc (size : ℕ) (block : Bool)
  | memcpy (place : ℕ) (bytes : List UInt8)
  | poll (place nfds timeout : ℕ) (r : SysResult)
  | mmap (addr length prot flags fd offset : ℕ) (r : ℕ × ℤ)
  | futex (uaddr op val : ℕ) (ts : Option (List UInt8)) (bitset : ℕ) (r : ℤ)
  | binderWriteRead (write : List UInt8) (r : ℤ)
  deriving DecidableEq, Repr

/-- What a handler has done when it ends. A fault is a write outside of a block of the heap, after
which C promises nothing. -/
structure HandlerRun where
  touched : List Touch
  calls : List HandlerCall
  sent : List Downcall
  outcome : Outcome
  deriving DecidableEq, Repr

/-- A handler that ends with `return send_downcall(d)`. -/
def HandlerRun.reply (sys : Kernel) (touched : List Touch) (calls : List HandlerCall)
    (d : Downcall) : HandlerRun :=
  ⟨touched, calls, [d], .ret (sys.sendDowncall d)⟩

end ExpressOS

import ExpressOS.Binder.Commands

/-!
# The marshaler of the read buffer

`venus/binder.c`. Pointers into the output buffer are offsets from `buf`: every address the code
forms there stays below `buf + READ_BUFFER_SIZE + 44`, inside the buffer object, so no sum of
them wraps. The one sum that can wrap, the capacity check of `append_data_segments`, is taken
modulo `2 ^ 32`.
-/

namespace ExpressOS
open Systems

def maxSegmentNum : ℕ := 16
def readBufferSize : ℕ := 8 * 1024
def marshalerBufSize : ℕ := 16 * 1024
def binderVmSize : ℕ := 4 * 1024 * 1024 - 4096

def EFAULT : ℤ := 14
def ENOMEM : ℤ := 12

/-- The Binder mapping: where it starts, and the memory of the process it lies in. -/
structure BinderVm where
  start : ℕ
  mem : Memory
  fits : start + binderVmSize < 2 ^ 32

/-- The range check of `record_segment`. -/
def BinderVm.contains (vm : BinderVm) (p : ℕ) : Prop :=
  vm.start ≤ p ∧ p < vm.start + binderVmSize

instance (vm : BinderVm) (p : ℕ) : Decidable (vm.contains p) :=
  inferInstanceAs (Decidable (_ ∧ _))

structure DataSegment where
  offset : ℕ
  length : ℕ
  deriving DecidableEq, Repr

/-- `sizeof (struct data_segment)` -/
def dataSegmentSize : ℕ := 8

def DataSegment.header (e : DataSegment) : List UInt8 :=
  leBytes 4 e.offset ++ leBytes 4 e.length

@[simp] lemma DataSegment.length_header (e : DataSegment) :
    e.header.length = dataSegmentSize := by
  simp [header, dataSegmentSize]

/-- `sizeof (struct data_segment) + e->length` in `size_t`. -/
def DataSegment.space (e : DataSegment) : ℕ :=
  (dataSegmentSize + e.length) % 2 ^ 32

/-- What the marshaler does to memory. Offsets count from `buf`, except in `vmRead`, where they
count from `g_binder_vm_start`. -/
inductive Access
  | fill (len : ℕ)
  | read (off len : ℕ)
  | patch (off : ℕ)
  | entry (i : ℕ)
  | append (off len : ℕ)
  | vmRead (off len : ℕ)
  | writePtr (p : ℕ)
  deriving DecidableEq, Repr

/-- `struct ipc_marshaler`; `segments` holds the entries below `data_entries`, and `accesses`
records, latest first, what has been done to memory. -/
structure IpcMarshaler where
  buf : Memory
  bufSize : ℕ
  writePtr : ℕ
  segments : List DataSegment
  accesses : List Access

namespace IpcMarshaler

def dataEntries (m : IpcMarshaler) : ℕ := m.segments.length

def note (m : IpcMarshaler) (a : Access) : IpcMarshaler :=
  { m with accesses := a :: m.accesses }

def setWritePtr (m : IpcMarshaler) (p : ℕ) : IpcMarshaler :=
  { m with writePtr := p, accesses := .writePtr p :: m.accesses }

/-- The marshaler that `handle_binder_write_read` initialises; the stack buffer holds `junk`. -/
def fresh (junk : Memory) : IpcMarshaler :=
  ⟨junk, marshalerBufSize, 0, [], []⟩

end IpcMarshaler

/-- How a call ends: it returns, or a `memcpy` leaves its destination, after which C promises
nothing. -/
inductive Outcome
  | ret (r : ℤ)
  | fault
  deriving DecidableEq, Repr

def recordSegment (vm : BinderVm) (m : IpcMarshaler) (ptr length : ℕ) : ℤ × IpcMarshaler :=
  if m.dataEntries ≥ maxSegmentNum then (-ENOMEM, m)
  else
    let dataPtr := m.buf.word ptr
    let m := m.note (.read ptr 4)
    if vm.contains dataPtr then
      let e : DataSegment := ⟨dataPtr - vm.start, length⟩
      (0, { m with
        segments := m.segments ++ [e]
        buf := m.buf.setWord ptr e.offset
        accesses := .patch ptr :: .entry m.dataEntries :: m.accesses })
    else (-EFAULT, m)

/-- One half of `marshal_transaction`: the size field at `size`, and the pointer field at `ptr`
that is recorded when the size is not zero. -/
def marshalField (vm : BinderVm) (m : IpcMarshaler) (size ptr : ℕ) : ℤ × IpcMarshaler :=
  let length := m.buf.word size
  let m := m.note (.read size 4)
  if length ≠ 0 then recordSegment vm m ptr length else (0, m)

def marshalTransaction (vm : BinderVm) (m : IpcMarshaler) (tr : ℕ) : ℤ × IpcMarshaler :=
  match marshalField vm m (tr + 24) (tr + 32) with
  | (ret, m) =>
    if ret < 0 then (ret, m)
    else
      match marshalField vm m (tr + 28) (tr + 36) with
      | (ret, m) => if ret < 0 then (ret, m) else (0, m)

/-- The `while` loop of `marshaler_marshal`: `some r` when it returns `r`, `none` when it runs to
its end. -/
def marshalLoop (codes : BinderCodes) (vm : BinderVm) (stop : ℕ) (m : IpcMarshaler) (ptr : ℕ) :
    Option ℤ × IpcMarshaler :=
  if ptr < stop then
    if ptr + 4 > stop then (some (-EFAULT), m)
    else
      let cmd := m.buf.word ptr
      let m := m.note (.read ptr 4)
      match (codes.decode cmd).map BrCommand.body with
      | some .skip => marshalLoop codes vm stop m (ptr + 4)
      | some .transaction =>
        if ptr + 4 + 40 > stop then (some (-EFAULT), m)
        else
          match marshalTransaction vm m (ptr + 4) with
          | (ret, m) =>
            if ret < 0 then (some ret, m) else marshalLoop codes vm stop m (ptr + 4 + 40)
      -- two pointers are skipped whether or not the buffer still holds them
      | some .refs => marshalLoop codes vm stop m (ptr + 4 + 8)
      | none => (some (-1), m)
  else (none, m)
termination_by stop - ptr

def appendDataSegments (vm : BinderVm) : List DataSegment → IpcMarshaler → Outcome × IpcMarshaler
  | [], m => (.ret 0, m)
  | e :: es, m =>
    if m.bufSize - m.writePtr < e.space then (.ret (-ENOMEM), m)
    else
      let m := m.note (.append m.writePtr dataSegmentSize)
      if m.bufSize < m.writePtr + dataSegmentSize then (.fault, m)
      else
        let m := { m with buf := m.buf.write m.writePtr e.header }
        let m := m.setWritePtr (m.writePtr + dataSegmentSize)
        let m := (m.note (.vmRead e.offset e.length)).note (.append m.writePtr e.length)
        if m.bufSize < m.writePtr + e.length then (.fault, m)
        else
          let m := { m with
            buf := m.buf.write m.writePtr (vm.mem.read (vm.start + e.offset) e.length) }
          appendDataSegments vm es (m.setWritePtr (m.writePtr + e.length))

/-- The copy of the read buffer `R` to the front of the output buffer. -/
def marshalCopy (m : IpcMarshaler) (R : List UInt8) : IpcMarshaler :=
  let m := m.setWritePtr 0
  let m := { m with buf := m.buf.write 0 R, accesses := .fill R.length :: m.accesses }
  m.setWritePtr R.length

def marshalerMarshal (codes : BinderCodes) (vm : BinderVm) (m : IpcMarshaler) (R : List UInt8) :
    Outcome × IpcMarshaler :=
  match marshalLoop codes vm R.length (marshalCopy m R) 0 with
  | (some r, m) => (.ret r, m)
  | (none, m) =>
    match appendDataSegments vm m.segments m with
    | (.fault, m) => (.fault, m)
    | (.ret r, m) => if r ≠ 0 then (.ret (-1), m) else (.ret 0, m)

end ExpressOS

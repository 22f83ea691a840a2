import ExpressOS.Systems.CodeTable
import ExpressOS.Systems.Memory
import ExpressOS.Systems.Stream

/-!
# Upcalls

`struct expressos_venus_upcall`: an eight-byte header of two words, `opcode` and `payload_size`,
and then the payload, whose first word is the handle in the asynchronous calls. The numbers of the
calls are fixed outside of venus and stay a parameter.
-/

namespace ExpressOS
open Systems

/-- The upcalls that `worker_loop` dispatches. -/
inductive VenusCall
  | close
  | pipe
  | socket
  | poll
  | binderWriteRead
  | alienMmap2
  | futexWait
  | futexWake
  deriving DecidableEq, Repr

/-- The opcodes of `expressos/venus.h`: distinct words below `EXPRESSOS_VENUS_CALL_COUNT`. -/
structure VenusCodes extends CodeTable VenusCall where
  callCount : ℕ
  code_lt : ∀ k, code k < callCount
  callCount_le : callCount ≤ 2 ^ 32

/-- The calls that `find_worker` routes by handle. -/
def VenusCall.isAsync : VenusCall → Bool
  | .socket | .binderWriteRead | .poll | .futexWait | .futexWake => true
  | .close | .pipe | .alienMmap2 => false

/-- `sizeof (struct expressos_venus_hdr)` -/
def hdrSize : ℕ := 8

/-- `const struct expressos_venus_upcall *`: an address, and the memory it points into. -/
structure Upcall where
  mem : Memory
  ptr : ℕ

namespace Upcall

def opcode (u : Upcall) : ℕ := u.mem.word u.ptr
def payloadSize (u : Upcall) : ℕ := u.mem.word (u.ptr + 4)

/-- `async.handle` -/
def handle (u : Upcall) : ℕ := u.mem.word (u.ptr + 8)

/-- `sizeof (struct expressos_venus_hdr) + hdr.payload_size` in `size_t`. -/
def size (u : Upcall) : ℕ := (hdrSize + u.payloadSize) % 2 ^ 32

/-- The copy that `post_upcall` makes. -/
def copy (u : Upcall) : List UInt8 := u.mem.read u.ptr u.size

lemma size_of_lt {u : Upcall} (h : hdrSize + u.payloadSize < 2 ^ 32) :
    u.size = hdrSize + u.payloadSize :=
  Nat.mod_eq_of_lt h

end Upcall

/-- A whole upcall as the kernel sends it. -/
@[ext]
structure Frame where
  opcode : ℕ
  payload : List UInt8
  opcode_lt : opcode < 2 ^ 32
  payload_lt : payload.length < 2 ^ 32
  deriving DecidableEq

namespace Frame

def size (f : Frame) : ℕ := hdrSize + f.payload.length

def encode (f : Frame) : List UInt8 :=
  leBytes 4 f.opcode ++ leBytes 4 f.payload.length ++ f.payload

@[simp] lemma length_encode (f : Frame) : f.encode.length = f.size := by
  simp only [encode, size, hdrSize, List.length_append, length_leBytes]

lemma size_pos (f : Frame) : 0 < f.size := by
  unfold size hdrSize
  omega

end Frame

/-- The `payload_size` of the header at the front of some bytes. -/
def headPayloadSize (bs : List UInt8) : ℕ :=
  leNat ((bs.drop 4).take 4)

lemma headPayloadSize_lt (bs : List UInt8) : headPayloadSize bs < 2 ^ 32 :=
  leNat_lt_word (by simp)

/-- The whole frame at the front of some bytes, and the bytes after it. -/
def splitFrame (bs : List UInt8) : Option (Frame × List UInt8) :=
  if h : hdrSize ≤ bs.length ∧ hdrSize + headPayloadSize bs ≤ bs.length then
    some (⟨leNat (bs.take 4), (bs.drop hdrSize).take (headPayloadSize bs),
      leNat_lt_word (by simp), by
        have hlt := headPayloadSize_lt bs
        simp only [List.length_take]
        omega⟩, bs.drop (hdrSize + headPayloadSize bs))
  else none

lemma headPayloadSize_encode (f : Frame) (rest : List UInt8) :
    headPayloadSize (f.encode ++ rest) = f.payload.length := by
  unfold headPayloadSize Frame.encode
  rw [List.append_assoc, List.append_assoc, List.drop_left' (by simp), List.take_left' (by simp),
    leNat_leBytes_word f.payload_lt]

lemma headOpcode_encode (f : Frame) (rest : List UInt8) :
    leNat ((f.encode ++ rest).take 4) = f.opcode := by
  rw [Frame.encode, List.append_assoc, List.append_assoc, List.take_left' (by simp),
    leNat_leBytes_word f.opcode_lt]

lemma splitFrame_encode (f : Frame) (rest : List UInt8) :
    splitFrame (f.encode ++ rest) = some (f, rest) := by
  have hpayload : ((f.encode ++ rest).drop hdrSize).take f.payload.length = f.payload := by
    rw [Frame.encode, List.append_assoc, List.drop_left' (by simp [hdrSize]), List.take_left' rfl]
  have hrest : (f.encode ++ rest).drop (hdrSize + f.payload.length) = rest :=
    List.drop_left' (by simp [Frame.size])
  have hfits : hdrSize ≤ (f.encode ++ rest).length ∧
      hdrSize + headPayloadSize (f.encode ++ rest) ≤ (f.encode ++ rest).length := by
    rw [headPayloadSize_encode, List.length_append, Frame.length_encode, Frame.size]
    omega
  rw [splitFrame, dif_pos hfits]
  simp only [headPayloadSize_encode, headOpcode_encode, hpayload, hrest]

lemma splitFrame_some {bs rest : List UInt8} {f : Frame} (h : splitFrame bs = some (f, rest)) :
    bs = f.encode ++ rest := by
  unfold splitFrame at h
  split at h
  · rename_i hfits
    simp only [Option.some.injEq, Prod.mk.injEq] at h
    obtain ⟨rfl, rfl⟩ := h
    have hlen : ((bs.drop hdrSize).take (headPayloadSize bs)).length = headPayloadSize bs := by
      simp only [List.length_take, List.length_drop]
      omega
    have hopcode : leBytes 4 (leNat (bs.take 4)) = bs.take 4 := by
      have htake : (bs.take 4).length = 4 := by
        simp only [List.length_take]
        unfold hdrSize at hfits
        omega
      simpa only [htake] using leBytes_leNat (bs.take 4)
    have hsize : leBytes 4 (headPayloadSize bs) = (bs.drop 4).take 4 := by
      have htake : ((bs.drop 4).take 4).length = 4 := by
        simp only [List.length_take, List.length_drop]
        unfold hdrSize at hfits
        omega
      simpa only [htake, headPayloadSize] using leBytes_leNat ((bs.drop 4).take 4)
    have hdrop : bs.drop hdrSize = (bs.drop 4).drop 4 := by simp [hdrSize]
    simp only [Frame.encode, hlen, hopcode, hsize]
    rw [← List.drop_drop, List.append_assoc, List.take_append_drop, List.append_assoc, hdrop,
      List.take_append_drop, List.take_append_drop]
  · cases h

/-- Glue buffers as streams of frames. -/
def frameStream : StreamCode UInt8 Frame where
  encode := Frame.encode
  split := splitFrame
  split_encode := splitFrame_encode
  encode_of_split := splitFrame_some
  encode_ne_nil := fun f h => by
    have hlen := congrArg List.length h
    simp [Frame.size, hdrSize] at hlen

@[simp] lemma frameStream_encode (f : Frame) : frameStream.encode f = f.encode := rfl

lemma splitFrame_eq_none_iff {bs : List UInt8} :
    splitFrame bs = none ↔ bs.length < hdrSize ∨ bs.length < hdrSize + headPayloadSize bs := by
  unfold splitFrame
  split
  · simp only [reduceCtorEq, false_iff]
    omega
  · simp only [true_iff]
    omega

lemma Upcall.of_read_frame {mem : Memory} {p n : ℕ} {f : Frame} {rest : List UInt8}
    (h : mem.read p n = f.encode ++ rest) :
    (Upcall.mk mem p).opcode = f.opcode ∧ (Upcall.mk mem p).payloadSize = f.payload.length ∧
      mem.read p f.size = f.encode := by
  have hread : mem.read p f.encode.length = f.encode := (Memory.read_of_append h).1
  rw [Frame.length_encode] at hread
  have hsize : 8 ≤ f.size := by simp [Frame.size, hdrSize]
  refine ⟨?_, ?_, hread⟩
  · have hword := Memory.word_eq_of_read hread (i := 0) (by omega)
    rw [Nat.add_zero, List.drop_zero] at hword
    rw [Upcall.opcode, hword]
    simpa using headOpcode_encode f []
  · have hword := Memory.word_eq_of_read hread (i := 4) (by omega)
    rw [Upcall.payloadSize, hword]
    simpa [headPayloadSize] using headPayloadSize_encode f []

end ExpressOS

import ExpressOS.Systems.CodeTable
import ExpressOS.Systems.Memory
import ExpressOS.Systems.Stream

/-!
# Binder return commands

The read buffer of the Binder driver is a stream of return commands: a four-byte command word
followed by the arguments of that command. Sizes are those of the 32-bit driver: a
`binder_transaction_data` is 40 bytes and the reference-count commands carry two pointers.
-/

namespace ExpressOS
open Systems

/-- The return commands that the switch of `marshaler_marshal` names. -/
inductive BrCommand
  | noop
  | transactionComplete
  | spawnLooper
  | transaction
  | reply
  | increfs
  | decrefs
  | acquire
  | release
  deriving DecidableEq, Repr

/-- The bodies of that switch: labels that share a body fall through to it. -/
inductive SwitchBody
  | skip
  | transaction
  | refs
  deriving DecidableEq, Repr

def BrCommand.body : BrCommand → SwitchBody
  | .noop | .transactionComplete | .spawnLooper => .skip
  | .transaction | .reply => .transaction
  | .increfs | .decrefs | .acquire | .release => .refs

/-- Bytes of arguments after the command word: none, one `binder_transaction_data`, or two
pointers. -/
def SwitchBody.argSize : SwitchBody → ℕ
  | .skip => 0
  | .transaction => 40
  | .refs => 8

def BrCommand.argSize (k : BrCommand) : ℕ :=
  k.body.argSize

/-- The command words of `linux/binder.h`. They are the labels of one switch over a 32-bit word,
so they are distinct words. -/
structure BinderCodes extends CodeTable BrCommand where
  code_lt : ∀ k, code k < 2 ^ 32

/-- The words of the 32-bit driver: `_IO('r', nr)` for the commands without arguments and
`_IOR('r', nr, T)` with the size of `T` for the others. -/
def driverCodes : BinderCodes where
  all := [.noop, .transactionComplete, .spawnLooper, .transaction, .reply, .increfs, .decrefs,
    .acquire, .release]
  mem_all := by intro k; cases k <;> simp
  code
    | .noop => 0x0000720c
    | .transactionComplete => 0x00007206
    | .spawnLooper => 0x0000720d
    | .transaction => 0x80287202
    | .reply => 0x80287203
    | .increfs => 0x80087207
    | .acquire => 0x80087208
    | .release => 0x80087209
    | .decrefs => 0x8008720a
  code_lt := by intro k; cases k <;> decide
  code_injective := by intro j k h; cases j <;> cases k <;> simp_all

/-- A whole return command: its label and exactly the argument bytes that label calls for. -/
@[ext]
structure Command where
  kind : BrCommand
  args : List UInt8
  length_args : args.length = kind.argSize

namespace Command

def argWord (c : Command) (i : ℕ) : ℕ :=
  leNat ((c.args.drop i).take 4)

lemma argWord_lt (c : Command) (i : ℕ) : c.argWord i < 2 ^ 32 :=
  leNat_lt_word (by simp)

/-- `data_size` and `offsets_size` of a transaction record. -/
def dataSize (c : Command) : ℕ := c.argWord 24
def offsetsSize (c : Command) : ℕ := c.argWord 28

/-- `data.ptr.buffer` and `data.ptr.offsets` of a transaction record. -/
def dataPtr (c : Command) : ℕ := c.argWord 32
def offsetsPtr (c : Command) : ℕ := c.argWord 36

def encode (codes : BinderCodes) (c : Command) : List UInt8 :=
  leBytes 4 (codes.code c.kind) ++ c.args

@[simp] lemma length_encode (codes : BinderCodes) (c : Command) :
    (c.encode codes).length = 4 + c.kind.argSize := by
  simp [encode, c.length_args]

end Command

/-- The first word of a command in memory. -/
lemma word_command {codes : BinderCodes} {mem : Memory} {c : Command} {a : ℕ}
    (h : mem.read a (c.encode codes).length = c.encode codes) :
    mem.word a = codes.code c.kind := by
  have hhead := (Memory.read_of_append h).1
  rw [length_leBytes] at hhead
  rw [Memory.word, hhead, leNat_leBytes_word (codes.code_lt _)]

/-- The whole command at the front of a stream, and the bytes after it. -/
def splitCommand (codes : BinderCodes) (bs : List UInt8) : Option (Command × List UInt8) :=
  if bs.length < 4 then none
  else
    match codes.decode (leNat (bs.take 4)) with
    | none => none
    | some k =>
      if h : 4 + k.argSize ≤ bs.length then
        some (⟨k, (bs.drop 4).take k.argSize, by simp; omega⟩, bs.drop (4 + k.argSize))
      else none

lemma splitCommand_encode (codes : BinderCodes) (c : Command) (rest : List UInt8) :
    splitCommand codes (c.encode codes ++ rest) = some (c, rest) := by
  have hword : leNat ((c.encode codes ++ rest).take 4) = codes.code c.kind := by
    rw [Command.encode, List.append_assoc, List.take_left' (by simp),
      leNat_leBytes_word (codes.code_lt _)]
  have hargs : ((c.encode codes ++ rest).drop 4).take c.kind.argSize = c.args := by
    rw [Command.encode, List.append_assoc, List.drop_left' (by simp),
      List.take_left' c.length_args]
  have hrest : (c.encode codes ++ rest).drop (4 + c.kind.argSize) = rest :=
    List.drop_left' (by simp)
  have hlen : ¬ (c.encode codes ++ rest).length < 4 := by
    simp only [List.length_append, Command.length_encode]
    omega
  rw [splitCommand, if_neg hlen, hword]
  simp only [CodeTable.decode_code]
  rw [dif_pos (by simp)]
  simp only [hargs, hrest]

lemma splitCommand_some {codes : BinderCodes} {bs rest : List UInt8} {c : Command}
    (h : splitCommand codes bs = some (c, rest)) : bs = c.encode codes ++ rest := by
  unfold splitCommand at h
  split at h
  · cases h
  · rename_i hlen
    split at h
    · cases h
    · rename_i k hk
      split at h
      · rename_i hargs
        simp only [Option.some.injEq, Prod.mk.injEq] at h
        obtain ⟨rfl, rfl⟩ := h
        have hcode : leBytes 4 (codes.code k) = bs.take 4 := by
          have htake : (bs.take 4).length = 4 := by simp; omega
          have hword := leBytes_leNat (bs.take 4)
          rw [htake] at hword
          rw [codes.code_of_decode hk, hword]
        simp only [Command.encode, hcode]
        rw [List.append_assoc, ← List.drop_drop, List.take_append_drop, List.take_append_drop]
      · cases h

lemma length_lt_of_splitCommand_none {codes : BinderCodes} {bs : List UInt8} {k : BrCommand}
    (h : splitCommand codes bs = none) (hlen : 4 ≤ bs.length)
    (hk : codes.decode (leNat (bs.take 4)) = some k) : bs.length < 4 + k.argSize := by
  by_contra hlong
  have hfit : 4 + k.argSize ≤ bs.length := by omega
  unfold splitCommand at h
  rw [if_neg (by omega), hk] at h
  simp [hfit] at h

/-- Read buffers as streams of commands. -/
def BinderCodes.stream (codes : BinderCodes) : StreamCode UInt8 Command where
  encode := Command.encode codes
  split := splitCommand codes
  split_encode := splitCommand_encode codes
  encode_of_split := splitCommand_some
  encode_ne_nil := fun c h => by
    have hlen := congrArg List.length h
    simp at hlen

@[simp] lemma BinderCodes.stream_encode (codes : BinderCodes) (c : Command) :
    codes.stream.encode c = c.encode codes := rfl

lemma BinderCodes.length_encodeAll_cons (codes : BinderCodes) (c : Command) (cs : List Command) :
    (codes.stream.encodeAll (c :: cs)).length =
      4 + c.kind.argSize + (codes.stream.encodeAll cs).length := by
  rw [StreamCode.encodeAll_cons, List.length_append, stream_encode, Command.length_encode]

lemma BinderCodes.length_encodeAll_split (codes : BinderCodes) (pre post : List Command)
    (c : Command) :
    (codes.stream.encodeAll (pre ++ c :: post)).length =
      (codes.stream.encodeAll pre).length +
        (4 + c.kind.argSize + (codes.stream.encodeAll post).length) := by
  rw [StreamCode.encodeAll_append, List.length_append, codes.length_encodeAll_cons]

end ExpressOS

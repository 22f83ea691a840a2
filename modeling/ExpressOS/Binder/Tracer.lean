import ExpressOS.Binder.Acceptance

/-!
# The tracer

`libr2` prints the Binder traffic of a process. Its `dump_transaction` takes every word of a buffer
for a possible command, where `marshaler_marshal` goes from command to command.
-/

namespace ExpressOS
open Systems

/-- `BC_TRANSACTION` is a command of the other direction, and none of the return commands. -/
structure TracerCodes extends BinderCodes where
  bcTransaction : ℕ
  code_ne_bcTransaction : ∀ k, code k ≠ bcTransaction

/-- With `_IOW('c', 0, struct binder_transaction_data)`. -/
def tracedCodes : TracerCodes where
  toBinderCodes := driverCodes
  bcTransaction := 0x40286300
  code_ne_bcTransaction := by intro k; cases k <;> decide

/-- What is printed for one command: the words of the data, and those of the offsets. -/
structure Dump where
  cmd : ℕ
  dataSize : ℕ
  data : List ℕ
  offsetsSize : ℕ
  offsets : List ℕ
  deriving DecidableEq, Repr

/-- `size + 3` is taken in `size_t`. -/
def dumpMemory (mem : Memory) (loc size : ℕ) : List ℕ :=
  (List.range ((size + 3) % 2 ^ 32 / 4)).map (fun i => mem.word (loc + 4 * i))

/-- The body of the loop for the record behind a command. -/
def dumpRecord (mem : Memory) (pCmd : ℕ) : Dump :=
  let tr := pCmd + 4
  let dataSize := mem.word (tr + 24)
  let offsetsSize := mem.word (tr + 28)
  ⟨pCmd, dataSize, dumpMemory mem (mem.word (tr + 32)) dataSize,
    offsetsSize, dumpMemory mem (mem.word (tr + 36)) offsetsSize⟩

def dumpLoop (codes : TracerCodes) (mem : Memory) (stop pCmd : ℕ) : List Dump :=
  if pCmd < stop then
    if mem.word pCmd ≠ codes.bcTransaction ∧ mem.word pCmd ≠ codes.code .reply then
      dumpLoop codes mem stop (pCmd + 4)
    else dumpRecord mem pCmd :: dumpLoop codes mem stop (pCmd + 4)
  else []
termination_by stop - pCmd

def dumpTransaction (codes : TracerCodes) (mem : Memory) (buffer offset size : ℕ) : List Dump :=
  dumpLoop codes mem (buffer + size) (buffer + offset)

/-- The loop of `marshaler_marshal` once more, for the commands that its switch meets: where they
are, and which. -/
def marshalVisits (codes : BinderCodes) (vm : BinderVm) (stop : ℕ) (m : IpcMarshaler) (ptr : ℕ) :
    List (ℕ × ℕ) :=
  if ptr + 4 ≤ stop then
    (ptr, m.buf.word ptr) ::
      match _h : marshalTurn codes vm stop m ptr with
      | (some _, _, _) => []
      | (none, m, next) => marshalVisits codes vm stop m next
  else []
termination_by stop - ptr
decreasing_by
  have hlt := marshalTurn_lt codes vm _h
  omega

lemma dumpLoop_of_lt {codes : TracerCodes} {mem : Memory} {stop pCmd : ℕ} (h : pCmd < stop) :
    dumpLoop codes mem stop pCmd =
      (if mem.word pCmd = codes.bcTransaction ∨ mem.word pCmd = codes.code .reply then
        [dumpRecord mem pCmd] else []) ++ dumpLoop codes mem stop (pCmd + 4) := by
  rw [dumpLoop, if_pos h]
  by_cases hcmd : mem.word pCmd = codes.bcTransaction ∨ mem.word pCmd = codes.code .reply
  · rw [if_pos hcmd, if_neg (by rwa [← not_or, not_not])]
    rfl
  · rw [if_neg hcmd, if_pos (not_or.mp hcmd)]
    rfl

/-- Every fourth address is looked at. -/
lemma mem_dumpLoop_iff {codes : TracerCodes} {mem : Memory} {d : Dump} (n p : ℕ) :
    d ∈ dumpLoop codes mem (p + 4 * n) p ↔
      ∃ i < n, (mem.word (p + 4 * i) = codes.bcTransaction ∨
        mem.word (p + 4 * i) = codes.code .reply) ∧ d = dumpRecord mem (p + 4 * i) := by
  induction n generalizing p with
  | zero =>
    rw [dumpLoop, if_neg (by omega)]
    simp
  | succ n ih =>
    have hstop : p + 4 * (n + 1) = p + 4 + 4 * n := by omega
    have hmove : ∀ i, p + 4 + 4 * i = p + 4 * (i + 1) := fun i => by omega
    rw [dumpLoop_of_lt (by omega), List.mem_append, hstop, ih]
    simp only [hmove]
    constructor
    · rintro (hhere | ⟨i, hi, hrest⟩)
      · split_ifs at hhere with hcmd
        · exact ⟨0, by omega, hcmd, List.mem_singleton.mp hhere⟩
        · cases hhere
      · exact ⟨i + 1, by omega, hrest⟩
    · rintro ⟨_ | i, hi, hcmd, hd⟩
      · rw [if_pos (by exact hcmd)]
        exact .inl (List.mem_singleton.mpr hd)
      · exact .inr ⟨i, by omega, hcmd, hd⟩

section Visits

variable {codes : BinderCodes} {vm : BinderVm} {stop ptr next : ℕ} {m m1 : IpcMarshaler}

lemma marshalVisits_of_some {r : ℤ} (hfull : ptr + 4 ≤ stop)
    (h : marshalTurn codes vm stop m ptr = (some r, m1, next)) :
    marshalVisits codes vm stop m ptr = [(ptr, m.buf.word ptr)] := by
  rw [marshalVisits, if_pos hfull]
  split
  · rfl
  · rename_i h'
    rw [h] at h'
    cases h'

lemma marshalVisits_of_none (hfull : ptr + 4 ≤ stop)
    (h : marshalTurn codes vm stop m ptr = (none, m1, next)) :
    marshalVisits codes vm stop m ptr =
      (ptr, m.buf.word ptr) :: marshalVisits codes vm stop m1 next := by
  rw [marshalVisits, if_pos hfull]
  split
  · rename_i h'
    rw [h] at h'
    cases h'
  · rename_i h'
    rw [h] at h'
    cases h'
    rfl

/-- The commands that the loop meets are those that no refused request comes before. -/
lemma mem_marshalVisits_iff {cs : List Command} (hptr : ptr ≤ stop)
    (hread : m.buf.read ptr (stop - ptr) = codes.stream.encodeAll cs) {q w : ℕ} :
    (q, w) ∈ marshalVisits codes vm stop m ptr ↔
      ∃ pre c post, cs = pre ++ c :: post ∧
        q = ptr + (codes.stream.encodeAll pre).length ∧ w = codes.code c.kind ∧
        (recordAll vm (requestsOf pre) m.segments).1 = none := by
  induction cs generalizing m ptr with
  | nil =>
    have hlen := congrArg List.length hread
    simp only [Memory.length_read, StreamCode.encodeAll_nil, List.length_nil] at hlen
    rw [marshalVisits, if_neg (by omega)]
    simp
  | cons c cs ih =>
    have hlen := congrArg List.length hread
    rw [Memory.length_read, codes.length_encodeAll_cons] at hlen
    rw [StreamCode.encodeAll_cons, BinderCodes.stream_encode] at hread
    have hword : m.buf.word ptr = codes.code c.kind :=
      word_command (Memory.read_of_append hread).1
    obtain ⟨m1, hseg, -, -, hturn, hdone⟩ := marshalTurn_command codes vm hptr hread
    have hfull : ptr + 4 ≤ stop := by omega
    cases hrec : (recordAll vm c.requests m.segments).1 with
    | some r =>
      rw [hrec] at hturn
      rw [marshalVisits_of_some hfull hturn, hword, List.mem_singleton, Prod.mk.injEq]
      constructor
      · rintro ⟨rfl, rfl⟩
        exact ⟨[], c, cs, rfl, rfl, rfl, rfl⟩
      · rintro ⟨_ | ⟨c'', pre⟩, c', post, hcs, rfl, rfl, hnone⟩
        · obtain ⟨rfl, -⟩ := List.cons.inj hcs
          exact ⟨rfl, rfl⟩
        · obtain ⟨rfl, -⟩ := List.cons.inj hcs
          rw [requestsOf_cons, recordAll_append_of_some hrec] at hnone
          cases hnone
    | none =>
      rw [hrec] at hturn
      have hrest := read_behind_command codes hread (hdone hrec).2
      have hnone (pre : List Command) : recordAll vm (requestsOf (c :: pre)) m.segments =
          recordAll vm (requestsOf pre) m1.segments := by
        rw [requestsOf_cons, recordAll_append_of_none hrec, hseg]
      rw [marshalVisits_of_none hfull hturn, List.mem_cons, Prod.mk.injEq, hword,
        ih (by omega) hrest]
      constructor
      · rintro (⟨rfl, rfl⟩ | ⟨pre, c', post, rfl, rfl, rfl, hpre⟩)
        · exact ⟨[], c, cs, rfl, rfl, rfl, rfl⟩
        · refine ⟨c :: pre, c', post, rfl, ?_, rfl, by rwa [hnone]⟩
          rw [codes.length_encodeAll_cons, Nat.add_assoc]
      · rintro ⟨_ | ⟨c'', pre⟩, c', post, hcs, rfl, rfl, hpre⟩
        · obtain ⟨rfl, -⟩ := List.cons.inj hcs
          exact .inl ⟨rfl, rfl⟩
        · obtain ⟨rfl, htail⟩ := List.cons.inj hcs
          refine .inr ⟨pre, c', post, htail, ?_, rfl, by rwa [← hnone]⟩
          rw [codes.length_encodeAll_cons]
          omega

end Visits

lemma argSize_eq (k : BrCommand) : ∃ n, k.argSize = 4 * n := by
  cases k
  case noop | transactionComplete | spawnLooper => exact ⟨0, rfl⟩
  case transaction | reply => exact ⟨10, rfl⟩
  case increfs | decrefs | acquire | release => exact ⟨2, rfl⟩

section Words

lemma length_encodeAll_eq (codes : BinderCodes) (cs : List Command) :
    ∃ n, (codes.stream.encodeAll cs).length = 4 * n := by
  induction cs with
  | nil => exact ⟨0, rfl⟩
  | cons c cs ih =>
    obtain ⟨n, hn⟩ := ih
    obtain ⟨k, hk⟩ := argSize_eq c.kind
    refine ⟨1 + k + n, ?_⟩
    rw [codes.length_encodeAll_cons, hn, hk]
    omega

variable {codes : BinderCodes}

/-- Every word of a stream is a command word or an argument word. -/
lemma word_of_stream (cs : List Command) {i : ℕ}
    (hi : 4 * i < (codes.stream.encodeAll cs).length) :
    ∃ pre c post, cs = pre ++ c :: post ∧
      (4 * i = (codes.stream.encodeAll pre).length ∨
        ∃ j, 4 * j + 4 ≤ c.kind.argSize ∧
          4 * i = (codes.stream.encodeAll pre).length + (4 + 4 * j)) := by
  induction cs generalizing i with
  | nil => cases hi
  | cons c cs ih =>
    obtain ⟨k, hk⟩ := argSize_eq c.kind
    rw [codes.length_encodeAll_cons, hk] at hi
    by_cases hhere : i < 1 + k
    · refine ⟨[], c, cs, rfl, ?_⟩
      cases i with
      | zero => exact .inl rfl
      | succ j =>
        refine .inr ⟨j, by omega, ?_⟩
        rw [StreamCode.encodeAll_nil, List.length_nil]
        omega
    · obtain ⟨pre, c', post, rfl, hword⟩ := @ih (i - (1 + k)) (by omega)
      refine ⟨c :: pre, c', post, rfl, ?_⟩
      rw [codes.length_encodeAll_cons, hk]
      obtain hword | ⟨j, hj, hword⟩ := hword
      · exact .inl (by omega)
      · exact .inr ⟨j, hj, by omega⟩

variable {mem : Memory} {buffer : ℕ} {pre post : List Command} {c : Command}

lemma read_command (hmem : mem.read buffer (codes.stream.encodeAll (pre ++ c :: post)).length =
      codes.stream.encodeAll (pre ++ c :: post)) :
    mem.read (buffer + (codes.stream.encodeAll pre).length) (c.encode codes).length =
      c.encode codes := by
  have hsplit : codes.stream.encodeAll (pre ++ c :: post) =
      codes.stream.encodeAll pre ++ (c.encode codes ++ codes.stream.encodeAll post) := by
    rw [StreamCode.encodeAll_append, StreamCode.encodeAll_cons, BinderCodes.stream_encode]
  rw [hsplit] at hmem
  exact (Memory.read_of_append (Memory.read_of_append hmem).2).1

lemma word_argument {a j : ℕ} (h : mem.read a (c.encode codes).length = c.encode codes)
    (hj : 4 * j + 4 ≤ c.kind.argSize) : mem.word (a + (4 + 4 * j)) = c.argWord (4 * j) := by
  rw [Memory.word_eq_of_read h (by rw [Command.length_encode]; omega), Command.encode,
    ← List.drop_drop, List.drop_left' (length_leBytes 4 _)]
  rfl

end Words

/-- What the switch of `marshaler_marshal` meets in the buffer of the commands `cs`. -/
def visitsOf (codes : BinderCodes) (vm : BinderVm) (junk : Memory) (cs : List Command) :
    List (ℕ × ℕ) :=
  let R := codes.stream.encodeAll cs
  marshalVisits codes vm R.length (marshalCopy (.fresh junk) R) 0

/-- What the tracer prints of the buffer of the commands `cs`. -/
def dumpsOf (codes : TracerCodes) (mem : Memory) (buffer : ℕ) (cs : List Command) : List Dump :=
  dumpTransaction codes mem buffer 0 (codes.stream.encodeAll cs).length

/-- The tracer and the marshaler find the same `BR_REPLY` commands, and the tracer takes nothing
else for a command and prints no record that leaves the buffer. -/
structure TracerAgrees (codes : TracerCodes) (vm : BinderVm) (junk mem : Memory) (buffer : ℕ)
    (cs : List Command) : Prop where
  replies : ∀ q, (∃ d ∈ dumpsOf codes mem buffer cs, d.cmd = buffer + q ∧
      mem.word d.cmd = codes.code .reply) ↔
    (q, codes.code .reply) ∈ visitsOf codes.toBinderCodes vm junk cs
  commands : ∀ d ∈ dumpsOf codes mem buffer cs, ∃ pre c post, cs = pre ++ c :: post ∧
    d.cmd = buffer + (codes.stream.encodeAll pre).length
  inside : ∀ d ∈ dumpsOf codes mem buffer cs,
    d.cmd + 4 + 40 ≤ buffer + (codes.stream.encodeAll cs).length

/-- No argument is a word that the tracer looks for. -/
def NoStrayWord (codes : TracerCodes) (cs : List Command) : Prop :=
  ∀ c ∈ cs, ∀ j, 4 * j + 4 ≤ c.kind.argSize →
    c.argWord (4 * j) ≠ codes.bcTransaction ∧ c.argWord (4 * j) ≠ codes.code .reply

/-- The segments requested before a `BR_REPLY` are those that the marshaler accepts. -/
def RepliesReached (vm : BinderVm) (cs : List Command) : Prop :=
  ∀ pre c post, cs = pre ++ c :: post → c.kind = .reply →
    (∀ r ∈ requestsOf pre, vm.contains r.ptr) ∧ (requestsOf pre).length ≤ maxSegmentNum

section Agreement

variable {codes : TracerCodes} {vm : BinderVm} {junk mem : Memory} {buffer : ℕ}
  {cs : List Command}

lemma mem_visitsOf_iff {q w : ℕ} :
    (q, w) ∈ visitsOf codes.toBinderCodes vm junk cs ↔
      ∃ pre c post, cs = pre ++ c :: post ∧ q = (codes.stream.encodeAll pre).length ∧
        w = codes.code c.kind ∧ (∀ r ∈ requestsOf pre, vm.contains r.ptr) ∧
        (requestsOf pre).length ≤ maxSegmentNum := by
  have hread : (marshalCopy (.fresh junk) (codes.stream.encodeAll cs)).buf.read 0
      ((codes.stream.encodeAll cs).length - 0) = codes.stream.encodeAll cs :=
    Memory.read_write_self _ _ _
  have hnone : ∀ pre, (recordAll vm (requestsOf pre) []).1 = none ↔
      (∀ r ∈ requestsOf pre, vm.contains r.ptr) ∧ (requestsOf pre).length ≤ maxSegmentNum := by
    intro pre
    rw [recordAll_eq_none_iff vm (requestsOf pre) [] (Nat.zero_le _), List.length_nil, zero_add]
  have hsegments : (marshalCopy (.fresh junk) (codes.stream.encodeAll cs)).segments = [] := rfl
  unfold visitsOf
  rw [mem_marshalVisits_iff (Nat.zero_le _) hread]
  simp only [zero_add, hsegments, hnone]

lemma mem_dumpsOf_iff {d : Dump} :
    d ∈ dumpsOf codes mem buffer cs ↔
      ∃ i, 4 * i < (codes.stream.encodeAll cs).length ∧
        (mem.word (buffer + 4 * i) = codes.bcTransaction ∨
          mem.word (buffer + 4 * i) = codes.code .reply) ∧ d = dumpRecord mem (buffer + 4 * i) := by
  obtain ⟨n, hn⟩ := length_encodeAll_eq codes.toBinderCodes cs
  have hbound : ∀ i, 4 * i < 4 * n ↔ i < n := fun i => by omega
  unfold dumpsOf dumpTransaction
  simp only [hn, add_zero, mem_dumpLoop_iff, hbound]

variable (hmem : mem.read buffer (codes.stream.encodeAll cs).length = codes.stream.encodeAll cs)

include hmem

lemma dump_of_command {pre post : List Command} {c : Command} (hcs : cs = pre ++ c :: post)
    (hkind : c.kind = .reply) :
    ∃ d ∈ dumpsOf codes mem buffer cs,
      d.cmd = buffer + (codes.stream.encodeAll pre).length ∧
      mem.word d.cmd = codes.code .reply := by
  subst hcs
  obtain ⟨i, hi⟩ := length_encodeAll_eq codes.toBinderCodes pre
  have hword := word_command (read_command hmem)
  rw [hkind] at hword
  refine ⟨dumpRecord mem (buffer + (codes.stream.encodeAll pre).length), ?_, rfl, hword⟩
  rw [mem_dumpsOf_iff]
  rw [hi] at hword ⊢
  refine ⟨i, ?_, .inr hword, rfl⟩
  rw [BinderCodes.length_encodeAll_split, hi]
  omega

/-- With no stray word, what the tracer prints are the `BR_REPLY` commands. -/
lemma command_of_dump (hstray : NoStrayWord codes cs) {d : Dump}
    (hd : d ∈ dumpsOf codes mem buffer cs) :
    ∃ pre c post, cs = pre ++ c :: post ∧ c.kind = .reply ∧
      d.cmd = buffer + (codes.stream.encodeAll pre).length := by
  obtain ⟨i, hi, hcmd, rfl⟩ := mem_dumpsOf_iff.mp hd
  obtain ⟨pre, c, post, rfl, hstart | ⟨j, hj, hargument⟩⟩ := word_of_stream cs hi
  · refine ⟨pre, c, post, rfl, ?_, by rw [← hstart]; rfl⟩
    rw [hstart, word_command (read_command hmem)] at hcmd
    obtain hbc | hbr := hcmd
    · exact absurd hbc (codes.code_ne_bcTransaction c.kind)
    · exact codes.code_injective hbr
  · rw [hargument, ← Nat.add_assoc, word_argument (read_command hmem) hj] at hcmd
    have hnone := hstray c (List.mem_append_right _ List.mem_cons_self) j hj
    exact absurd hcmd (not_or.mpr hnone)

/-- A stray word is dumped, where no command begins. -/
lemma noStrayWord_of_commands
    (h : ∀ d ∈ dumpsOf codes mem buffer cs, ∃ pre c post, cs = pre ++ c :: post ∧
      d.cmd = buffer + (codes.stream.encodeAll pre).length) : NoStrayWord codes cs := by
  intro c hc j hj
  rw [← not_or]
  intro hstray
  obtain ⟨pre, post, hcs⟩ := List.append_of_mem hc
  subst hcs
  obtain ⟨i, hi⟩ := length_encodeAll_eq codes.toBinderCodes pre
  have hword := word_argument (read_command hmem) hj
  have hplace : buffer + (codes.stream.encodeAll pre).length + (4 + 4 * j) =
      buffer + 4 * (i + (1 + j)) := by
    rw [hi]
    omega
  rw [hplace] at hword
  rw [← hword] at hstray
  have hlt : 4 * (i + (1 + j)) < (codes.stream.encodeAll (pre ++ c :: post)).length := by
    rw [BinderCodes.length_encodeAll_split, hi]
    omega
  obtain ⟨pre', c', post', hsame, hbegins⟩ := h _ (mem_dumpsOf_iff.mpr ⟨_, hlt, hstray, rfl⟩)
  change buffer + 4 * (i + (1 + j)) = _ at hbegins
  have hapart := codes.stream.begins_before_or_behind hsame.symm
  rw [BinderCodes.stream_encode, Command.length_encode, hi] at hapart
  omega

end Agreement

/-- For every whole number of commands: the tracer agrees with the marshaler if and only if no
argument word is one that it looks for, and the marshaler has not given up, over a segment it does
not accept, before a `BR_REPLY`. -/
theorem tracer_agrees_iff {codes : TracerCodes} {vm : BinderVm} {junk mem : Memory} {buffer : ℕ}
    {cs : List Command}
    (hmem : mem.read buffer (codes.stream.encodeAll cs).length = codes.stream.encodeAll cs) :
    TracerAgrees codes vm junk mem buffer cs ↔ NoStrayWord codes cs ∧ RepliesReached vm cs := by
  constructor
  · intro h
    refine ⟨noStrayWord_of_commands hmem h.commands, fun pre c post hcs hkind => ?_⟩
    have hvisit := (h.replies _).mp (dump_of_command hmem hcs hkind)
    obtain ⟨pre', c', post', hcs', hlength, -, hreached⟩ := mem_visitsOf_iff.mp hvisit
    obtain ⟨rfl, -⟩ := codes.stream.eq_of_begins (hcs.symm.trans hcs') hlength
    exact hreached
  · rintro ⟨hstray, hreached⟩
    refine ⟨fun q => ⟨?_, fun hvisit => ?_⟩, fun d hd => ?_, fun d hd => ?_⟩
    · rintro ⟨d, hd, hq, -⟩
      obtain ⟨pre, c, post, hcs, hkind, hbegins⟩ := command_of_dump hmem hstray hd
      rw [mem_visitsOf_iff]
      exact ⟨pre, c, post, hcs, by omega, by rw [hkind], hreached pre c post hcs hkind⟩
    · obtain ⟨pre, c, post, hcs, rfl, hcode, -⟩ := mem_visitsOf_iff.mp hvisit
      exact dump_of_command hmem hcs (codes.code_injective hcode).symm
    · obtain ⟨pre, c, post, hcs, -, hbegins⟩ := command_of_dump hmem hstray hd
      exact ⟨pre, c, post, hcs, hbegins⟩
    · obtain ⟨pre, c, post, rfl, hkind, hbegins⟩ := command_of_dump hmem hstray hd
      have hsize : c.kind.argSize = 40 := by
        rw [hkind]
        rfl
      rw [hbegins, BinderCodes.length_encodeAll_split, hsize]
      omega

/-- A process whose read buffer holds the commands `cs`. -/
def tracedProcess (buffer : ℕ) (cs : List Command) : Memory :=
  Memory.write (fun _ => 0) buffer (tracedCodes.stream.encodeAll cs)

def emptyReply : Command := ⟨.reply, List.replicate 40 0, rfl⟩

/-- A reply with an empty record, behind a `BR_NOOP`. -/
theorem reply_traced :
    TracerAgrees tracedCodes zeroVm (fun _ => 0) (tracedProcess 4096 [noopCommand, emptyReply])
      4096 [noopCommand, emptyReply] := by
  apply (tracer_agrees_iff (Memory.read_write_self _ _ _)).mpr
  constructor
  · intro c hc j hj
    obtain rfl | rfl : c = noopCommand ∨ c = emptyReply := by simpa using hc
    · cases hj
    · have hlt : j < 10 := by
        change 4 * j + 4 ≤ 40 at hj
        omega
      interval_cases j <;> decide
  · intro pre c post hcs hkind
    obtain _ | ⟨c₁, _ | ⟨c₂, pre⟩⟩ := pre
    · exact ⟨nofun, Nat.zero_le _⟩
    · obtain ⟨rfl, -⟩ := List.cons.inj hcs
      exact ⟨nofun, Nat.zero_le _⟩
    · simp at hcs

def increfsOfReplyCode : Command := ⟨.increfs, [0x03, 0x72, 0x28, 0x80, 0, 0, 0, 0], rfl⟩

/-- `BR_INCREFS` for a pointer that is the number of `BR_REPLY`: the tracer prints a record that
begins in the arguments and ends far behind the buffer. -/
theorem pointer_traced :
    ¬ TracerAgrees tracedCodes zeroVm (fun _ => 0)
      (tracedProcess 4096 [increfsOfReplyCode]) 4096 [increfsOfReplyCode] := by
  intro h
  have hprinted := h.inside _ (mem_dumpsOf_iff.mpr ⟨1, by decide, .inr (by decide), rfl⟩)
  exact absurd hprinted (by decide)

end ExpressOS

import ExpressOS.BenchBinder.BinderCall

/-!
# The ping-pong benchmark

`start_ping` sends a string of `size / 2` units in every turn, and `pong_handler` in the other
process sends it back. A short string comes back whole. Of a longer one `rdata` has room for the
length only, and nobody looks at the flag that says so.
-/

namespace ExpressOS
open Systems

def maxPayloadSize : ℕ := 16384

/-- `sizeof(iodata)` -/
def iodataSize : ℕ := (maxPayloadSize + 512 / 4) * 4

def testTimes : ℕ := 10000
def srvPingpong : ℕ := 1

/-- The arrays on the stack of `start_ping`. -/
structure PingArrays where
  mockPayload : ℕ
  iodata : ℕ
  mockPayload_ne : mockPayload ≠ 0
  apart : mockPayload + maxPayloadSize ≤ iodata ∨ iodata + iodataSize ≤ mockPayload

/-- The address of `mock_payload[size / sizeof(uint16_t)]`. -/
def terminatorPlace (a : PingArrays) (size : ℕ) : ℕ :=
  a.mockPayload + 2 * (size / 2)

/-- The `memset`, and the terminator. -/
def fillPayload (a : PingArrays) (size : ℕ) (m : Memory) : Memory :=
  (m.write a.mockPayload (List.replicate maxPayloadSize 1)).write (terminatorPlace a size) [0, 0]

/-- The message of one turn. -/
def pingMessage (a : PingArrays) (msg : BinderIo) (m : Memory) : Option (Memory × BinderIo) :=
  bioPutString16 m (bioInit msg a.iodata iodataSize 4) a.mockPayload

/-- What a turn has sent, the rounds of its call, and what the call returns. -/
structure PingTurn where
  memory : Memory
  msg : BinderIo
  rounds : List (Option Round)
  outcome : Option CallResult

/-- The `for` loop, with the rounds of each turn. It ends at a call that fails, and stands at one
that is waiting. -/
def pingLoop (codes : CodeTable ParseLabel) (proc : Process) (a : PingArrays) (pongSrv : ℕ) :
    List (List (Option Round)) → BinderIo → BinderIo → Memory → Option (List PingTurn)
  | [], _, _, _ => some []
  | rounds :: turns, msg, reply, m => do
    let (m, msg) ← pingMessage a msg m
    let outcome := binderCall codes proc m msg reply pongSrv srvPingpong rounds
    let turn := PingTurn.mk m msg rounds outcome
    match outcome with
    | none => return [turn]
    | some res =>
      if res.res ≠ 0 then return [turn]
      else do
        let ts ← pingLoop codes proc a pongSrv turns msg (binderDone res.reply).2 res.memory
        return turn :: ts

def startPing (codes : CodeTable ParseLabel) (proc : Process) (a : PingArrays) (pongSrv size : ℕ)
    (m : Memory) (turns : List (List (Option Round))) : Option (List PingTurn) :=
  pingLoop codes proc a pongSrv (turns.take testTimes) default default (fillPayload a size m)

def pongHandler : BinderHandler := fun _ msg reply m => do
  let p := (bioGetString16 m msg).str
  let (m, reply) ← bioPutString16 m reply p
  return (0, reply, m)

/-- The driver has delivered bytes unchanged. -/
structure Arrives (m : Memory) (txn : BinderTxn) (bytes : List UInt8) : Prop where
  data_ne : txn.data ≠ 0
  size : txn.dataSize = bytes.length
  bytes : m.read txn.data bytes.length = bytes

/-- A round of the server whose transactions all bring the bytes of one transfer. The driver maps
them apart from the stack of the server, and tells it of no death. -/
structure BringsTransaction (codes : CodeTable ParseLabel) (server : Process) (round : Round)
    (bytes : List UInt8) : Prop where
  undying : round.buffer.Undying codes
  arrives : ∀ txn ∈ round.buffer.records codes .transaction, Arrives round.memory txn bytes
  apart : ∀ txn ∈ round.buffer.records codes .transaction,
    txn.data + bytes.length ≤ server.rdata ∨ server.rdata + rdataSize ≤ txn.data

/-- The rounds of the caller leave its payload alone, and tell it of no death. -/
structure Undisturbed (codes : CodeTable ParseLabel) (a : PingArrays) (size : ℕ) (m : Memory)
    (turns : List (List (Option Round))) : Prop where
  payload : ∀ rounds ∈ turns, ∀ round, some round ∈ rounds →
    round.memory.read a.mockPayload maxPayloadSize =
      (fillPayload a size m).read a.mockPayload maxPayloadSize
  undying : ∀ rounds ∈ turns, ∀ round, some round ∈ rounds → round.buffer.Undying codes

/-- `bio_get_string16` gives `cs` from the reply of a call. -/
structure Decodes (res : CallResult) (cs : List ℕ) : Prop where
  str_ne : (bioGetString16 res.memory res.reply).str ≠ 0
  len : (bioGetString16 res.memory res.reply).len = cs.length
  string : Terminated (res.memory.units (bioGetString16 res.memory res.reply).str) cs

/-- The turn sends `cs`, and reads it from `mock_payload`. -/
structure SendsString (a : PingArrays) (t : PingTurn) (cs : List ℕ) : Prop where
  payload : Terminated (t.memory.units a.mockPayload) cs
  inside : 2 * (cs.length + 1) ≤ maxPayloadSize
  message : HoldsString t.memory t.msg.data0 (t.msg.data - t.msg.data0) cs

/-- The server replies to every transaction that brings what the turn has sent, and with such a
reply the call gives `cs` or fails. -/
def Echoed (codes : CodeTable ParseLabel) (pongSrv : ℕ) (t : PingTurn) (cs : List ℕ) : Prop :=
  ∃ request, binderRequest t.memory t.msg pongSrv srvPingpong = some request ∧
    ∀ (server : Process) (round : Round), BringsTransaction codes server round request.data →
      ∃ s, binderParse codes server (some pongHandler) false default round.memory round.buffer =
          some s ∧
        s.sent.map (·.freed) = (round.buffer.records codes .transaction).map (·.data) ∧
        ∀ reply ∈ s.sent,
          (∀ round, some round ∈ t.rounds → ∀ txn ∈ round.buffer.records codes .reply,
            Arrives round.memory txn reply.txn.data) →
          ∀ res, t.outcome = some res → res.res ≠ 0 ∨ Decodes res cs

/-- Every run of `start_ping` with this size puts its terminator inside `mock_payload`, sends a
string of `size / 2` units in every turn, and gets it back or sees the call fail. -/
def Echoes (codes : CodeTable ParseLabel) (size : ℕ) : Prop :=
  ∀ (proc : Process) (a : PingArrays) (pongSrv : ℕ) (m : Memory)
    (turns : List (List (Option Round))), Undisturbed codes a size m turns →
    terminatorPlace a size + 2 ≤ a.mockPayload + maxPayloadSize ∧
    ∃ ts, startPing codes proc a pongSrv size m turns = some ts ∧
      ∀ t ∈ ts, ∃ cs, cs.length = size / 2 ∧ SendsString a t cs ∧ Echoed codes pongSrv t cs

section Ping

variable {a : PingArrays} {size : ℕ} {m m₀ : Memory}

/-- The string of `start_ping`. -/
def pingString (size : ℕ) : List ℕ :=
  List.replicate (size / 2) 0x0101

@[simp] lemma length_pingString (size : ℕ) : (pingString size).length = size / 2 :=
  List.length_replicate

lemma fillPayload_terminated (h : 2 * (size / 2) + 2 ≤ maxPayloadSize) :
    Terminated ((fillPayload a size m).units a.mockPayload) (pingString size) where
  unit i hi := by
    rw [length_pingString] at hi
    let filled := m.write a.mockPayload (List.replicate maxPayloadSize 1)
    have hfilled : filled.read a.mockPayload maxPayloadSize = List.replicate maxPayloadSize 1 := by
      have hself := Memory.read_write_self m a.mockPayload (List.replicate maxPayloadSize 1)
      rwa [List.length_replicate] at hself
    have hunit : (fillPayload a size m).units a.mockPayload i = filled.units a.mockPayload i := by
      apply congrArg leNat
      apply Memory.read_write_of_le
      unfold terminatorPlace
      omega
    rw [hunit, Memory.units_of_replicate hfilled (by omega), pingString,
      List.getElem?_replicate_of_lt hi]
    rfl
  terminator := by
    rw [length_pingString]
    have hend := Memory.read_write_self (m.write a.mockPayload (List.replicate maxPayloadSize 1))
      (terminatorPlace a size) [0, 0]
    exact congrArg leNat hend
  nonzero hmem := nomatch (List.mem_replicate.mp hmem).2

/-- The array holds what `fillPayload` has put there. -/
lemma payload_terminated (h : 2 * (size / 2) + 2 ≤ maxPayloadSize)
    (hm : m.read a.mockPayload maxPayloadSize =
      (fillPayload a size m₀).read a.mockPayload maxPayloadSize) :
    Terminated (m.units a.mockPayload) (pingString size) := by
  apply Memory.terminated_copy (fillPayload_terminated h)
  rw [length_pingString]
  exact Memory.read_part (k := 0) hm (by omega)

/-- The message of a turn is put whole, and the array stays. -/
lemma pingMessage_of_payload (msg : BinderIo) (h : 2 * (size / 2) + 2 ≤ maxPayloadSize)
    (hm : m.read a.mockPayload maxPayloadSize =
      (fillPayload a size m₀).read a.mockPayload maxPayloadSize) :
    ∃ m' msg', pingMessage a msg m = some (m', msg') ∧ msg'.flags = 0 ∧
      HoldsString m' msg'.data0 (msg'.data - msg'.data0) (pingString size) ∧
      m'.read a.mockPayload maxPayloadSize =
        (fillPayload a size m₀).read a.mockPayload maxPayloadSize := by
  have hapart := a.apart
  have hmessage : 16 + messageSize (pingString size).length ≤ iodataSize := by
    rw [length_pingString]
    unfold maxPayloadSize at h
    unfold iodataSize messageSize maxPayloadSize
    omega
  have hshort : (pingString size).length < maxBioSize / 2 := by
    rw [length_pingString]
    unfold maxPayloadSize at h
    unfold maxBioSize
    omega
  have hsize := stringSize_le_messageSize (pingString size).length
  have hdata : (bioInit msg a.iodata iodataSize 4).data = a.iodata + 16 := rfl
  have havail : (bioInit msg a.iodata iodataSize 4).dataAvail = iodataSize - 16 := rfl
  have hdata_ne : (bioInit msg a.iodata iodataSize 4).data ≠ 0 := by omega
  obtain ⟨m', hput, hholds, hframe⟩ := bioPutString16_of_le hdata_ne a.mockPayload_ne
    (payload_terminated h hm) hshort (by omega) (by rw [length_pingString]; omega)
  refine ⟨m', _, hput, rfl, ?_, ?_⟩
  · change HoldsString m' (a.iodata + 16) (a.iodata + 16 + _ - (a.iodata + 16)) _
    rwa [Nat.add_sub_cancel_left, ← hdata]
  · rw [hframe _ _ (by omega), hm]

lemma Undisturbed.of_subset {codes : CodeTable ParseLabel}
    {turns turns' : List (List (Option Round))} (h : Undisturbed codes a size m turns)
    (hsub : turns' ⊆ turns) : Undisturbed codes a size m turns' where
  payload rounds hrounds := h.payload rounds (hsub hrounds)
  undying rounds hrounds := h.undying rounds (hsub hrounds)

/-- What holds of each turn of a run. -/
structure IsPingTurn (codes : CodeTable ParseLabel) (proc : Process) (a : PingArrays)
    (pongSrv size : ℕ) (m : Memory) (turns : List (List (Option Round))) (t : PingTurn) :
    Prop where
  flags : t.msg.flags = 0
  message : HoldsString t.memory t.msg.data0 (t.msg.data - t.msg.data0) (pingString size)
  payload : t.memory.read a.mockPayload maxPayloadSize =
    (fillPayload a size m).read a.mockPayload maxPayloadSize
  rounds : t.rounds ∈ turns
  outcome : ∃ reply,
    t.outcome = binderCall codes proc t.memory t.msg reply pongSrv srvPingpong t.rounds

variable {codes : CodeTable ParseLabel} {proc : Process} {pongSrv : ℕ}
  {turns : List (List (Option Round))} {t : PingTurn}

lemma IsPingTurn.of_subset {turns' : List (List (Option Round))}
    (ht : IsPingTurn codes proc a pongSrv size m turns' t) (hsub : turns' ⊆ turns) :
    IsPingTurn codes proc a pongSrv size m turns t :=
  { ht with rounds := hsub ht.rounds }

variable (proc pongSrv) in
/-- The run lemma of `start_ping`. -/
theorem pingLoop_turns (h : 2 * (size / 2) + 2 ≤ maxPayloadSize)
    (hturns : Undisturbed codes a size m₀ turns) (msg reply : BinderIo)
    (hm : m.read a.mockPayload maxPayloadSize =
      (fillPayload a size m₀).read a.mockPayload maxPayloadSize) :
    ∃ ts, pingLoop codes proc a pongSrv turns msg reply m = some ts ∧
      ∀ t ∈ ts, IsPingTurn codes proc a pongSrv size m₀ turns t := by
  induction turns generalizing msg reply m with
  | nil => exact ⟨[], rfl, nofun⟩
  | cons rounds turns ih =>
    obtain ⟨m', msg', hmessage, hflags, hholds, hpayload⟩ := pingMessage_of_payload msg h hm
    simp only [pingLoop, hmessage, Option.bind_eq_bind, Option.bind_some]
    generalize houtcome : binderCall codes proc m' msg' reply pongSrv srvPingpong rounds = outcome
    have hturn : IsPingTurn codes proc a pongSrv size m₀ (rounds :: turns)
        ⟨m', msg', rounds, outcome⟩ :=
      ⟨hflags, hholds, hpayload, List.mem_cons_self, reply, houtcome.symm⟩
    have hlast : ∀ t ∈ [PingTurn.mk m' msg' rounds outcome],
        IsPingTurn codes proc a pongSrv size m₀ (rounds :: turns) t := by
      intro t ht
      rwa [List.mem_singleton.mp ht]
    cases outcome with
    | none => exact ⟨_, rfl, hlast⟩
    | some res =>
      by_cases hres : res.res = 0
      · obtain ⟨round, hround, hmemory, -⟩ :=
          binderCall_reply (hturns.undying rounds List.mem_cons_self) houtcome hres
        have hnext : res.memory.read a.mockPayload maxPayloadSize =
            (fillPayload a size m₀).read a.mockPayload maxPayloadSize := by
          rw [hmemory]
          exact hturns.payload rounds List.mem_cons_self round hround
        obtain ⟨ts, hts, hrest⟩ :=
          ih (hturns.of_subset (List.subset_cons_self _ _)) msg' (binderDone res.reply).2 hnext
        refine ⟨PingTurn.mk m' msg' rounds (some res) :: ts, ?_, ?_⟩
        · dsimp only
          rw [if_neg (not_not.mpr hres), hts]
          rfl
        · intro t ht
          apply (List.mem_cons.mp ht).elim
          · intro heq
            rwa [heq]
          · intro htail
            exact (hrest t htail).of_subset (List.subset_cons_self _ _)
      · exact ⟨_, if_pos hres, hlast⟩

end Ping

section Pong

variable {m : Memory} {txn : BinderTxn} {bytes : List UInt8} {cs : List ℕ} {rdata : ℕ}

/-- What comes back for a message that carries `cs`: the same string, or its length alone. -/
structure RepliesTo (cs : List ℕ) (bytes : List UInt8) : Prop where
  whole : messageSize cs.length ≤ rdataSize - 16 → Spells bytes cs
  cut : rdataSize - 16 < messageSize cs.length → bytes = leBytes 4 cs.length

lemma Arrives.holds (h : Arrives m txn bytes) (hspells : Spells bytes cs) :
    HoldsString m txn.data txn.dataSize cs := by
  rw [h.size]
  exact hspells m txn.data h.bytes

lemma Arrives.decodes {res : CallResult} (h : Arrives res.memory txn bytes)
    (hspells : Spells bytes cs) (hreply : res.reply = bioInitFromTxn txn) : Decodes res cs := by
  have hholds := h.holds hspells
  have hgot : bioGetString16 res.memory res.reply =
      ⟨txn.data + 4, cs.length, (bioInitFromTxn txn).advance (messageSize cs.length)⟩ := by
    rw [hreply]
    exact bioGetString16_of_holds h.data_ne hholds
  constructor
  · rw [hgot]
    exact Nat.succ_ne_zero _
  · rw [hgot]
  · rw [hgot]
    exact hholds.string

lemma pongHandler_replies (harrives : Arrives m txn bytes) (hspells : Spells bytes cs)
    (hapart : txn.data + bytes.length ≤ rdata ∨ rdata + rdataSize ≤ txn.data) :
    ∃ m' reply, pongHandler txn (bioInitFromTxn txn) (bioInit default rdata rdataSize 4) m =
        some (0, reply, m') ∧
      RepliesTo cs (m'.read reply.data0 (reply.data - reply.data0)) ∧
      ∀ p k, p + k ≤ rdata ∨ rdata + rdataSize ≤ p → m'.read p k = m.read p k := by
  have hholds := harrives.holds hspells
  have hgot : (bioGetString16 m (bioInitFromTxn txn)).str = txn.data + 4 := by
    rw [bioGetString16_of_holds harrives.data_ne hholds]
    rfl
  have hstring := hholds.string_le
  rw [harrives.size] at hstring
  have hsize : rdataSize = 256 := rfl
  have hdata : (bioInit default rdata rdataSize 4).data = rdata + 16 := rfl
  have havail : (bioInit default rdata rdataSize 4).dataAvail = rdataSize - 16 := rfl
  have hdata_ne : (bioInit default rdata rdataSize 4).data ≠ 0 := by omega
  have hstr : txn.data + 4 ≠ 0 := Nat.succ_ne_zero _
  have hpong : ∀ {m' reply},
      bioPutString16 m (bioInit default rdata rdataSize 4) (txn.data + 4) = some (m', reply) →
      pongHandler txn (bioInitFromTxn txn) (bioInit default rdata rdataSize 4) m =
        some (0, reply, m') := fun hput => by
    rw [pongHandler, hgot, hput]
    rfl
  by_cases hfit : messageSize cs.length ≤ rdataSize - 16
  · obtain ⟨m', hput, hcopy, hframe⟩ := bioPutString16_of_le hdata_ne hstr hholds.string
      hholds.short (by omega) (by omega)
    refine ⟨m', _, hpong hput, ⟨fun _ => ?_, fun hcut => ?_⟩, fun p k hpk => ?_⟩
    · change Spells (m'.read (rdata + 16) (rdata + 16 + _ - (rdata + 16))) cs
      rw [Nat.add_sub_cancel_left, ← hdata]
      exact hcopy.spells
    · exact absurd hfit (not_le.mpr hcut)
    · exact hframe p k (by omega)
  · have hput := bioPutString16_of_lt hdata_ne hstr hholds.string hholds.short (by omega)
      (by omega)
    refine ⟨_, _, hpong hput, ⟨fun hwhole => ?_, fun _ => ?_⟩, fun p k hpk => ?_⟩
    · exact absurd hwhole hfit
    · change Memory.read _ (rdata + 16) (rdata + 16 + 4 - (rdata + 16)) = _
      rw [Nat.add_sub_cancel_left, hdata, Memory.read_setWord_self]
    · exact Memory.read_setWord_of_disjoint (by omega)

variable {codes : CodeTable ParseLabel} {server : Process} {round : Round}

/-- The server replies once to every transaction, and as `RepliesTo` says. -/
theorem binderParse_server (hround : BringsTransaction codes server round bytes)
    (hspells : Spells bytes cs) :
    ∃ s, binderParse codes server (some pongHandler) false default round.memory round.buffer =
        some s ∧
      s.sent.map (·.freed) = (round.buffer.records codes .transaction).map (·.data) ∧
      ∀ reply ∈ s.sent, RepliesTo cs reply.txn.data := by
  let P : ParseState → Prop := fun s =>
    (∀ p k, p + k ≤ server.rdata ∨ server.rdata + rdataSize ≤ p →
      s.memory.read p k = round.memory.read p k) ∧
    ∀ reply ∈ s.sent, RepliesTo cs reply.txn.data
  have hturn : ∀ ptr ∈ commandPlaces codes round.buffer (round.buffer.size / 4) 0, ∀ s, P s →
      ∀ t, TurnEffect codes round.buffer server (some pongHandler) ptr s t →
        ∃ s', t = some s' ∧ P s' := by
    intro ptr hptr s hs t heffect
    cases heffect with
    | answer hrecord =>
      have hmem := mem_recordsAt hptr hrecord
      have hapart := hround.apart _ hmem
      have harrives := hround.arrives _ hmem
      have hstill : Arrives s.memory (round.buffer.txn (ptr + 1)) bytes :=
        { harrives with bytes := (hs.1 _ _ hapart).trans harrives.bytes }
      obtain ⟨m', reply, hpong, hreplies, hframe⟩ :=
        pongHandler_replies hstill hspells hapart
      refine ⟨_, by simp only [answerTransaction, hpong]; rfl, fun p k hpk => ?_, ?_⟩
      · exact (hframe p k hpk).trans (hs.1 p k hpk)
      · intro sent hsent
        apply (List.mem_append.mp hsent).elim (hs.2 sent)
        intro hnew
        rw [List.mem_singleton.mp hnew]
        exact hreplies
    | reply => exact ⟨_, rfl, hs⟩
    | skip => exact ⟨_, rfl, hs⟩
    | fail => exact ⟨_, rfl, hs⟩
    | died hdead => exact absurd hdead (hround.undying ptr hptr)
  obtain ⟨s, hparse, -, hreplies⟩ := parseLoop_invariant hturn
    (s := ⟨round.memory, false, default, [], 1⟩) ⟨fun _ _ _ => rfl, nofun⟩
  exact ⟨s, hparse, parseLoop_freed hparse, hreplies⟩

end Pong

section Echo

variable {codes : CodeTable ParseLabel} {proc : Process} {a : PingArrays} {pongSrv size : ℕ}
  {m : Memory} {turns : List (List (Option Round))} {t : PingTurn}

lemma binderRequest_of_flags {msg : BinderIo} {target code : ℕ} (h : msg.flags = 0) :
    binderRequest m msg target code = some (bioTransfer m msg target code) := by
  rw [binderRequest, h]
  rfl

lemma IsPingTurn.sendsString (ht : IsPingTurn codes proc a pongSrv size m turns t)
    (h : 2 * (size / 2) + 2 ≤ maxPayloadSize) : SendsString a t (pingString size) where
  payload := payload_terminated h ht.payload
  inside := by
    rw [length_pingString]
    omega
  message := ht.message

/-- What fits in `rdata` comes back. -/
lemma IsPingTurn.echoed (ht : IsPingTurn codes proc a pongSrv size m turns t)
    (hturns : Undisturbed codes a size m turns) (h : size / 2 ≤ 117) :
    Echoed codes pongSrv t (pingString size) := by
  refine ⟨_, binderRequest_of_flags ht.flags, fun server round hround => ?_⟩
  obtain ⟨s, hparse, hfreed, hreplies⟩ := binderParse_server hround ht.message.spells
  refine ⟨s, hparse, hfreed, fun reply hreply harrives res hres => ?_⟩
  have hwhole : Spells reply.txn.data (pingString size) := by
    apply (hreplies reply hreply).whole
    rw [length_pingString]
    unfold messageSize rdataSize
    omega
  obtain ⟨reply₀, houtcome⟩ := ht.outcome
  rw [hres] at houtcome
  apply or_iff_not_imp_left.mpr
  intro hzero
  obtain ⟨round', hround', hmemory, txn, htxn, hbio⟩ :=
    binderCall_reply (hturns.undying t.rounds ht.rounds) houtcome.symm (not_not.mp hzero)
  have harrive := harrives round' hround' txn htxn
  rw [← hmemory] at harrive
  exact harrive.decodes hwhole hbio

theorem echoes_of_le (codes : CodeTable ParseLabel) (h : size / 2 ≤ 117) :
    Echoes codes size := by
  intro proc a pongSrv m turns hturns
  have hinside : 2 * (size / 2) + 2 ≤ maxPayloadSize := by
    unfold maxPayloadSize
    omega
  have htaken := hturns.of_subset (List.take_subset testTimes turns)
  obtain ⟨ts, hts, hall⟩ := pingLoop_turns proc pongSrv hinside htaken default default rfl
  refine ⟨by unfold terminatorPlace; omega, ts, hts, fun t ht => ?_⟩
  exact ⟨pingString size, length_pingString size, (hall t ht).sendsString hinside,
    (hall t ht).echoed htaken h⟩

end Echo

/-! ### The exchange that loses a longer string -/

section Cut

variable {codes : CodeTable ParseLabel} {size data : ℕ} {m : Memory} {bytes : List UInt8}

def sampleArrays : PingArrays where
  mockPayload := 0x10000
  iodata := 0x20000
  mockPayload_ne := by decide
  apart := .inl (by decide)

def sampleProcess : Process where
  rdata := 0x10000
  died _ m := m

/-- Where the driver maps what it delivers to either process. -/
def sampleMapping : ℕ := 0x40000

lemma arrives_deliver (label : ParseLabel) (hdata : data ≠ 0) :
    Arrives (deliver codes label data bytes m).memory
      ((recordBuffer codes label bytes.length data).txn 1) bytes where
  data_ne := hdata
  size := rfl
  bytes := Memory.read_write_self m data bytes

lemma bringsTransaction_deliver :
    BringsTransaction codes sampleProcess (deliver codes .transaction sampleMapping bytes m)
      bytes where
  undying := undying_recordBuffer codes _ _ (.inl rfl)
  arrives txn htxn := by
    rw [eq_of_mem_deliver codes _ (.inl rfl) htxn]
    exact arrives_deliver _ (by decide)
  apart txn htxn := by
    rw [eq_of_mem_deliver codes _ (.inl rfl) htxn]
    exact .inr (show sampleProcess.rdata + rdataSize ≤ sampleMapping by decide)

/-- A call that gets the reply at once. -/
lemma binderCall_deliver {proc : Process} {msg reply : BinderIo} {target code : ℕ}
    {m' : Memory} (hflags : msg.flags = 0) :
    binderCall codes proc m' msg reply target code
        [some (deliver codes .reply data bytes m)] =
      some ⟨0, bioInitFromTxn ((recordBuffer codes .reply bytes.length data).txn 1),
        (deliver codes .reply data bytes m).memory⟩ := by
  rw [binderCall, binderRequest_of_flags hflags]
  dsimp only
  rw [callLoop]
  simp only [deliver, binderParse_recordBuffer, Option.bind_eq_bind, Option.bind_some]
  rfl

/-- The length alone does not decode. -/
lemma not_decodes_of_cut {res : CallResult} {txn : BinderTxn} {cs : List ℕ}
    (harrives : Arrives res.memory txn (leBytes 4 cs.length)) (hshort : cs.length < maxBioSize / 2)
    (hreply : res.reply = bioInitFromTxn txn) : ¬ Decodes res cs := by
  intro hdecodes
  apply hdecodes.str_ne
  rw [hreply]
  have hword : res.memory.word txn.data = cs.length := by
    have hbytes := harrives.bytes
    rw [length_leBytes] at hbytes
    rw [Memory.word, hbytes, leNat_leBytes_word]
    unfold maxBioSize at hshort
    omega
  exact bioGetString16_of_missing harrives.data_ne harrives.size hword hshort

variable (codes) in
/-- To a message too long for `rdata` the server replies with the length. -/
lemma server_cuts {cs : List ℕ} (hspells : Spells bytes cs)
    (hlong : rdataSize - 16 < messageSize cs.length) (m : Memory) :
    ∃ s, binderParse codes sampleProcess (some pongHandler) false default
        (deliver codes .transaction sampleMapping bytes m).memory
        (deliver codes .transaction sampleMapping bytes m).buffer = some s ∧
      ∃ reply ∈ s.sent, reply.txn.data = leBytes 4 cs.length := by
  obtain ⟨s, hparse, hfreed, hreplies⟩ := binderParse_server bringsTransaction_deliver hspells
  have hone : s.sent.map (·.freed) = [sampleMapping] := by
    rw [hfreed]
    exact congrArg (List.map (·.data)) (records_recordBuffer codes _ _ (.inl rfl))
  have hsome : s.sent ≠ [] := by
    intro hnil
    rw [hnil] at hone
    cases hone
  obtain ⟨reply, hreply⟩ := List.exists_mem_of_ne_nil _ hsome
  exact ⟨s, hparse, reply, hreply, (hreplies reply hreply).cut hlong⟩

variable {m₀ m' : Memory} {msg : BinderIo}

lemma undisturbed_deliver
    (hm : m.read sampleArrays.mockPayload maxPayloadSize =
      (fillPayload sampleArrays size m₀).read sampleArrays.mockPayload maxPayloadSize) :
    Undisturbed codes sampleArrays size m₀
      [[some (deliver codes .reply sampleMapping bytes m)]] := by
  have honly : ∀ rounds ∈ [[some (deliver codes .reply sampleMapping bytes m)]],
      ∀ round, some round ∈ rounds → round = deliver codes .reply sampleMapping bytes m := by
    intro rounds hrounds round hround
    rw [List.mem_singleton.mp hrounds] at hround
    exact Option.some.inj (List.mem_singleton.mp hround)
  constructor
  · intro rounds hrounds round hround
    rw [honly rounds hrounds round hround, ← hm]
    exact Memory.read_write_of_le (by decide)
  · intro rounds hrounds round hround
    rw [honly rounds hrounds round hround]
    exact undying_recordBuffer codes _ _ (.inr rfl)

lemma startPing_deliver
    (hmessage : pingMessage sampleArrays default (fillPayload sampleArrays size m₀) =
      some (m', msg)) (hflags : msg.flags = 0) :
    startPing codes sampleProcess sampleArrays 0 size m₀
        [[some (deliver codes .reply sampleMapping bytes m)]] =
      some [⟨m', msg, [some (deliver codes .reply sampleMapping bytes m)],
        some ⟨0, bioInitFromTxn ((recordBuffer codes .reply bytes.length sampleMapping).txn 1),
          (deliver codes .reply sampleMapping bytes m).memory⟩⟩] := by
  change pingLoop codes sampleProcess sampleArrays 0 [[_]] default default _ = _
  rw [pingLoop, hmessage]
  dsimp only [Option.bind_eq_bind, Option.bind_some]
  rw [binderCall_deliver hflags]
  rfl

/-- Inside the array, a string too long for `rdata` is lost in a call that succeeds. -/
lemma not_echoes_of_inside (h : 117 < size / 2) (hinside : 2 * (size / 2) + 2 ≤ maxPayloadSize) :
    ¬ Echoes codes size := by
  intro hechoes
  let m₀ : Memory := fun _ => 0
  -- The message of the first turn is the same whatever the rounds of its call are.
  obtain ⟨m', msg, hmessage, hflags, hholds, hpayload⟩ :=
    pingMessage_of_payload default hinside
      (rfl : (fillPayload sampleArrays size m₀).read sampleArrays.mockPayload maxPayloadSize = _)
  have hlong : rdataSize - 16 < messageSize (pingString size).length := by
    rw [length_pingString]
    unfold messageSize rdataSize
    omega
  obtain ⟨s, hparse, reply, hreply, hcut⟩ := server_cuts codes hholds.spells hlong m₀
  obtain ⟨-, ts, hts, hall⟩ := hechoes sampleProcess sampleArrays 0 m₀
    [[some (deliver codes .reply sampleMapping reply.txn.data m')]] (undisturbed_deliver hpayload)
  obtain rfl := Option.some.inj ((startPing_deliver hmessage hflags).symm.trans hts)
  obtain ⟨cs, hlength, -, request, hrequest, hechoed⟩ := hall _ List.mem_cons_self
  obtain rfl := Option.some.inj ((binderRequest_of_flags hflags).symm.trans hrequest)
  obtain ⟨s', hparse', -, hback⟩ := hechoed sampleProcess _ bringsTransaction_deliver
  obtain rfl := Option.some.inj (hparse.symm.trans hparse')
  -- The call succeeds, and what it has got does not decode.
  have harrives : Arrives (deliver codes .reply sampleMapping reply.txn.data m').memory
      ((recordBuffer codes .reply reply.txn.data.length sampleMapping).txn 1) reply.txn.data :=
    arrives_deliver _ (by decide)
  have hresult := hback reply hreply (fun round hround txn htxn => by
    rw [Option.some.inj (List.mem_singleton.mp hround)] at htxn ⊢
    rw [eq_of_mem_deliver codes _ (.inr rfl) htxn]
    exact harrives) _ rfl
  apply hresult.elim (fun hfailed => hfailed rfl)
  have hshort : cs.length < maxBioSize / 2 := by
    rw [hlength]
    unfold maxPayloadSize at hinside
    unfold maxBioSize
    omega
  rw [length_pingString, ← hlength] at hcut
  exact not_decodes_of_cut (hcut ▸ harrives) hshort rfl

theorem not_echoes_of_lt (h : 117 < size / 2) : ¬ Echoes codes size := by
  by_cases hinside : 2 * (size / 2) + 2 ≤ maxPayloadSize
  · exact not_echoes_of_inside h hinside
  intro hechoes
  have hplace := (hechoes sampleProcess sampleArrays 0 (fun _ => 0) [] ⟨nofun, nofun⟩).1
  unfold terminatorPlace at hplace
  omega

end Cut

/-- The benchmark echoes its payload exactly for the sizes that fit in the array `rdata` of the
other process. -/
theorem echoes_iff (codes : CodeTable ParseLabel) {size : ℕ} (heven : Even size) :
    Echoes codes size ↔ size ≤ 234 := by
  obtain ⟨n, rfl⟩ := heven
  constructor
  · intro hechoes
    by_contra hlong
    exact not_echoes_of_lt (by omega) hechoes
  · intro hshort
    exact echoes_of_le codes (by omega)

/-- The smallest size of `main`. -/
theorem four_bytes_echoed : Echoes parseCodes 4 :=
  (echoes_iff parseCodes (by decide)).mpr (by decide)

/-- The size of `main` behind it. -/
theorem kilobyte_cut : ¬ Echoes parseCodes 1024 :=
  not_echoes_of_lt (by decide)

end ExpressOS

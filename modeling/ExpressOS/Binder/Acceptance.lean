import ExpressOS.Binder.Refinement

/-!
# What the marshaler accepts
-/

namespace ExpressOS
open Systems

variable (codes : BinderCodes) (vm : BinderVm)

/-- Every segment starts inside the mapping, the table holds them all, and the copied stream with
all frames fits the output buffer. -/
def SegmentsFit (size : ℕ) (rs : List Request) : Prop :=
  (∀ r ∈ rs, vm.contains r.ptr) ∧ rs.length ≤ maxSegmentNum ∧
    size + (rs.map (fun r => dataSegmentSize + r.length)).sum ≤ marshalerBufSize

/-- The format of the marshaler: a concatenation of whole commands whose segments fit. -/
def WellFormed (R : List UInt8) : Prop :=
  ∃ cs, R = codes.stream.encodeAll cs ∧ SegmentsFit vm R.length (requestsOf cs)

/-- Streams that would be well formed but for a last reference-count command that is cut off. -/
def EndsInCutRefs (R : List UInt8) : Prop :=
  ∃ cs tail, R = codes.stream.encodeAll cs ++ tail ∧ CutRefs codes tail ∧
    SegmentsFit vm R.length (requestsOf cs)

lemma framesSize_segments (rs : List Request) :
    framesSize (rs.map (Request.segment vm)) =
      (rs.map (fun r => dataSegmentSize + r.length)).sum := by
  rw [framesSize, List.map_map]
  rfl

lemma splitCommand_of_cutRefs {tail : List UInt8} (h : CutRefs codes tail) :
    splitCommand codes tail = none := by
  obtain ⟨hge, hlt, hbody⟩ := h
  unfold splitCommand
  rw [if_neg (by omega)]
  cases hk : codes.decode (leNat (tail.take 4)) with
  | none => rfl
  | some k =>
    rw [hk] at hbody
    have hargs : k.argSize = 8 := by
      rw [BrCommand.argSize, Option.some.inj hbody]
      rfl
    exact dif_neg (by omega)

lemma not_wellFormed_of_endsInCutRefs {R : List UInt8} (h : EndsInCutRefs codes vm R) :
    ¬ WellFormed codes vm R := by
  obtain ⟨cs, tail, hR, hcut, -⟩ := h
  rintro ⟨cs', hR', -⟩
  have hsplit := codes.stream.decodeAll_append (splitCommand_of_cutRefs codes hcut) cs
  have hwhole := codes.stream.decodeAll_append codes.stream.split_nil cs'
  rw [List.append_nil, ← hR', hR, hsplit] at hwhole
  have hnil : tail = [] := congrArg Prod.snd hwhole
  have hlen := hcut.1
  rw [hnil] at hlen
  simp at hlen

lemma marshalOutcome_eq_zero_iff {R : List UInt8} :
    marshalOutcome codes vm R = .ret 0 ↔
      StreamParses codes vm R ∧
        ((requestsOf (codes.stream.decodeAll R).1).map (fun r => dataSegmentSize + r.length)).sum ≤
          marshalerBufSize - R.length := by
  by_cases hparse : StreamParses codes vm R
  · obtain ⟨htable, hout⟩ := marshalOutcome_of_parses hparse
    have hfree : marshalerBufSize - R.length < 2 ^ 31 :=
      lt_of_le_of_lt (Nat.sub_le _ _) (by decide)
    rw [hout, Outcome.collapse_eq_zero_iff, appendOutcome_eq_zero_iff hfree, htable,
      framesSize_segments, and_iff_right hparse]
  · obtain ⟨r, hneg, hout⟩ := marshalOutcome_of_not_parses hparse
    rw [hout]
    simp [hparse, hneg.ne]

theorem marshalOutcome_eq_zero_iff_format {R : List UInt8} (hR : R.length ≤ readBufferSize) :
    marshalOutcome codes vm R = .ret 0 ↔ WellFormed codes vm R ∨ EndsInCutRefs codes vm R := by
  have hsize : readBufferSize ≤ marshalerBufSize := by decide
  rw [marshalOutcome_eq_zero_iff, StreamParses,
    tailError_eq_none_iff (codes.stream.split_decodeAll R)]
  constructor
  · rintro ⟨⟨htail, hin, hroom⟩, hfit⟩
    have hwhole := codes.stream.encodeAll_decodeAll R
    have hseg : SegmentsFit vm R.length (requestsOf (codes.stream.decodeAll R).1) :=
      ⟨hin, hroom, by omega⟩
    rcases htail with hnil | hcut
    · left
      rw [hnil, List.append_nil] at hwhole
      exact ⟨_, hwhole.symm, hseg⟩
    · exact Or.inr ⟨_, _, hwhole.symm, hcut, hseg⟩
  · rintro (⟨cs, hcs, hin, hroom, hfit⟩ | ⟨cs, tail, hcs, hcut, hin, hroom, hfit⟩)
    · have hdec := codes.stream.decodeAll_append codes.stream.split_nil cs
      rw [List.append_nil, ← hcs] at hdec
      rw [hdec]
      exact ⟨⟨Or.inl rfl, hin, hroom⟩, by dsimp only; omega⟩
    · have hdec := codes.stream.decodeAll_append (splitCommand_of_cutRefs codes hcut) cs
      rw [← hcs] at hdec
      rw [hdec]
      exact ⟨⟨Or.inr hcut, hin, hroom⟩, by dsimp only; omega⟩

/-- Acceptance is exactly the format, except on streams that end in a cut-off reference-count
command: that branch of the switch has no remaining-length check. -/
theorem marshalerMarshal_accepts_exactly_iff (junk : Memory) (R : List UInt8)
    (hR : R.length ≤ readBufferSize) :
    ((marshalerMarshal codes vm (.fresh junk) R).1 = .ret 0 ↔ WellFormed codes vm R) ↔
      ¬ EndsInCutRefs codes vm R := by
  rw [(marshalerMarshal_spec codes vm junk hR).1, marshalOutcome_eq_zero_iff_format codes vm hR]
  constructor
  · intro h hcut
    exact not_wellFormed_of_endsInCutRefs codes vm hcut (h.mp (Or.inr hcut))
  · intro h
    exact ⟨fun hor => hor.resolve_right h, Or.inl⟩

/-- A mapping of zero bytes, for the concrete streams below. -/
def zeroVm : BinderVm :=
  ⟨0x40000000, fun _ => 0, by decide⟩

/-- A `BR_REPLY` with one data segment and no offsets. -/
def replyStream (dataSize dataPtr : ℕ) : List UInt8 :=
  leBytes 4 0x80287203 ++ List.replicate 24 0 ++ leBytes 4 dataSize ++ leBytes 4 0 ++
    leBytes 4 dataPtr ++ leBytes 4 0

def noopCommand : Command := ⟨.noop, [], rfl⟩

/-- A `BR_REPLY` with three bytes of data at `0x40000010`. -/
def threeBytes : Command := ⟨.reply, (replyStream 3 0x40000010).drop 4, by decide⟩

/-- A `BR_NOOP`, a `BR_INCREFS` of two pointers and the reply of three bytes. -/
def callCommands : List Command :=
  [noopCommand, ⟨.increfs, leBytes 4 0x11 ++ leBytes 4 0x12, by decide⟩, threeBytes]

/-- Their bytes, with the data of the reply at `dataPtr`. -/
def callBytes (dataPtr : ℕ) : List UInt8 :=
  leBytes 4 0x720c ++ leBytes 4 0x80087207 ++ leBytes 4 0x11 ++ leBytes 4 0x12 ++
    replyStream 3 dataPtr

def callStream : List UInt8 := callBytes 0x40000010

lemma callStream_wellFormed : WellFormed driverCodes zeroVm callStream := by
  have hrequests : requestsOf callCommands = [⟨0x40000010, 3⟩] := by decide +kernel
  refine ⟨callCommands, by decide +kernel, ?_⟩
  rw [hrequests]
  exact ⟨by decide, by decide, by decide +kernel⟩

/-- Three commands, of which one names a segment: accepted, and of the format. -/
theorem callStream_accepts_exactly :
    callStream.length ≤ readBufferSize ∧
      ((marshalerMarshal driverCodes zeroVm (.fresh (fun _ => 0)) callStream).1 = .ret 0 ↔
        WellFormed driverCodes zeroVm callStream) :=
  ⟨by decide, (marshalerMarshal_accepts_exactly_iff driverCodes zeroVm (fun _ => 0) _
    (by decide)).mpr
      fun hcut => not_wellFormed_of_endsInCutRefs driverCodes zeroVm hcut callStream_wellFormed⟩

/-- The word `BR_INCREFS` alone, without its two pointers, is marshaled with return value 0. -/
theorem cut_increfs_accepted :
    ¬ ((marshalerMarshal driverCodes zeroVm (.fresh (fun _ => 0)) [0x07, 0x72, 0x08, 0x80]).1 =
        .ret 0 ↔ WellFormed driverCodes zeroVm [0x07, 0x72, 0x08, 0x80]) := by
  have hret : (marshalerMarshal driverCodes zeroVm (.fresh (fun _ => 0))
      [0x07, 0x72, 0x08, 0x80]).1 = .ret 0 := by decide +kernel
  have hcut : EndsInCutRefs driverCodes zeroVm [0x07, 0x72, 0x08, 0x80] :=
    ⟨[], _, rfl, ⟨by decide, by decide, by decide⟩, by simp, by decide, by decide⟩
  intro h
  exact not_wellFormed_of_endsInCutRefs driverCodes zeroVm hcut (h.mp hret)

end ExpressOS

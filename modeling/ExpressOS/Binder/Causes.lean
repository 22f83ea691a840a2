import ExpressOS.Binder.Requests

/-!
# Why a read buffer is refused

The first thing that is wrong with a read buffer, and what `marshaler_marshal` returns for it.
-/

namespace ExpressOS
open Systems

inductive MarshalCause
  | truncated
  | outside
  | tableFull
  | bufferFull
  | unknownCommand
  deriving DecidableEq, Repr

/-- The value `marshaler_marshal` returns. -/
def MarshalCause.code : MarshalCause → ℤ
  | .truncated | .outside => -EFAULT
  | .tableFull => -ENOMEM
  | .bufferFull | .unknownCommand => -1

/-- The error number that stands for a cause, where one is asked for. -/
def MarshalCause.errno : MarshalCause → Option ℤ
  | .truncated | .outside => some EFAULT
  | .tableFull | .bufferFull => some ENOMEM
  | .unknownCommand => none

/-- The first request that has no place in the table, with `n` entries there, or lies outside. -/
def recordCause (vm : BinderVm) : List Request → ℕ → Option MarshalCause
  | [], _ => none
  | r :: rs, n =>
    if n ≥ maxSegmentNum then some .tableFull
    else if vm.contains r.ptr then recordCause vm rs (n + 1)
    else some .outside

/-- What is wrong with bytes that start no whole command. A cut-off reference-count command is not
noticed. -/
def tailCause (codes : BinderCodes) (tail : List UInt8) : Option MarshalCause :=
  if tail = [] then none
  else if tail.length < 4 then some .truncated
  else
    match (codes.decode (leNat (tail.take 4))).map BrCommand.body with
    | some .skip | some .refs => none
    | some .transaction => some .truncated
    | none => some .unknownCommand

/-- A frame that does not fit, when every frame before it does. -/
def appendCause (free : ℕ) (es : List DataSegment) : Option MarshalCause :=
  if appendOutcome free es = .ret (-ENOMEM) then some .bufferFull else none

def marshalCause (codes : BinderCodes) (vm : BinderVm) (R : List UInt8) : Option MarshalCause :=
  let (cs, tail) := codes.stream.decodeAll R
  ((recordCause vm (requestsOf cs) 0).or (tailCause codes tail)).or
    (appendCause (marshalerBufSize - R.length) ((requestsOf cs).map (Request.segment vm)))

section Causes

variable {codes : BinderCodes} {vm : BinderVm}

lemma recordAll_cause (rs : List Request) (es : List DataSegment) :
    (recordAll vm rs es).1 = (recordCause vm rs es.length).map MarshalCause.code := by
  induction rs generalizing es with
  | nil => rfl
  | cons r rs ih =>
    rw [recordAll, recordCause]
    by_cases hfull : es.length ≥ maxSegmentNum
    · rw [if_pos hfull, if_pos hfull]
      rfl
    · rw [if_neg hfull, if_neg hfull]
      by_cases hin : vm.contains r.ptr
      · rw [if_pos hin, if_pos hin, ih, List.length_append]
        rfl
      · rw [if_neg hin, if_neg hin]
        rfl

lemma tailError_cause (tail : List UInt8) :
    tailError codes tail = (tailCause codes tail).map MarshalCause.code := by
  unfold tailError tailCause
  split_ifs
  · rfl
  · rfl
  · cases (codes.decode (leNat (tail.take 4))).map BrCommand.body with
    | none => rfl
    | some body => cases body <;> rfl

/-- Appending ends well, with a full buffer, or beyond its end. -/
lemma appendOutcome_cases (free : ℕ) (es : List DataSegment) :
    appendOutcome free es = .ret 0 ∨ appendOutcome free es = .ret (-ENOMEM) ∨
      appendOutcome free es = .fault := by
  induction es generalizing free with
  | nil => exact .inl rfl
  | cons e es ih =>
    rw [appendOutcome]
    split_ifs
    · exact .inr (.inl rfl)
    · exact .inr (.inr rfl)
    · exact ih _

/-- The value for the first cause, and otherwise success or a write beyond the buffer. -/
theorem marshalOutcome_cause (codes : BinderCodes) (vm : BinderVm) (R : List UInt8) :
    (∃ c, marshalCause codes vm R = some c ∧ marshalOutcome codes vm R = .ret c.code) ∨
      marshalCause codes vm R = none ∧
        (marshalOutcome codes vm R = .ret 0 ∨ marshalOutcome codes vm R = .fault) := by
  unfold marshalCause marshalOutcome
  dsimp only
  have hrecord : (recordAll vm (requestsOf (codes.stream.decodeAll R).1) []).1 =
      (recordCause vm (requestsOf (codes.stream.decodeAll R).1) 0).map MarshalCause.code :=
    recordAll_cause _ []
  cases hr : recordCause vm (requestsOf (codes.stream.decodeAll R).1) 0 with
  | some c =>
    rw [hr] at hrecord
    rw [hrecord]
    exact .inl ⟨c, rfl, rfl⟩
  | none =>
    rw [hr] at hrecord
    rw [hrecord, tailError_cause, recordAll_of_none hrecord]
    cases tailCause codes (codes.stream.decodeAll R).2 with
    | some c => exact .inl ⟨c, rfl, rfl⟩
    | none =>
      simp only [Option.map_none, Option.or_none, Option.none_or, List.nil_append, appendCause]
      obtain hend | hend | hend := appendOutcome_cases (marshalerBufSize - R.length)
        ((requestsOf (codes.stream.decodeAll R).1).map (Request.segment vm))
      · rw [hend]
        exact .inr ⟨rfl, .inl rfl⟩
      · rw [hend]
        exact .inl ⟨.bufferFull, rfl, rfl⟩
      · rw [hend]
        exact .inr ⟨rfl, .inr rfl⟩

end Causes

end ExpressOS

import Mathlib

/-!
# A mutex with a condition variable

The operations of a monitor as the threads library has them: each is `none` where the calling
thread would block or the call would be an error. `wait` releases the mutex and puts the thread to
sleep in one step; a thread that has been woken, by a signal or for no reason, has to take the mutex
again.
-/

namespace Systems

structure Monitor (τ : Type) where
  owner : Option τ
  asleep : List τ

namespace Monitor

variable {τ : Type}

def free : Monitor τ := ⟨none, []⟩

def lock (m : Monitor τ) (t : τ) : Option (Monitor τ) :=
  if m.owner = none then some { m with owner := some t } else none

lemma lock_eq_some_iff {m m' : Monitor τ} {t : τ} :
    m.lock t = some m' ↔ m.owner = none ∧ ⟨some t, m.asleep⟩ = m' := by
  unfold lock
  split_ifs with h <;> simp [h]

variable [DecidableEq τ]

def unlock (m : Monitor τ) (t : τ) : Option (Monitor τ) :=
  if m.owner = some t then some { m with owner := none } else none

def wait (m : Monitor τ) (t : τ) : Option (Monitor τ) :=
  if m.owner = some t then some ⟨none, t :: m.asleep⟩ else none

def wake (m : Monitor τ) (t : τ) : Option (Monitor τ) :=
  if t ∈ m.asleep then some { m with asleep := m.asleep.erase t } else none

/-- Nobody is woken only when nobody sleeps. -/
def signal (m : Monitor τ) : Option τ → Option (Monitor τ)
  | some t => m.wake t
  | none => if m.asleep = [] then some m else none

lemma unlock_eq_some_iff {m m' : Monitor τ} {t : τ} :
    m.unlock t = some m' ↔ m.owner = some t ∧ ⟨none, m.asleep⟩ = m' := by
  unfold unlock
  split_ifs with h <;> simp [h]

lemma wait_eq_some_iff {m m' : Monitor τ} {t : τ} :
    m.wait t = some m' ↔ m.owner = some t ∧ ⟨none, t :: m.asleep⟩ = m' := by
  unfold wait
  split_ifs with h <;> simp [h]

lemma wake_eq_some_iff {m m' : Monitor τ} {t : τ} :
    m.wake t = some m' ↔ t ∈ m.asleep ∧ ⟨m.owner, m.asleep.erase t⟩ = m' := by
  unfold wake
  split_ifs with h <;> simp [h]

lemma signal_eq_some_iff {m m' : Monitor τ} {pick : Option τ} :
    m.signal pick = some m' ↔
      (∀ t, pick = some t → t ∈ m.asleep) ∧ (pick = none → m.asleep = []) ∧
        ⟨m.owner, pick.elim m.asleep (fun t => m.asleep.erase t)⟩ = m' := by
  cases pick with
  | some t => simp [signal, wake_eq_some_iff]
  | none =>
    unfold signal
    split_ifs with h
    · obtain ⟨owner, asleep⟩ := m
      obtain rfl : asleep = [] := h
      simp
    · simp [h]

/-- `holds` says where each thread stands, and the mutex says the same. -/
def Guards (m : Monitor τ) (holds : τ → Prop) : Prop := ∀ t, holds t ↔ m.owner = some t

namespace Guards

omit [DecidableEq τ]

variable {m m' : Monitor τ} {holds holds' : τ → Prop} {t : τ}

/-- At most one thread is inside. -/
lemma eq (h : m.Guards holds) {t' : τ} (ht : holds t) (ht' : holds t') : t = t' :=
  Option.some.inj (((h t).mp ht).symm.trans ((h t').mp ht'))

lemma lock (h : m.Guards holds) (hm : m.lock t = some m') (ht : holds' t)
    (hrest : ∀ t', t' ≠ t → (holds' t' ↔ holds t')) : m'.Guards holds' := by
  obtain ⟨hfree, rfl⟩ := lock_eq_some_iff.mp hm
  intro t'
  by_cases heq : t' = t
  · subst heq
    exact iff_of_true ht rfl
  · rw [hrest t' heq, h t', hfree]
    exact iff_of_false (fun hnone => by cases hnone) (fun hsome => heq (Option.some.inj hsome).symm)

lemma leave (h : m.Guards holds) (howner : m.owner = some t) (hfree : m'.owner = none)
    (ht : ¬ holds' t) (hrest : ∀ t', t' ≠ t → (holds' t' ↔ holds t')) : m'.Guards holds' := by
  intro t'
  rw [hfree]
  apply iff_of_false _ (fun hnone => by cases hnone)
  intro hin
  by_cases heq : t' = t
  · exact ht (heq ▸ hin)
  · exact heq (Option.some.inj (((h t').mp ((hrest t' heq).mp hin)).symm.trans howner))

lemma stay (h : m.Guards holds) (howner : m'.owner = m.owner)
    (hholds : ∀ t', holds' t' ↔ holds t') : m'.Guards holds' := by
  intro t'
  rw [hholds t', h t', howner]

end Guards

end Monitor

end Systems

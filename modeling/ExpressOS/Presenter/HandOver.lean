import ExpressOS.Presenter.ActionQueue

/-!
# The hand-over of actions

Every action that a caller stores is executed once, in the order of storing, whatever the threads do
in between. So what `runPresentation` shows is a fold over the stored actions.
-/

namespace ExpressOS
open Systems Presenter

structure View where
  slide : ℕ
  blank : Bool
  deriving DecidableEq, Repr

/-- What an action is for, when `last` is the number of slides. -/
def View.act (last : ℕ) (v : View) : Action → View
  | .nextSlide => { v with slide := min last (v.slide + 1) }
  | .prevSlide => { v with slide := max 1 (v.slide - 1) }
  | .toggleBlank => { v with blank := !v.blank }
  | .noOp => v

def Presenter.view (p : Presenter) : View := ⟨p.currentSlide, p.blankScreen⟩

/-- A presenter with `last` slides that shows `v`, and the slide of `v` exists. -/
structure Shows (last : ℕ) (v : View) (p : Presenter) : Prop where
  view : p.view = v
  number : p.numberOfSlides = last
  first_le : 1 ≤ v.slide
  le_last : v.slide ≤ last

/-- Whatever comes of the load, the presenter follows the view. -/
lemma Shows.execute {last : ℕ} {v : View} {p : Presenter} (h : Shows last v p)
    (slides : SlideArchive) (a : Action) : Shows last (v.act last a) (p.execute slides a) := by
  obtain ⟨rfl, rfl, hfirst, hlast⟩ := h
  change 1 ≤ p.currentSlide at hfirst
  change p.currentSlide ≤ p.numberOfSlides at hlast
  refine ⟨?_, execute_numberOfSlides .., ?_, ?_⟩
  · unfold Presenter.view
    rw [execute_currentSlide, execute_blankScreen]
    cases a with
    | noOp | toggleBlank => rfl
    | prevSlide =>
      have hturn : Action.prevSlide.turn p.numberOfSlides p.currentSlide =
          max 1 (p.currentSlide - 1) := by
        unfold Action.turn
        dsimp only
        split_ifs <;> omega
      rw [hturn]
      rfl
    | nextSlide =>
      have hturn : Action.nextSlide.turn p.numberOfSlides p.currentSlide =
          min p.numberOfSlides (p.currentSlide + 1) := by
        unfold Action.turn
        dsimp only
        split_ifs <;> omega
      rw [hturn]
      rfl
  · cases a with
    | noOp | toggleBlank => exact hfirst
    | prevSlide => exact le_max_left ..
    | nextSlide => exact le_min (hfirst.trans hlast) (Nat.le_add_left ..)
  · cases a with
    | noOp | toggleBlank => exact hlast
    | prevSlide => exact max_le (hfirst.trans hlast) ((Nat.sub_le ..).trans hlast)
    | nextSlide => exact min_le_left ..

lemma Shows.executeAll {last : ℕ} {v : View} {p : Presenter} (h : Shows last v p)
    (executed : List (SlideArchive × Action)) :
    Shows last ((executed.map Prod.snd).foldl (View.act last) v)
      (executed.foldl (fun p e => p.execute e.1 e.2) p) := by
  induction executed generalizing v p with
  | nil => exact h
  | cons e executed ih => exact ih (h.execute e.1 e.2)

lemma shows_begun {slides : SlideArchive} {last width height : ℕ} (hlast : 1 ≤ last)
    (hload : (loadSlide slides 1 (opened last width height)).1 = NO_ERROR) :
    Shows last ⟨1, false⟩ (begun slides (opened last width height)) := by
  obtain ⟨-, hfails, -⟩ | ⟨bitmap, -, h⟩ := loadSlide_cases slides (opened last width height) 1
  · rw [hload] at hfails
    cases hfails
  · refine ⟨?_, ?_, le_rfl, hlast⟩
    · unfold begun
      rw [h]
      rfl
    · unfold begun
      rw [h]
      rfl

namespace ActionQueue

variable {P : Type}

/-- The action in `mAction`, as long as it has not been executed. -/
def pending (s : ActionQueue P) : List Action :=
  if s.runner = .clearing ∨ s.action = .noOp then [] else [s.action]

/-- `first` is the presenter at the start. -/
structure HandOverInv (first : Presenter) (s : ActionQueue P) : Prop where
  guards : s.monitor.Guards s.Holds
  executing : s.runner = .executing → s.action ≠ .noOp
  storing : ∀ p a, s.callers p = .storing a → s.action = .noOp
  ledger : s.stored.map Subtype.val = s.executed.map Prod.snd ++ s.pending
  presenter : s.presenter = s.executed.foldl (fun p e => p.execute e.1 e.2) first

variable {first : Presenter} {s s' : ActionQueue P} {m : Monitor (Thread P)}

section Runner

variable {r : RunnerPhase}

lemma holds_runner_moves (t : Thread P) (ht : t ≠ .runner) :
    { s with monitor := m, runner := r }.Holds t ↔ s.Holds t := by
  cases t with
  | runner => exact absurd rfl ht
  | caller p => exact Iff.rfl

lemma holds_runner_stays {old : RunnerPhase} (hphase : s.runner = old)
    (hholds : r.holds ↔ old.holds) (t : Thread P) :
    { s with monitor := m, runner := r }.Holds t ↔ s.Holds t := by
  subst hphase
  cases t with
  | runner => exact hholds
  | caller p => exact Iff.rfl

/-- A step of `runPresentation` that only takes, leaves or tests. -/
lemma HandOverInv.runner_moves (h : HandOverInv first s)
    (hguards : m.Guards { s with monitor := m, runner := r }.Holds) (hold : s.runner ≠ .clearing)
    (hnew : r ≠ .clearing) (hexec : r = .executing → s.action ≠ .noOp) :
    HandOverInv first { s with monitor := m, runner := r } := by
  refine ⟨hguards, hexec, h.storing, ?_, h.presenter⟩
  have hledger := h.ledger
  unfold pending at hledger ⊢
  simpa only [hold, hnew, false_or] using hledger

lemma HandOverInv.execute (h : HandOverInv first s) (hphase : s.runner = .executing)
    (slides : SlideArchive) :
    HandOverInv first { s with
      presenter := s.presenter.execute slides s.action
      runner := .clearing
      executed := s.executed ++ [(slides, s.action)] } := by
  refine ⟨h.guards.stay rfl fun t => ?_, nofun, h.storing, ?_, ?_⟩
  · have hstays := @holds_runner_stays P s s.monitor .clearing .executing hphase Iff.rfl t
    cases t <;> exact hstays
  · have hpending : s.pending = [s.action] := by
      unfold pending
      rw [if_neg]
      rintro (hclear | hempty)
      · rw [hphase] at hclear
        cases hclear
      · exact h.executing hphase hempty
    rw [h.ledger, hpending]
    simp [pending]
  · rw [List.foldl_append, ← h.presenter]
    rfl

lemma HandOverInv.clear (h : HandOverInv first s) (hphase : s.runner = .clearing) :
    HandOverInv first { s with action := .noOp, runner := .unlocking } := by
  refine ⟨h.guards.stay rfl fun t => ?_, nofun, fun _ _ _ => rfl, ?_, h.presenter⟩
  · have hstays := @holds_runner_stays P s s.monitor .unlocking .clearing hphase Iff.rfl t
    cases t <;> exact hstays
  · rw [h.ledger]
    simp [pending, hphase]

end Runner

lemma handOverInv_init (first : Presenter) :
    HandOverInv first (init first : ActionQueue P) := by
  refine ⟨fun t => ?_, nofun, nofun, rfl, rfl⟩
  cases t with
  | runner => exact iff_of_false id nofun
  | caller p => exact iff_of_false id nofun

variable [DecidableEq P]

lemma HandOverInv.runner {a : RunnerAct} (h : HandOverInv first s) (ht : RunnerTurn s s' a) :
    HandOverInv first s' := by
  cases a with
  | lock =>
    obtain ⟨hphase, m, hm, rfl⟩ := ht
    exact h.runner_moves (h.guards.lock hm trivial holds_runner_moves)
      (hphase.trans_ne nofun) nofun nofun
  | test =>
    obtain ⟨hphase, ⟨hempty, rfl⟩ | ⟨hfull, rfl⟩⟩ := ht
    · exact h.runner_moves (h.guards.stay rfl (holds_runner_stays hphase Iff.rfl))
        (hphase.trans_ne nofun) nofun nofun
    · exact h.runner_moves (h.guards.stay rfl (holds_runner_stays hphase Iff.rfl))
        (hphase.trans_ne nofun) nofun (fun _ => hfull)
  | wait =>
    obtain ⟨hphase, m, hm, rfl⟩ := ht
    obtain ⟨howner, rfl⟩ := Monitor.wait_eq_some_iff.mp hm
    exact h.runner_moves (h.guards.leave howner rfl id holds_runner_moves)
      (hphase.trans_ne nofun) nofun nofun
  | wake =>
    obtain ⟨hphase, m, hm, rfl⟩ := ht
    obtain ⟨-, rfl⟩ := Monitor.wake_eq_some_iff.mp hm
    exact h.runner_moves (h.guards.stay rfl (holds_runner_stays rfl Iff.rfl))
      (hphase.trans_ne nofun) (hphase.trans_ne nofun) h.executing
  | relock =>
    obtain ⟨hphase, -, m, hm, rfl⟩ := ht
    exact h.runner_moves (h.guards.lock hm trivial holds_runner_moves)
      (hphase.trans_ne nofun) nofun nofun
  | execute slides =>
    obtain ⟨hphase, rfl⟩ := ht
    exact h.execute hphase slides
  | clear =>
    obtain ⟨hphase, rfl⟩ := ht
    exact h.clear hphase
  | unlock =>
    obtain ⟨hphase, m, hm, rfl⟩ := ht
    obtain ⟨howner, rfl⟩ := Monitor.unlock_eq_some_iff.mp hm
    exact h.runner_moves (h.guards.leave howner rfl id holds_runner_moves)
      (hphase.trans_ne nofun) nofun nofun

section Callers

variable {p : P} {phase : CallerPhase}

lemma setCaller_holds_self : (s.setCaller p phase m).Holds (.caller p) ↔ phase.holds := by
  unfold Holds
  dsimp only
  rw [setCaller_callers_self]

lemma holds_caller_moves (t : Thread P) (ht : t ≠ .caller p) :
    (s.setCaller p phase m).Holds t ↔ s.Holds t := by
  cases t with
  | runner => exact Iff.rfl
  | caller p' =>
    unfold Holds
    dsimp only
    rw [setCaller_callers_of_ne]
    intro heq
    exact ht (congrArg Thread.caller heq)

lemma holds_caller_stays {old : CallerPhase} (hphase : s.callers p = old)
    (hholds : phase.holds ↔ old.holds) (t : Thread P) :
    (s.setCaller p phase m).Holds t ↔ s.Holds t := by
  by_cases ht : t = .caller p
  · subst ht
    rw [setCaller_holds_self, hholds, ← hphase]
    rfl
  · exact holds_caller_moves t ht

/-- A step of `signalAction` that does not store. -/
lemma HandOverInv.caller_moves (h : HandOverInv first s)
    (hguards : m.Guards (s.setCaller p phase m).Holds)
    (hstoring : ∀ a, phase = .storing a → s.action = .noOp) :
    HandOverInv first (s.setCaller p phase m) := by
  refine ⟨hguards, h.executing, fun p' a hp' => ?_, h.ledger, h.presenter⟩
  by_cases heq : p' = p
  · subst heq
    rw [setCaller_callers_self] at hp'
    exact hstoring a hp'
  · rw [setCaller_callers_of_ne s phase m heq] at hp'
    exact h.storing p' a hp'

/-- Nothing is overwritten, and the action goes to the end of the ledger. -/
lemma HandOverInv.store (h : HandOverInv first s) {a : SlideAction}
    (hphase : s.callers p = .storing a) :
    HandOverInv first { s.setCaller p .signalling s.monitor with
      action := a
      stored := s.stored ++ [a] } := by
  have hin : s.Holds (.caller p) := by
    change (s.callers p).holds
    rw [hphase]
    trivial
  have hclear : s.runner ≠ .clearing := by
    intro hclear
    have hrunner : s.Holds .runner := by
      change s.runner.holds
      rw [hclear]
      trivial
    cases h.guards.eq hin hrunner
  have hguards : s.monitor.Guards (s.setCaller p .signalling s.monitor).Holds :=
    h.guards.stay rfl (holds_caller_stays hphase Iff.rfl)
  refine ⟨hguards.stay rfl fun t => ?_, fun _ => a.2, fun p' b hp' => ?_, ?_,
    h.presenter⟩
  · cases t <;> rfl
  · -- only one caller is inside, and this one has stored
    have heq : p' = p := by
      by_contra hne
      have hin' : s.Holds (.caller p') := by
        have hphase' : s.callers p' = .storing b :=
          (s.setCaller_callers_of_ne .signalling s.monitor hne).symm.trans hp'
        change (s.callers p').holds
        rw [hphase']
        trivial
      exact hne (Thread.caller.inj (h.guards.eq hin' hin))
    subst heq
    cases (s.setCaller_callers_self p' .signalling s.monitor).symm.trans hp'
  · have hold : s.pending = [] := if_pos (.inr (h.storing p a hphase))
    have hnew : { s.setCaller p .signalling s.monitor with
        action := a.1
        stored := s.stored ++ [a] }.pending = [a.1] := by
      unfold pending
      exact if_neg (not_or.mpr ⟨hclear, a.2⟩)
    rw [hnew, List.map_append, h.ledger, hold]
    simp [setCaller]

lemma HandOverInv.caller {a : CallerAct P} (h : HandOverInv first s)
    (ht : CallerTurn s s' p a) : HandOverInv first s' := by
  cases a with
  | call a =>
    obtain ⟨hphase, ⟨-, rfl⟩ | ⟨hne, rfl⟩⟩ := ht
    · exact h.caller_moves (h.guards.stay rfl (holds_caller_stays hphase Iff.rfl)) nofun
    · exact h.caller_moves (h.guards.stay rfl (holds_caller_stays hphase Iff.rfl)) nofun
  | lock =>
    obtain ⟨a, hphase, m, hm, rfl⟩ := ht
    exact h.caller_moves
      (h.guards.lock hm (setCaller_holds_self.mpr trivial) holds_caller_moves) nofun
  | test =>
    obtain ⟨a, hphase, ⟨hempty, rfl⟩ | ⟨hfull, rfl⟩⟩ := ht
    · exact h.caller_moves
        (h.guards.stay rfl (holds_caller_stays hphase Iff.rfl)) (fun _ _ => hempty)
    · exact h.caller_moves (h.guards.stay rfl (holds_caller_stays hphase Iff.rfl)) nofun
  | wait =>
    obtain ⟨a, hphase, m, hm, rfl⟩ := ht
    obtain ⟨howner, rfl⟩ := Monitor.wait_eq_some_iff.mp hm
    exact h.caller_moves
      (h.guards.leave howner rfl (setCaller_holds_self.not.mpr id) holds_caller_moves) nofun
  | wake =>
    obtain ⟨a, hphase, m, hm, rfl⟩ := ht
    obtain ⟨-, rfl⟩ := Monitor.wake_eq_some_iff.mp hm
    exact h.caller_moves (h.guards.stay rfl (holds_caller_stays hphase Iff.rfl)) nofun
  | relock =>
    obtain ⟨a, hphase, -, m, hm, rfl⟩ := ht
    exact h.caller_moves
      (h.guards.lock hm (setCaller_holds_self.mpr trivial) holds_caller_moves) nofun
  | store =>
    obtain ⟨a, hphase, rfl⟩ := ht
    exact h.store hphase
  | signal pick =>
    obtain ⟨hphase, m, hm, rfl⟩ := ht
    obtain ⟨-, -, rfl⟩ := Monitor.signal_eq_some_iff.mp hm
    exact h.caller_moves (h.guards.stay rfl (holds_caller_stays hphase Iff.rfl)) nofun
  | unlock =>
    obtain ⟨hphase, m, hm, rfl⟩ := ht
    obtain ⟨howner, rfl⟩ := Monitor.unlock_eq_some_iff.mp hm
    exact h.caller_moves
      (h.guards.leave howner rfl (setCaller_holds_self.not.mpr id) holds_caller_moves) nofun

end Callers

lemma HandOverInv.step (h : HandOverInv first s) {l : QueueAct P}
    (hstep : ActionQueue.step s l = some s') : HandOverInv first s' := by
  cases l with
  | runner a => exact h.runner (runnerStep_turn hstep)
  | caller p a => exact h.caller (callerStep_turn hstep)

lemma handOverInv_of_reaches {ls : List (QueueAct P)} (h : (machine first).Reaches ls s) :
    HandOverInv first s :=
  (machine first).invariant (handOverInv_init first) (fun _ _ _ hs hstep => hs.step hstep) h

end ActionQueue

open ActionQueue

/-- For any callers, calls and interleaving: what has been executed is a prefix of what has been
stored, and at most the action in `mAction` is outstanding. When the first slide has been loaded,
the index and the blank flag are the fold of the executed actions. -/
theorem actions_handed_over {P : Type} [DecidableEq P] {slides : SlideArchive}
    {last width height : ℕ} {ls : List (QueueAct P)} {s : ActionQueue P}
    (h : (machine (begun slides (opened last width height))).Reaches ls s) :
    s.executed.map Prod.snd <+: s.stored.map Subtype.val ∧
      s.stored.map Subtype.val = s.executed.map Prod.snd ++ s.pending ∧
      (1 ≤ last → (loadSlide slides 1 (opened last width height)).1 = NO_ERROR →
        s.presenter.view = (s.executed.map Prod.snd).foldl (View.act last) ⟨1, false⟩ ∧
          1 ≤ s.presenter.currentSlide ∧ s.presenter.currentSlide ≤ last) := by
  have hinv := handOverInv_of_reaches h
  refine ⟨⟨s.pending, hinv.ledger.symm⟩, hinv.ledger, fun hlast hload => ?_⟩
  have hshows := (shows_begun hlast hload).executeAll s.executed
  rw [← hinv.presenter] at hshows
  have hslide := congrArg View.slide hshows.view
  exact ⟨hshows.view, hshows.first_le.trans_eq hslide.symm, hslide.trans_le hshows.le_last⟩

/-- Two callers; the second one finds `mAction` full, waits, and is woken for no reason. -/
def sampleCalls : List (QueueAct Bool) :=
  let slides := sampleArchive [1]
  [.caller false (.call .nextSlide), .caller false .lock, .caller false .test,
    .caller false .store, .caller false (.signal none), .caller false .unlock,
    .caller true (.call .toggleBlank), .caller true .lock, .caller true .test, .caller true .wait,
    .runner .lock, .runner .test, .runner (.execute slides), .runner .clear, .runner .unlock,
    .caller true .wake, .caller true .relock, .caller true .test, .caller true .store,
    .caller true (.signal none), .caller true .unlock,
    .runner .lock, .runner .test, .runner (.execute slides), .runner .clear]

/-- The second slide is missing, and the index goes there all the same. -/
theorem sample_actions_handed_over :
    let s := (machine (begun (sampleArchive [1]) (opened 2 640 480))).after sampleCalls
    s.stored.map Subtype.val = [.nextSlide, .toggleBlank] ∧
      s.executed.map Prod.snd <+: s.stored.map Subtype.val ∧
      s.presenter.view = (s.executed.map Prod.snd).foldl (View.act 2) ⟨1, false⟩ ∧
      s.presenter.view = ⟨2, true⟩ := by
  have hreach := (machine (begun (sampleArchive [1]) (opened 2 640 480))).reaches_after
    (show ((machine _).run _ sampleCalls).isSome = true by decide +kernel)
  obtain ⟨horder, -, hview⟩ := actions_handed_over hreach
  exact ⟨by decide +kernel, horder, (hview (by decide) (by decide)).1, by decide +kernel⟩

end ExpressOS

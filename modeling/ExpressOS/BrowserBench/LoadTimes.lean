import ExpressOS.BrowserBench.Progress

/-!
# Load times

`PageFinished` subtracts whatever the slot holds from the time. That is the time of the last
`PageStarted` for the slot, for whichever page it was, `about:blank` included; and it is what the
slot was made with when there was none.
-/

namespace ExpressOS
open Systems

lemma exists_last_split {α : Type} {P : α → Prop} {xs : List α} (h : ∃ x ∈ xs, P x) :
    ∃ before x after, xs = before ++ x :: after ∧ P x ∧ ∀ y ∈ after, ¬ P y := by
  induction xs with
  | nil =>
    obtain ⟨x, hx, -⟩ := h
    cases hx
  | cons a xs ih =>
    by_cases hlater : ∃ x ∈ xs, P x
    · obtain ⟨before, x, after, rfl, hx, hafter⟩ := ih hlater
      exact ⟨a :: before, x, after, rfl, hx, hafter⟩
    · obtain ⟨x, hx, hPx⟩ := h
      obtain rfl | hx := List.mem_cons.mp hx
      · exact ⟨[], x, xs, rfl, hPx, fun y hy hPy => hlater ⟨y, hy, hPy⟩⟩
      · exact absurd ⟨x, hx, hPx⟩ hlater

namespace Callback

def time : Callback → ℤ
  | pageStarted _ l => l
  | pageFinished _ l => l

def Starts (e : Callback) : Prop :=
  ∃ url l, e = pageStarted url l

end Callback

/-- Whenever a page closes a slot, it was reported to start while the slot was current, and the time
recorded runs from the last such report. -/
def TrueLoadTimes (slots : List ResultPair) (es : List Callback) : Prop :=
  ∀ pre url l post r r', es = pre ++ .pageFinished url l :: post →
    EvalRecorder.evaluate slots pre = some r → r.step (.pageFinished url l) = some r' →
    r.mCurrentEvaluation < r'.mCurrentEvaluation →
    ∃ a l₀ mid r₀, pre = a ++ .pageStarted url l₀ :: mid ∧
      EvalRecorder.evaluate slots a = some r₀ ∧
      r₀.mCurrentEvaluation = r.mCurrentEvaluation ∧ (∀ l', .pageStarted url l' ∉ mid) ∧
      getAt r'.mResult r.mCurrentEvaluation = some ⟨url, l - l₀⟩ ∧
      r'.log = r.log ++ [⟨url, l - l₀⟩]

/-- No page has finished since `PageStarted(url)`, and no page has started at a later time. -/
def StartedLast (pre : List Callback) (url : String) : Prop :=
  ∃ a l₀ mid, pre = a ++ .pageStarted url l₀ :: mid ∧ (∀ e ∈ mid, ¬ e.Closes) ∧
    ∀ url' l', .pageStarted url' l' ∈ mid → l' = l₀

/-- Each page that closes one of `n` slots is the last that was reported to start. -/
def ClosedInTurn (n : ℕ) (es : List Callback) : Prop :=
  ∀ pre url l post, es = pre ++ .pageFinished url l :: post → url ≠ aboutBlank →
    closings pre < n → StartedLast pre url

lemma closings_eq_zero_iff {es : List Callback} : closings es = 0 ↔ ∀ e ∈ es, ¬ e.Closes := by
  unfold closings
  rw [List.countP_eq_zero]
  simp only [decide_eq_true_eq]

lemma closings_append (es es' : List Callback) :
    closings (es ++ es') = closings es + closings es' :=
  List.countP_append

lemma closings_of_open {a mid : List Callback} {url : String} {l : ℤ}
    (h : ∀ e ∈ mid, ¬ e.Closes) :
    closings (a ++ .pageStarted url l :: mid) = closings a := by
  have hmid := closings_eq_zero_iff.mpr h
  rw [closings_append, closings_cons, hmid, if_neg (by simp [Callback.Closes]),
    add_zero, add_zero]

/-- What follows the last of some starts in the current slot does not close it. -/
lemma not_closes_of_split {mid before after : List Callback} {e₀ e₁ : Callback}
    (hclosed : ∀ e ∈ mid, ¬ e.Closes) (hsplit : e₀ :: mid = before ++ e₁ :: after) :
    ∀ e ∈ after, ¬ e.Closes := by
  intro e he
  cases before with
  | nil =>
    obtain ⟨-, rfl⟩ := List.cons.inj hsplit
    exact hclosed e he
  | cons e' before =>
    obtain ⟨-, rfl⟩ := List.cons.inj hsplit
    exact hclosed e (List.mem_append_right _ (List.mem_cons_of_mem _ he))

/-- Of the reports of such a page, the last one. -/
lemma StartedLast.last_of_page {pre : List Callback} {url : String} (h : StartedLast pre url) :
    ∃ a l₀ mid, pre = a ++ .pageStarted url l₀ :: mid ∧ (∀ e ∈ mid, ¬ e.Closes) ∧
      (∀ l', .pageStarted url l' ∉ mid) ∧ ∀ url' l', .pageStarted url' l' ∈ mid → l' = l₀ := by
  obtain ⟨a, l₀, mid, hpre, hclosed, hsame⟩ := h
  have htimes : ∀ url' l', .pageStarted url' l' ∈ Callback.pageStarted url l₀ :: mid →
      l' = l₀ := by
    intro url' l' hmem
    obtain heq | hmid := List.mem_cons.mp hmem
    · cases heq
      rfl
    · exact hsame url' l' hmid
  obtain ⟨before, e, after, hsplit, ⟨l₁, rfl⟩, hafter⟩ :=
    exists_last_split (P := fun e => ∃ l', e = .pageStarted url l')
      ⟨Callback.pageStarted url l₀, List.mem_cons_self (l := mid), l₀, rfl⟩
  rw [hsplit] at htimes
  obtain rfl : l₁ = l₀ := htimes url l₁ (List.mem_append_right _ List.mem_cons_self)
  refine ⟨a ++ before, l₁, after, ?_, not_closes_of_split hclosed hsplit,
    fun l' hl' => hafter _ hl' ⟨l', rfl⟩, fun url' l' hmem => ?_⟩
  · rw [hpre, hsplit, List.append_assoc]
  · exact htimes url' l' (List.mem_append_right _ (List.mem_cons_of_mem _ hmem))

namespace EvalRecorder

variable {slots : List ResultPair} {k : ℕ} {r r' : EvalRecorder}

lemma evaluate_append (slots : List ResultPair) (es es' : List Callback) :
    evaluate slots (es ++ es') =
      (evaluate slots es).bind (fun r => (machine slots).run r es') := by
  unfold evaluate
  rw [Option.bind_assoc]
  simp only [Machine.run_append]

lemma Progress.run_quiet (h : Progress slots k r) {es : List Callback}
    (hquiet : ∀ e ∈ es, ¬ e.Closes ∧ ¬ e.Starts) (hrun : (machine slots).run r es = some r') :
    r' = r := by
  induction es generalizing r with
  | nil => exact (Option.some.inj hrun).symm
  | cons e es ih =>
    obtain ⟨r₁, hstep, hrest⟩ := Option.bind_eq_some_iff.mp hrun
    obtain ⟨hcloses, hstarts⟩ := hquiet e List.mem_cons_self
    have hturn := h.step_turn hstep
    have hsame : r₁ = r := by
      cases hturn with
      | skip => rfl
      | start url l => exact absurd ⟨url, l, rfl⟩ hstarts
      | close url l p r' hlt hurl => exact absurd hurl hcloses
    subst hsame
    exact ih h (fun e he => hquiet e (List.mem_cons_of_mem _ he)) hrest

/-- The current slot holds the page that started last. -/
lemma current_slot {a mid : List Callback} {url : String} {l : ℤ}
    (hrun : evaluate slots (a ++ .pageStarted url l :: mid) = some r)
    (hquiet : ∀ e ∈ mid, ¬ e.Closes ∧ ¬ e.Starts)
    (hopen : closings (a ++ .pageStarted url l :: mid) < slots.length) :
    r.mResult[closings (a ++ .pageStarted url l :: mid)]? = some ⟨url, l⟩ := by
  rw [closings_of_open (fun e he => (hquiet e he).1)] at hopen ⊢
  rw [evaluate_append] at hrun
  obtain ⟨r₀, heval, hrest⟩ := Option.bind_eq_some_iff.mp hrun
  obtain ⟨r₁, hstep, hmid⟩ := Option.bind_eq_some_iff.mp hrest
  have h₀ := progress_of_evaluate heval
  rw [Nat.min_eq_right hopen.le] at h₀
  have hturn : Turn slots (closings a) r₀ (.pageStarted url l) r₁ := h₀.step_turn hstep
  rw [(hturn.progress h₀).run_quiet hquiet hmid]
  cases hturn with
  | skip e hskip =>
    obtain hlast | ⟨l', he⟩ := hskip
    · omega
    · cases he
  | start url l hlt => exact List.getElem?_set_self (h₀.length ▸ hlt)

lemma closes_iff {pre : List Callback} {url : String} {l : ℤ} (hrun : evaluate slots pre = some r)
    (hstep : r.step (.pageFinished url l) = some r') :
    r.mCurrentEvaluation < r'.mCurrentEvaluation ↔
      url ≠ aboutBlank ∧ closings pre < slots.length := by
  have h := progress_of_evaluate hrun
  have hnext := (h.step_turn hstep).progress h
  rw [h.current, hnext.current]
  by_cases hcloses : (Callback.pageFinished url l).Closes
  · have hurl : url ≠ aboutBlank := hcloses
    rw [if_pos hcloses, and_iff_right hurl]
    omega
  · have hurl : ¬ url ≠ aboutBlank := hcloses
    rw [if_neg hcloses]
    exact iff_of_false (by omega) (fun hboth => hurl hboth.1)

lemma recorded {pre : List Callback} {url : String} {l : ℤ} (hrun : evaluate slots pre = some r)
    (hstep : r.step (.pageFinished url l) = some r') (hurl : url ≠ aboutBlank)
    (hopen : closings pre < slots.length) :
    ∃ p, r.mResult[closings pre]? = some p ∧
      getAt r'.mResult r.mCurrentEvaluation = some ⟨url, l - p.second⟩ ∧
      r'.log = r.log ++ [⟨url, l - p.second⟩] := by
  have h := progress_of_evaluate hrun
  rw [Nat.min_eq_right hopen.le] at h
  have hturn := h.step_turn hstep
  cases hturn with
  | skip e hskip =>
    obtain hlast | ⟨l', he⟩ := hskip
    · omega
    · cases he
      exact absurd rfl hurl
  | close url l p r' hlt hurl hp hresult hlog hnext =>
    refine ⟨p, hp, ?_, hlog⟩
    rw [h.current, getAt_natCast, hresult]
    exact List.getElem?_set_self (h.length ▸ hlt)

section Start

variable {pre a mid : List Callback} {url : String} {l₀ : ℤ} {p : ResultPair}

/-- Once a page has started in the current slot, the slot holds the time of the last start. -/
lemma last_start (hrun : evaluate slots pre = some r) (hopen : closings pre < slots.length)
    (hp : r.mResult[closings pre]? = some p) (hpre : pre = a ++ .pageStarted url l₀ :: mid)
    (hclosed : ∀ e ∈ mid, ¬ e.Closes) :
    ∃ before url' after, .pageStarted url l₀ :: mid =
      before ++ .pageStarted url' p.second :: after ∧ ∀ e ∈ after, ¬ e.Starts := by
  obtain ⟨before, e, after, hsplit, ⟨url', l', rfl⟩, hafter⟩ :=
    exists_last_split (P := Callback.Starts) ⟨_, List.mem_cons_self, url, l₀, rfl⟩
  have hquiet : ∀ e ∈ after, ¬ e.Closes ∧ ¬ e.Starts := by
    intro e he
    refine ⟨not_closes_of_split hclosed hsplit e he, hafter e he⟩
  have hpre' : pre = (a ++ before) ++ .pageStarted url' l' :: after := by
    rw [hpre, hsplit, List.append_assoc]
  have hslot := current_slot (hpre' ▸ hrun) hquiet (hpre' ▸ hopen)
  rw [← hpre', hp] at hslot
  obtain rfl := Option.some.inj hslot
  exact ⟨before, url', after, hsplit, hafter⟩

/-- If the slot holds the time of this start, no page has started later. -/
lemma no_later_start (hmono : (pre.map Callback.time).Pairwise (· ≤ ·))
    (hrun : evaluate slots pre = some r) (hopen : closings pre < slots.length)
    (hp : r.mResult[closings pre]? = some p) (hpre : pre = a ++ .pageStarted url l₀ :: mid)
    (hclosed : ∀ e ∈ mid, ¬ e.Closes) (htime : p.second = l₀) {url' : String} {l' : ℤ}
    (hstart : .pageStarted url' l' ∈ mid) : l' = l₀ := by
  obtain ⟨before, v, after, hsplit, hafter⟩ := last_start hrun hopen hp hpre hclosed
  rw [hpre, List.map_append, List.pairwise_append] at hmono
  have hsorted := hmono.2.1
  have hfirst : l₀ ≤ l' :=
    (List.pairwise_cons.mp hsorted).1 l' (List.mem_map_of_mem (f := Callback.time) hstart)
  have hmem : .pageStarted url' l' ∈ before ++ .pageStarted v p.second :: after := by
    rw [← hsplit]
    exact List.mem_cons_of_mem _ hstart
  rw [hsplit, List.map_append, List.pairwise_append] at hsorted
  obtain hbefore | hmem := List.mem_append.mp hmem
  · have hle : l' ≤ p.second := hsorted.2.2 l'
      (List.mem_map_of_mem (f := Callback.time) hbefore) p.second List.mem_cons_self
    omega
  · obtain heq | hmem := List.mem_cons.mp hmem
    · cases heq
      exact htime
    · exact absurd ⟨url', l', rfl⟩ (hafter _ hmem)

/-- If no page has started later than this one, the slot holds its time. -/
lemma second_of_last (hrun : evaluate slots pre = some r) (hopen : closings pre < slots.length)
    (hp : r.mResult[closings pre]? = some p) (hpre : pre = a ++ .pageStarted url l₀ :: mid)
    (hclosed : ∀ e ∈ mid, ¬ e.Closes) (hsame : ∀ url' l', .pageStarted url' l' ∈ mid → l' = l₀) :
    p.second = l₀ := by
  obtain ⟨before, v, after, hsplit, -⟩ := last_start hrun hopen hp hpre hclosed
  have hmem : .pageStarted v p.second ∈ Callback.pageStarted url l₀ :: mid := by
    rw [hsplit]
    exact List.mem_append_right _ List.mem_cons_self
  obtain heq | hmid := List.mem_cons.mp hmem
  · cases heq
    rfl
  · exact hsame v p.second hmid

end Start

/-- The time that is recorded runs from the last `PageStarted`, so it is the one of the page if and
only if no page has started later. -/
lemma trueLoadTime_iff {pre : List Callback} {url : String} {l : ℤ}
    (hmono : (pre.map Callback.time).Pairwise (· ≤ ·)) (hrun : evaluate slots pre = some r)
    (hstep : r.step (.pageFinished url l) = some r') (hurl : url ≠ aboutBlank)
    (hopen : closings pre < slots.length) :
    (∃ a l₀ mid r₀, pre = a ++ .pageStarted url l₀ :: mid ∧ evaluate slots a = some r₀ ∧
      r₀.mCurrentEvaluation = r.mCurrentEvaluation ∧ (∀ l', .pageStarted url l' ∉ mid) ∧
      getAt r'.mResult r.mCurrentEvaluation = some ⟨url, l - l₀⟩ ∧
      r'.log = r.log ++ [⟨url, l - l₀⟩]) ↔ StartedLast pre url := by
  obtain ⟨p, hp, hresult, hlog⟩ := recorded hrun hstep hurl hopen
  have hcurrent := (progress_of_evaluate hrun).current
  rw [Nat.min_eq_right hopen.le] at hcurrent
  constructor
  · rintro ⟨a, l₀, mid, r₀, hpre, heval, hsame, -, hresult', -⟩
    have htime : p.second = l₀ := by
      rw [hresult] at hresult'
      have hsecond : l - p.second = l - l₀ :=
        congrArg ResultPair.second (Option.some.inj hresult')
      omega
    have hclosed : ∀ e ∈ mid, ¬ e.Closes := by
      rw [← closings_eq_zero_iff]
      rw [(progress_of_evaluate heval).current, hcurrent, hpre, closings_append,
        closings_cons] at hsame
      rw [hpre, closings_append, closings_cons] at hopen
      omega
    exact ⟨a, l₀, mid, hpre, hclosed,
      fun _ _ hstart => no_later_start hmono hrun hopen hp hpre hclosed htime hstart⟩
  · intro hlast
    obtain ⟨a, l₀, mid, hpre, hclosed, hnever, hsame⟩ := hlast.last_of_page
    have htime := second_of_last hrun hopen hp hpre hclosed hsame
    obtain ⟨r₀, heval, h₀⟩ := evaluate_progress slots a
    refine ⟨a, l₀, mid, r₀, hpre, heval, ?_, hnever, ?_, ?_⟩
    · rw [hpre, closings_of_open hclosed] at hopen hcurrent
      rw [h₀.current, hcurrent, Nat.min_eq_right hopen.le]
    · rw [hresult, htime]
    · rw [hlog, htime]

end EvalRecorder

open EvalRecorder

/-- For any slots and callbacks in the order of their times: every time recorded is the load time of
its page if and only if the page that closes a slot is always the last that was reported to start,
apart from reports within the same millisecond. -/
theorem loadTimes_true_iff {slots : List ResultPair} {es : List Callback}
    (hmono : (es.map Callback.time).Pairwise (· ≤ ·)) :
    TrueLoadTimes slots es ↔ ClosedInTurn slots.length es := by
  have hpre : ∀ {pre post : List Callback}, es = pre ++ post →
      (pre.map Callback.time).Pairwise (· ≤ ·) := by
    intro pre post hes
    rw [hes, List.map_append, List.pairwise_append] at hmono
    exact hmono.1
  constructor
  · intro htrue pre url l post hes hurl hopen
    obtain ⟨r, hrun, h⟩ := evaluate_progress slots pre
    obtain ⟨r', hstep, -⟩ := h.turn (.pageFinished url l)
    rw [← trueLoadTime_iff (hpre hes) hrun hstep hurl hopen]
    exact htrue pre url l post r r' hes hrun hstep ((closes_iff hrun hstep).mpr ⟨hurl, hopen⟩)
  · intro hturn pre url l post r r' hes hrun hstep hcloses
    obtain ⟨hurl, hopen⟩ := (closes_iff hrun hstep).mp hcloses
    rw [trueLoadTime_iff (hpre hes) hrun hstep hurl hopen]
    exact hturn pre url l post hes hurl hopen

/-- A page is redirected to another before it finishes. -/
theorem redirected_loadTime :
    TrueLoadTimes (slotsOf ["a.org"])
      [.pageStarted "a.org" 10, .pageStarted "b.org" 20, .pageFinished "b.org" 50] := by
  rw [loadTimes_true_iff (by decide)]
  intro pre url l post hes hurl hopen
  obtain _ | ⟨e₁, _ | ⟨e₂, _ | ⟨e₃, pre⟩⟩⟩ := pre
  · cases hes
  · cases hes
  · cases hes
    exact ⟨[.pageStarted "a.org" 10], 20, [], rfl, nofun, nofun⟩
  · simp at hes

/-- The default site reports its first page as finished twice. The second report closes the second
slot, in which no page has started, and its time is that since the boot. -/
theorem finished_twice :
    ¬ TrueLoadTimes (loadSiteLists [])
      [.pageStarted sDefaultSite 10, .pageFinished sDefaultSite 20,
        .pageFinished sDefaultSite 30] := by
  intro htrue
  obtain ⟨r, hrun, h⟩ := evaluate_progress (loadSiteLists [])
    [.pageStarted sDefaultSite 10, .pageFinished sDefaultSite 20]
  obtain ⟨r', hstep, -⟩ := h.turn (.pageFinished sDefaultSite 30)
  have hcloses : r.mCurrentEvaluation < r'.mCurrentEvaluation :=
    (closes_iff hrun hstep).mpr (by decide)
  obtain ⟨a, l₀, mid, r₀, hpre, heval, hsame, -⟩ :=
    htrue _ _ _ [] r r' rfl hrun hstep hcloses
  rw [h.current, (progress_of_evaluate heval).current] at hsame
  obtain _ | ⟨e₁, _ | ⟨e₂, a⟩⟩ := a
  · exact absurd hsame (by decide)
  · cases hpre
  · simp at hpre

end ExpressOS

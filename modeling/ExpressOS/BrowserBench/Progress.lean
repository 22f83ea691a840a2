import ExpressOS.BrowserBench.EvalRecorder

/-!
# How far the benchmark has come

A callback closes the current slot, writes to it, or does nothing. The slots after the current one
are as they were made, whatever pages are reported, so each request is for the site it was made for.
-/

namespace ExpressOS
open Systems

/-- A page other than `about:blank` has finished. -/
def Callback.Closes : Callback → Prop
  | .pageFinished url _ => url ≠ aboutBlank
  | .pageStarted _ _ => False

instance : DecidablePred Callback.Closes
  | .pageFinished _ _ => inferInstanceAs (Decidable (_ ≠ _))
  | .pageStarted _ _ => inferInstanceAs (Decidable False)

def closings (es : List Callback) : ℕ :=
  es.countP (fun e => e.Closes)

lemma closings_cons (e : Callback) (es : List Callback) :
    closings (e :: es) = closings es + if e.Closes then 1 else 0 := by
  unfold closings
  rw [List.countP_cons]
  simp only [decide_eq_true_eq]

/-- The calls by which `loadNextPage` asks for a site. -/
def pageCalls (url : String) : List WebViewCall :=
  [.loadUrl aboutBlank, .clearCache true, .clearDisappearingChildren, .freeMemory, .loadUrl url]

lemma siteRequests_pageCalls (urls : List String) {tail : List WebViewCall}
    (h : siteRequests tail = []) : siteRequests (urls.flatMap pageCalls ++ tail) = urls := by
  induction urls with
  | nil => exact h
  | cons url urls ih =>
    rw [List.flatMap_cons, List.append_assoc]
    exact congrArg (List.cons url) ih

namespace EvalRecorder

variable {slots : List ResultPair} {k : ℕ} {r r' : EvalRecorder}

/-- `k` slots are closed and no page has been asked for since the last of them was. -/
structure Ready (slots : List ResultPair) (k : ℕ) (r : EvalRecorder) : Prop where
  length : r.mResult.length = slots.length
  current : 1 + r.mCurrentEvaluation = k
  le : k ≤ slots.length
  unfinished : r.mFinished = false
  calls : r.mWebview = ((slots.map ResultPair.first).take k).flatMap pageCalls
  untouched : ∀ i, k ≤ i → r.mResult[i]? = slots[i]?

/-- `k` slots are closed, and the page of the next one has been asked for. -/
structure Progress (slots : List ResultPair) (k : ℕ) (r : EvalRecorder) : Prop where
  length : r.mResult.length = slots.length
  current : r.mCurrentEvaluation = k
  le : k ≤ slots.length
  finished : r.mFinished = true ↔ k = slots.length
  calls : r.mWebview = ((slots.map ResultPair.first).take (k + 1)).flatMap pageCalls ++
    if k = slots.length then [.loadUrl aboutBlank] else []
  untouched : ∀ i, k < i → r.mResult[i]? = slots[i]?

lemma ready_create (slots : List ResultPair) : Ready slots 0 (create slots) :=
  ⟨rfl, rfl, Nat.zero_le _, rfl, rfl, fun _ _ => rfl⟩

lemma getAt_natCast {α : Type} (xs : List α) (i : ℕ) : getAt xs (i : ℤ) = xs[i]? := by
  rw [getAt, if_neg (by omega), Int.toNat_natCast]

/-- `mResult.get` finds the next slot, if there is one. -/
lemma Ready.loadNextPage (h : Ready slots k r) :
    ∃ r', r.loadNextPage = some r' ∧ Progress slots k r' ∧ r'.mResult = r.mResult ∧
      r'.log = r.log := by
  by_cases hlast : k = slots.length
  · refine ⟨_, if_pos ?_, ⟨h.length, h.current, h.le, iff_of_true rfl hlast, ?_, ?_⟩, rfl, rfl⟩
    · change (r.mResult.length : ℤ) ≤ 1 + r.mCurrentEvaluation
      rw [h.current, h.length, hlast]
    · change r.mWebview ++ [.loadUrl aboutBlank] = _
      have hall : (slots.map ResultPair.first).take k =
          (slots.map ResultPair.first).take (k + 1) := by
        rw [List.take_of_length_le (by simp [hlast]), List.take_of_length_le (by simp [hlast])]
      rw [h.calls, if_pos hlast, hall]
    · exact fun i hi => h.untouched i hi.le
  · have hlt : k < slots.length := lt_of_le_of_ne h.le hlast
    have hslot : getAt r.mResult (1 + r.mCurrentEvaluation) = some slots[k] := by
      rw [h.current, getAt_natCast, h.untouched k le_rfl, List.getElem?_eq_getElem hlt]
    let r₁ := { r with
      mCurrentEvaluation := 1 + r.mCurrentEvaluation
      mWebview := r.mWebview ++ pageCalls slots[k].first }
    refine ⟨r₁, ?_, ⟨h.length, h.current, h.le, ?_, ?_, ?_⟩, rfl, rfl⟩
    · have hmore : ¬ (1 + r.mCurrentEvaluation ≥ r.mResult.length) := by
        rw [h.current, h.length]
        omega
      simp only [EvalRecorder.loadNextPage, call, if_neg hmore, hslot, Option.map_some,
        List.append_assoc]
      rfl
    · change r.mFinished = true ↔ _
      rw [h.unfinished]
      exact iff_of_false nofun hlast
    · change r.mWebview ++ pageCalls slots[k].first = _
      rw [h.calls, if_neg hlast, List.append_nil,
        List.take_succ_eq_append_getElem (by simpa using hlt), List.flatMap_append]
      simp
    · exact fun i hi => h.untouched i hi.le

/-- What a callback does: nothing, or it starts the current slot, or closes it. -/
inductive Turn (slots : List ResultPair) (k : ℕ) (r : EvalRecorder) :
    Callback → EvalRecorder → Prop
  | skip (e : Callback) (h : k = slots.length ∨ ∃ l, e = .pageFinished aboutBlank l) :
      Turn slots k r e r
  | start (url : String) (l : ℤ) (h : k < slots.length) :
      Turn slots k r (.pageStarted url l) { r with mResult := r.mResult.set k ⟨url, l⟩ }
  | close (url : String) (l : ℤ) (p : ResultPair) (r' : EvalRecorder) (h : k < slots.length)
      (hurl : url ≠ aboutBlank) (hp : r.mResult[k]? = some p)
      (hresult : r'.mResult = r.mResult.set k ⟨url, l - p.second⟩)
      (hlog : r'.log = r.log ++ [⟨url, l - p.second⟩]) (hnext : Progress slots (k + 1) r') :
      Turn slots k r (.pageFinished url l) r'

namespace Progress

lemma start (h : Progress slots k r) (p : ResultPair) :
    Progress slots k { r with mResult := r.mResult.set k p } := by
  refine ⟨List.length_set.trans h.length, h.current, h.le, h.finished, h.calls, fun i hi => ?_⟩
  exact (List.getElem?_set_ne hi.ne).trans (h.untouched i hi)

lemma lt_length (h : Progress slots k r) (hlast : k ≠ slots.length) : k < r.mResult.length := by
  have hle := h.le
  rw [h.length]
  omega

/-- A slot is closed, and the next is to be loaded. -/
lemma ready_close (h : Progress slots k r) (hlast : k ≠ slots.length) (p : ResultPair) :
    Ready slots (k + 1) { r with
      mResult := r.mResult.set k p
      log := r.log ++ [p] } where
  length := List.length_set.trans h.length
  current := by
    change 1 + r.mCurrentEvaluation = _
    rw [h.current]
    omega
  le := lt_of_le_of_ne h.le hlast
  unfinished := Bool.eq_false_iff.mpr (fun hend => hlast (h.finished.mp hend))
  calls := by
    have hcalls := h.calls
    rw [if_neg hlast, List.append_nil] at hcalls
    exact hcalls
  untouched i hi := (List.getElem?_set_ne (by omega)).trans (h.untouched i hi)

/-- Every callback finds the slot it asks for. -/
lemma turn (h : Progress slots k r) (e : Callback) :
    ∃ r', r.step e = some r' ∧ Turn slots k r e r' := by
  have hcurrent : r.mCurrentEvaluation ≥ r.mResult.length ↔ k = slots.length := by
    have hle := h.le
    rw [h.current, h.length]
    omega
  have hover : r.mCurrentEvaluation ≥ r.mResult.length ∨ r.mFinished = true ↔
      k = slots.length := by
    rw [hcurrent, h.finished, or_self]
  have hindex : r.mCurrentEvaluation.toNat = k := by rw [h.current, Int.toNat_natCast]
  have hget : getAt r.mResult r.mCurrentEvaluation = r.mResult[k]? := by
    rw [h.current, getAt_natCast]
  cases e with
  | pageStarted url l =>
    rw [step, pageStarted]
    by_cases hlast : k = slots.length
    · rw [if_pos (hover.mpr hlast)]
      exact ⟨r, rfl, .skip _ (.inl hlast)⟩
    · have hlt := h.lt_length hlast
      rw [if_neg (fun hend => hlast (hover.mp hend)), hget, List.getElem?_eq_getElem hlt, hindex]
      exact ⟨_, rfl, .start url l (h.length ▸ hlt)⟩
  | pageFinished url l =>
    rw [step, pageFinished]
    by_cases hskip : k = slots.length ∨ url = aboutBlank
    · rw [if_pos (by rw [← or_assoc, hover]; exact hskip)]
      exact ⟨r, rfl, .skip _ (hskip.imp_right fun hurl => ⟨l, by rw [hurl]⟩)⟩
    · have hlast : k ≠ slots.length := fun hend => hskip (.inl hend)
      have hurl : url ≠ aboutBlank := fun hblank => hskip (.inr hblank)
      have hlt := h.lt_length hlast
      rw [if_neg (by rw [← or_assoc, hover]; exact hskip), hget, List.getElem?_eq_getElem hlt,
        Option.bind_some, hindex]
      obtain ⟨r', hload, hnext, hresult, hlog⟩ :=
        (h.ready_close hlast ⟨url, l - r.mResult[k].second⟩).loadNextPage
      exact ⟨r', hload, .close url l _ r' (h.length ▸ hlt) hurl (List.getElem?_eq_getElem hlt)
        hresult hlog hnext⟩

lemma step_turn (h : Progress slots k r) {e : Callback} (hstep : r.step e = some r') :
    Turn slots k r e r' := by
  obtain ⟨r₁, hstep₁, hturn⟩ := h.turn e
  obtain rfl := Option.some.inj (hstep₁.symm.trans hstep)
  exact hturn

end Progress

lemma Turn.progress {e : Callback} (hturn : Turn slots k r e r') (h : Progress slots k r) :
    Progress slots (min slots.length (k + if e.Closes then 1 else 0)) r' := by
  have hle := h.le
  cases hturn with
  | skip e hskip =>
    obtain rfl | ⟨l, rfl⟩ := hskip
    · rw [Nat.min_eq_left (Nat.le_add_right _ _)]
      exact h
    · rw [if_neg (by simp [Callback.Closes]), add_zero, Nat.min_eq_right hle]
      exact h
  | start url l hlt =>
    rw [if_neg (by simp [Callback.Closes]), add_zero, Nat.min_eq_right hle]
    exact h.start ⟨url, l⟩
  | close url l p r' hlt hurl hp hresult hlog hnext =>
    rw [if_pos (by exact hurl), Nat.min_eq_right hlt]
    exact hnext

/-- A closed slot is never written to again. -/
lemma Turn.closed {e : Callback} (hturn : Turn slots k r e r') {i : ℕ} (hi : i < k) :
    r'.mResult[i]? = r.mResult[i]? := by
  cases hturn with
  | skip => rfl
  | start => exact List.getElem?_set_ne hi.ne'
  | close url l p r' hlt hurl hp hresult hlog hnext =>
    rw [hresult]
    exact List.getElem?_set_ne hi.ne'

namespace Progress

lemma run (h : Progress slots k r) {es : List Callback}
    (hrun : (machine slots).run r es = some r') :
    Progress slots (min slots.length (k + closings es)) r' := by
  induction es generalizing k r with
  | nil =>
    cases hrun
    rw [closings, List.countP_nil, add_zero, Nat.min_eq_right h.le]
    exact h
  | cons e es ih =>
    obtain ⟨r₁, hstep, hrest⟩ := Option.bind_eq_some_iff.mp hrun
    have hnext := ih ((h.step_turn hstep).progress h) hrest
    have hcount : min slots.length (min slots.length (k + if e.Closes then 1 else 0) +
          closings es) =
        min slots.length (k + closings (e :: es)) := by
      rw [closings_cons]
      omega
    rwa [hcount] at hnext

lemma run_closed (h : Progress slots k r) {es : List Callback}
    (hrun : (machine slots).run r es = some r') {i : ℕ} (hi : i < k) :
    r'.mResult[i]? = r.mResult[i]? := by
  let Kept (r₁ : EvalRecorder) : Prop :=
    ∃ k', i < k' ∧ Progress slots k' r₁ ∧ r₁.mResult[i]? = r.mResult[i]?
  have hstep : ∀ r₁ e r₂, Kept r₁ → (machine slots).step r₁ e = some r₂ → Kept r₂ := by
    rintro r₁ e r₂ ⟨k', hk', h₁, hsame⟩ hstep
    have hturn := h₁.step_turn hstep
    have hle := h₁.le
    refine ⟨_, ?_, hturn.progress h₁, (hturn.closed hk').trans hsame⟩
    rw [lt_min_iff]
    omega
  obtain ⟨k', -, -, hsame⟩ := (machine slots).run_invariant hstep ⟨k, hi, h, rfl⟩ hrun
  exact hsame

lemma run_total (h : Progress slots k r) (es : List Callback) :
    ∃ r', (machine slots).run r es = some r' := by
  have hstep : ∀ r e, (∃ k, Progress slots k r) →
      ∃ r', (machine slots).step r e = some r' ∧ ∃ k, Progress slots k r' := by
    rintro r₁ e ⟨k', h₁⟩
    obtain ⟨r₂, hstep, hturn⟩ := h₁.turn e
    exact ⟨r₂, hstep, _, hturn.progress h₁⟩
  obtain ⟨r', hrun, -⟩ := (machine slots).run_total hstep ⟨k, h⟩ es
  exact ⟨r', hrun⟩

end Progress

/-- Any callbacks can come, and each of them that reports another page than `about:blank` as
finished closes a slot. -/
lemma evaluate_progress (slots : List ResultPair) (es : List Callback) :
    ∃ r, evaluate slots es = some r ∧
      Progress slots (min slots.length (closings es)) r := by
  obtain ⟨first, hload, hfirst, -⟩ := (ready_create slots).loadNextPage
  obtain ⟨r, hrun⟩ := hfirst.run_total es
  have hprogress := hfirst.run hrun
  rw [zero_add] at hprogress
  exact ⟨r, Option.bind_eq_some_iff.mpr ⟨first, hload, hrun⟩, hprogress⟩

lemma progress_of_evaluate {es : List Callback} (h : evaluate slots es = some r) :
    Progress slots (min slots.length (closings es)) r := by
  obtain ⟨r', hrun, hprogress⟩ := evaluate_progress slots es
  obtain rfl := Option.some.inj (hrun.symm.trans h)
  exact hprogress

lemma Progress.requests (h : Progress slots k r) (hslots : slots ≠ []) :
    siteRequests r.mWebview =
      (slots.map ResultPair.first).take (min k (slots.length - 1) + 1) := by
  have hpos := List.length_pos_of_ne_nil hslots
  have htail : siteRequests (if k = slots.length then [.loadUrl aboutBlank] else []) = [] := by
    split_ifs <;> rfl
  rw [h.calls, siteRequests_pageCalls _ htail]
  by_cases hlast : k = slots.length
  · rw [List.take_of_length_le (by simp [hlast]), List.take_of_length_le]
    rw [List.length_map]
    omega
  · rw [Nat.min_eq_left]
    have hle := h.le
    omega

end EvalRecorder

lemma siteList_ne_nil (lines : List String) : siteList lines ≠ [] := by
  unfold siteList
  split_ifs with h
  · exact List.append_ne_nil_of_right_ne_nil lines (List.cons_ne_nil _ _)
  · exact List.ne_nil_of_length_pos (Nat.pos_of_ne_zero h)

lemma loadSiteLists_eq (lines : List String) :
    loadSiteLists lines = slotsOf ((siteList lines).flatMap (List.replicate sRepeatTimes)) := by
  unfold loadSiteLists slotsOf
  rw [List.map_flatMap]
  congr 1

lemma first_slotsOf (urls : List String) : (slotsOf urls).map ResultPair.first = urls := by
  unfold slotsOf
  rw [List.map_map]
  exact List.map_id urls

open EvalRecorder

/-- For any slots and any callbacks: no `mResult.get` fails, only the current slot is ever written
to, and the sites of the slots have been asked for in order, once each, up to the current one. With
the slots of `loadSiteLists`, all its sites have been asked for when `mFinished` is set. -/
theorem benchmark_progress :
    (∀ urls : List String, 1 ≤ urls.length → ∀ es : List Callback,
      ∃ r, evaluate (slotsOf urls) es = some r ∧
        0 ≤ r.mCurrentEvaluation ∧ r.mCurrentEvaluation ≤ urls.length ∧
        (r.mFinished = true ↔ r.mCurrentEvaluation = urls.length) ∧
        (∀ i : ℕ, r.mCurrentEvaluation < i → r.mResult[i]? = urls[i]?.map (fun url => ⟨url, 0⟩)) ∧
        (∀ es' r', (machine (slotsOf urls)).run r es' = some r' →
          ∀ i : ℕ, (i : ℤ) < r.mCurrentEvaluation → r'.mResult[i]? = r.mResult[i]?) ∧
        siteRequests r.mWebview =
          urls.take (min r.mCurrentEvaluation.toNat (urls.length - 1) + 1)) ∧
      ∀ lines es, ∃ r, evaluate (loadSiteLists lines) es = some r ∧
        (r.mFinished = true → siteRequests r.mWebview =
          (siteList lines).flatMap (List.replicate sRepeatTimes)) := by
  have hlength : ∀ urls : List String, (slotsOf urls).length = urls.length :=
    fun urls => List.length_map _
  have hmain : ∀ urls : List String, 1 ≤ urls.length → ∀ es : List Callback,
      ∃ r k, evaluate (slotsOf urls) es = some r ∧ Progress (slotsOf urls) k r ∧
        siteRequests r.mWebview = urls.take (min k (urls.length - 1) + 1) := by
    intro urls hurls es
    obtain ⟨r, k, hrun, hprogress⟩ : ∃ r k, evaluate (slotsOf urls) es = some r ∧
        Progress (slotsOf urls) k r := by
      obtain ⟨r, hrun, hprogress⟩ := evaluate_progress (slotsOf urls) es
      exact ⟨r, _, hrun, hprogress⟩
    have hslots : slotsOf urls ≠ [] := by
      apply List.ne_nil_of_length_pos
      rwa [slotsOf, List.length_map]
    have hrequests := hprogress.requests hslots
    rw [first_slotsOf, hlength] at hrequests
    exact ⟨r, k, hrun, hprogress, hrequests⟩
  constructor
  · intro urls hurls es
    obtain ⟨r, k, hrun, hprogress, hrequests⟩ := hmain urls hurls es
    have hle := hprogress.le
    have hfinished := hprogress.finished
    rw [hlength] at hle hfinished
    refine ⟨r, hrun, ?_⟩
    rw [hprogress.current, Int.toNat_natCast, hfinished]
    refine ⟨by omega, by omega, by omega, fun i hi => ?_, fun es' r' hrun' i hi => ?_, hrequests⟩
    · rw [hprogress.untouched i (by omega), slotsOf, List.getElem?_map]
    · exact hprogress.run_closed hrun' (by omega)
  · intro lines es
    rw [loadSiteLists_eq]
    have hurls : 1 ≤ ((siteList lines).flatMap (List.replicate sRepeatTimes)).length := by
      obtain ⟨url, urls, h⟩ := List.exists_cons_of_ne_nil (siteList_ne_nil lines)
      rw [h, List.flatMap_cons, List.length_append, List.length_replicate, sRepeatTimes]
      omega
    obtain ⟨r, k, hrun, hprogress, hrequests⟩ := hmain _ hurls es
    refine ⟨r, hrun, fun hfinished => ?_⟩
    have hall := hprogress.finished.mp hfinished
    rw [hlength] at hall
    rw [hrequests, List.take_of_length_le (by omega)]

/-- One slot, and callbacks for another page in it. -/
theorem redirected_progress :
    ∃ r, evaluate (slotsOf ["a.org"])
        [.pageFinished aboutBlank 5, .pageStarted "b.org" 10, .pageFinished "b.org" 30] = some r ∧
      r.mCurrentEvaluation = 1 ∧ r.mFinished = true ∧ siteRequests r.mWebview = ["a.org"] := by
  obtain ⟨r, hrun, -, -, hfinished, -, -, hrequests⟩ := benchmark_progress.1 ["a.org"] (by decide)
    [.pageFinished aboutBlank 5, .pageStarted "b.org" 10, .pageFinished "b.org" 30]
  have hcurrent : r.mCurrentEvaluation = 1 := by
    have hmap : (some r).map mCurrentEvaluation = some 1 := by
      rw [← hrun]
      decide
    exact Option.some.inj hmap
  rw [hcurrent] at hfinished hrequests
  exact ⟨r, hrun, hcurrent, hfinished.mpr rfl, hrequests⟩

end ExpressOS

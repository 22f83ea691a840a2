import ExpressOS.Systems.Machine

/-!
# The browser benchmark

`EvalRecorder` asks a `WebView` for one site after the other, and learns of the pages only by the
callbacks `PageStarted` and `PageFinished`. The file shows how far the benchmark has come after any
sequence of callbacks.
-/

namespace ExpressOS
open Systems

/-- `Pair<String, Long>`. The second field holds the time when a page starts, and in the end how
long the page took; times are read from `uptimeMillis`. -/
structure ResultPair where
  first : String
  second : ℤ
  deriving DecidableEq, Repr

inductive WebViewCall
  | loadUrl (url : String)
  | clearCache (includeDiskFiles : Bool)
  | clearDisappearingChildren
  | freeMemory
  deriving DecidableEq, Repr

/-- The fields of the class, and what it has logged. `mWebview` holds the calls made on the
`WebView`. -/
structure EvalRecorder where
  mCurrentEvaluation : ℤ
  mFinished : Bool
  mWebview : List WebViewCall
  mResult : List ResultPair
  log : List ResultPair

inductive Callback
  | pageStarted (url : String) (l : ℤ)
  | pageFinished (url : String) (l : ℤ)
  deriving DecidableEq, Repr

def aboutBlank : String := "about:blank"

/-- `ArrayList.get`; `none` is an `IndexOutOfBoundsException`. -/
def getAt {α : Type} (xs : List α) (i : ℤ) : Option α :=
  if i < 0 then none else xs[i.toNat]?

namespace EvalRecorder

def create (paramArrayList : List ResultPair) : EvalRecorder :=
  ⟨-1, false, [], paramArrayList, []⟩

def call (r : EvalRecorder) (c : WebViewCall) : EvalRecorder :=
  { r with mWebview := r.mWebview ++ [c] }

def loadNextPage (r : EvalRecorder) : Option EvalRecorder :=
  let r := { r with mCurrentEvaluation := 1 + r.mCurrentEvaluation }
  if r.mCurrentEvaluation ≥ r.mResult.length then
    some ({ r with mFinished := true }.call (.loadUrl aboutBlank))
  else
    let r := r.call (.loadUrl aboutBlank)
    let r := r.call (.clearCache true)
    let r := r.call .clearDisappearingChildren
    let r := r.call .freeMemory
    (getAt r.mResult r.mCurrentEvaluation).map (fun e => r.call (.loadUrl e.first))

def pageFinished (r : EvalRecorder) (url : String) (l : ℤ) : Option EvalRecorder :=
  if r.mCurrentEvaluation ≥ r.mResult.length ∨ r.mFinished = true ∨ url = aboutBlank then some r
  else
    (getAt r.mResult r.mCurrentEvaluation).bind fun localPair =>
      let localPair : ResultPair := ⟨url, l - localPair.second⟩
      loadNextPage { r with
        mResult := r.mResult.set r.mCurrentEvaluation.toNat localPair
        log := r.log ++ [localPair] }

def pageStarted (r : EvalRecorder) (url : String) (l : ℤ) : Option EvalRecorder :=
  if r.mCurrentEvaluation ≥ r.mResult.length ∨ r.mFinished = true then some r
  else
    (getAt r.mResult r.mCurrentEvaluation).map fun _ =>
      { r with mResult := r.mResult.set r.mCurrentEvaluation.toNat ⟨url, l⟩ }

/-- What `EvalWebViewClient` passes on. -/
def step (r : EvalRecorder) : Callback → Option EvalRecorder
  | .pageStarted url l => r.pageStarted url l
  | .pageFinished url l => r.pageFinished url l

def machine (sites : List ResultPair) : Machine EvalRecorder Callback :=
  ⟨create sites, step⟩

/-- The end of `onCreate`, and the callbacks after it. -/
def evaluate (sites : List ResultPair) (es : List Callback) : Option EvalRecorder :=
  (machine sites).start.loadNextPage.bind (fun r => (machine sites).run r es)

end EvalRecorder

def sDefaultSite : String := "http://www.android.com"
def sRepeatTimes : ℕ := 5

/-- The lines of the site list, as far as they could be read, or the default site. -/
def siteList (lines : List String) : List String :=
  if lines.length = 0 then lines ++ [sDefaultSite] else lines

def slotsOf (urls : List String) : List ResultPair :=
  urls.map (fun url => ⟨url, 0⟩)

def loadSiteLists (lines : List String) : List ResultPair :=
  (siteList lines).flatMap (fun url => List.replicate sRepeatTimes ⟨url, 0⟩)

/-- The sites asked for: of the calls that `loadNextPage` makes for a page, the last. -/
def siteRequests : List WebViewCall → List String
  | .freeMemory :: .loadUrl url :: cs => url :: siteRequests cs
  | _ :: cs => siteRequests cs
  | [] => []

end ExpressOS

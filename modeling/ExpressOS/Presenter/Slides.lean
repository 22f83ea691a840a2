import ExpressOS.Binder.Marshaler

/-!
# The slides on screen

`loadSlide`, `display` and the switch of `runPresentation`. The archive, the image decoder and the
texture belong to libraries: the archive and the decoder are parameters, and of the texture the
model keeps what was uploaded last.
-/

namespace ExpressOS

inductive Action
  | noOp
  | prevSlide
  | nextSlide
  | toggleBlank
  deriving DecidableEq, Repr

def EACCES : ℤ := 13
def EINVAL : ℤ := 22
def NO_ERROR : ℤ := 0

inductive BitmapConfig
  | argb8888
  | rgb565
  | other
  deriving DecidableEq, Repr

structure Bitmap where
  config : BitmapConfig
  width : ℕ
  height : ℕ
  pixels : List UInt8
  deriving DecidableEq, Repr

/-- `mSlides`, and the decoder: a bitmap that `decodeMemory` cannot fill has no pixels and none of
the configurations that are uploaded. -/
structure SlideArchive where
  findEntryByName : String → Option ℕ
  getEntryInfo : ℕ → Option ℕ
  uncompressEntry : ℕ → Option (List UInt8)
  decodeMemory : List UInt8 → Bitmap

/-- The texture, with the number of the slide whose pixels it holds in its corner. -/
structure Texture where
  slide : ℕ
  width : ℕ
  height : ℕ
  bitmap : Bitmap
  deriving DecidableEq, Repr

/-- What `glDrawTexiOES` draws. -/
structure Drawing where
  texture : Option Texture
  crop : ℤ × ℤ × ℤ × ℤ
  width : ℕ
  height : ℕ
  deriving DecidableEq, Repr

/-- The members of `Presenter` that concern slides, the state of the texture, and the frame that
`display` drew last, which is empty for a blank screen. -/
structure Presenter where
  currentSlide : ℕ
  numberOfSlides : ℕ
  slideWidth : ℕ
  slideHeight : ℕ
  blankScreen : Bool
  texture : Option Texture
  crop : ℤ × ℤ × ℤ × ℤ
  frame : Option Drawing
  deriving DecidableEq, Repr

def slideFile (n : ℕ) : String := toString n ++ ".png"

/-- A side of the texture: a power of two. For a side of length 0 the source has no defined value,
and does not use it. -/
def textureSide (w : ℕ) : ℕ :=
  let tw := 2 ^ Nat.log2 w
  if tw < w then tw * 2 else tw

namespace Presenter

/-- The switch on `bitmap.getConfig()`. Where a side is too long for the bitmap, the source makes an
empty texture first and writes the pixels to its corner. -/
def uploadBitmap (p : Presenter) (n : ℕ) (bitmap : Bitmap) : Presenter :=
  let texture : Texture := ⟨n, textureSide bitmap.width, textureSide bitmap.height, bitmap⟩
  match bitmap.config with
  | .argb8888 => { p with texture := some texture }
  | .rgb565 => { p with texture := some texture }
  -- `LOGE("Unknown file format\n")`
  | .other => p

def loadSlide (slides : SlideArchive) (n : ℕ) (p : Presenter) : ℤ × Presenter :=
  match slides.findEntryByName (slideFile n) with
  | none => (-EACCES, p)
  | some entry =>
    match slides.getEntryInfo entry with
    | none => (-EINVAL, p)
    | some _ =>
      match slides.uncompressEntry entry with
      | none => (-EINVAL, p)
      | some buffer =>
        let bitmap := slides.decodeMemory buffer
        (NO_ERROR, { p.uploadBitmap n bitmap with
          crop := (0, bitmap.height, bitmap.width, -bitmap.height), currentSlide := n })

def drawn (p : Presenter) : Option Drawing :=
  if p.blankScreen then none else some ⟨p.texture, p.crop, p.slideWidth, p.slideHeight⟩

def display (p : Presenter) : Presenter := { p with frame := p.drawn }

/-- The switch of `runPresentation`. -/
def execute (slides : SlideArchive) (p : Presenter) : Action → Presenter
  | .prevSlide =>
    if p.currentSlide > 1 then
      let n := p.currentSlide - 1
      (loadSlide slides n { p with currentSlide := n }).2.display
    else p
  | .nextSlide =>
    if p.currentSlide < p.numberOfSlides then
      let n := p.currentSlide + 1
      (loadSlide slides n { p with currentSlide := n }).2.display
    else p
  | .toggleBlank => { p with blankScreen := !p.blankScreen }.display
  -- `printf("Unknown action\n")`
  | .noOp => p

/-- A presenter after `open`, with the three numbers of `desc.txt`. -/
def opened (numberOfSlides slideWidth slideHeight : ℕ) : Presenter :=
  ⟨0, numberOfSlides, slideWidth, slideHeight, false, none, (0, 0, 0, 0), none⟩

/-- `runPresentation` up to its loop. -/
def begun (slides : SlideArchive) (p : Presenter) : Presenter := (loadSlide slides 1 p).2.display

@[simp] lemma display_currentSlide (p : Presenter) : p.display.currentSlide = p.currentSlide := rfl

@[simp] lemma display_numberOfSlides (p : Presenter) :
    p.display.numberOfSlides = p.numberOfSlides := rfl

@[simp] lemma display_blankScreen (p : Presenter) : p.display.blankScreen = p.blankScreen := rfl

@[simp] lemma display_texture (p : Presenter) : p.display.texture = p.texture := rfl

end Presenter

/-- The slide to turn to, of `numberOfSlides`; it is the current one where there is none to turn
to. -/
def Action.turn (numberOfSlides current : ℕ) : Action → ℕ
  | .prevSlide => if current > 1 then current - 1 else current
  | .nextSlide => if current < numberOfSlides then current + 1 else current
  | .toggleBlank | .noOp => current

def SlideArchive.bitmap? (slides : SlideArchive) (n : ℕ) : Option Bitmap :=
  (slides.findEntryByName (slideFile n)).bind fun entry =>
    (slides.getEntryInfo entry).bind fun _ =>
      (slides.uncompressEntry entry).map slides.decodeMemory

/-- The archive has an image for the slide, in one of the two configurations for a texture. -/
def SlideArchive.Shows (slides : SlideArchive) (n : ℕ) : Prop :=
  ∃ bitmap, slides.bitmap? n = some bitmap ∧ bitmap.config ≠ .other

def slidesTurnedTo (numberOfSlides : ℕ) : ℕ → List Action → List ℕ
  | _, [] => []
  | current, a :: actions =>
    let next := a.turn numberOfSlides current
    if next = current then slidesTurnedTo numberOfSlides current actions
    else next :: slidesTurnedTo numberOfSlides next actions

namespace Presenter

def NamesScreen (p : Presenter) : Prop := p.texture.map Texture.slide = some p.currentSlide

variable (slides : SlideArchive) (p : Presenter)

lemma uploadBitmap_eq (n : ℕ) (bitmap : Bitmap) :
    p.uploadBitmap n bitmap = { p with texture := (p.uploadBitmap n bitmap).texture } := by
  unfold uploadBitmap
  cases bitmap.config <;> rfl

lemma uploadBitmap_texture (n : ℕ) {bitmap : Bitmap} (h : bitmap.config ≠ .other) :
    (p.uploadBitmap n bitmap).texture.map Texture.slide = some n := by
  unfold uploadBitmap
  cases hconfig : bitmap.config with
  | argb8888 | rgb565 => rfl
  | other => exact absurd hconfig h

lemma uploadBitmap_other (n : ℕ) {bitmap : Bitmap} (h : bitmap.config = .other) :
    p.uploadBitmap n bitmap = p := by
  unfold uploadBitmap
  rw [h]

/-- A load that fails early changes nothing; any other sets the index, also for a bitmap that it
does not upload. -/
lemma loadSlide_cases (n : ℕ) :
    (slides.bitmap? n = none ∧ (loadSlide slides n p).1 < 0 ∧ (loadSlide slides n p).2 = p) ∨
      ∃ bitmap, slides.bitmap? n = some bitmap ∧
        loadSlide slides n p = (NO_ERROR, { p with
          texture := (p.uploadBitmap n bitmap).texture,
          crop := (0, bitmap.height, bitmap.width, -bitmap.height), currentSlide := n }) := by
  unfold SlideArchive.bitmap? loadSlide
  cases slides.findEntryByName (slideFile n) with
  | none => exact .inl ⟨rfl, by norm_num [EACCES], rfl⟩
  | some entry =>
    simp only [Option.bind_some]
    cases slides.getEntryInfo entry with
    | none => exact .inl ⟨rfl, by norm_num [EINVAL], rfl⟩
    | some length =>
      simp only [Option.bind_some]
      cases slides.uncompressEntry entry with
      | none => exact .inl ⟨rfl, by norm_num [EINVAL], rfl⟩
      | some buffer =>
        refine .inr ⟨slides.decodeMemory buffer, rfl, ?_⟩
        dsimp only
        rw [uploadBitmap_eq]

lemma loadSlide_numberOfSlides (n : ℕ) :
    (loadSlide slides n p).2.numberOfSlides = p.numberOfSlides := by
  obtain ⟨-, -, h⟩ | ⟨bitmap, -, h⟩ := loadSlide_cases slides p n <;> rw [h]

lemma loadSlide_blankScreen (n : ℕ) :
    (loadSlide slides n p).2.blankScreen = p.blankScreen := by
  obtain ⟨-, -, h⟩ | ⟨bitmap, -, h⟩ := loadSlide_cases slides p n <;> rw [h]

lemma loadSlide_currentSlide (n : ℕ) (hn : p.currentSlide = n) :
    (loadSlide slides n p).2.currentSlide = n := by
  obtain ⟨-, -, h⟩ | ⟨bitmap, -, h⟩ := loadSlide_cases slides p n
  · rw [h, hn]
  · rw [h]

lemma loadSlide_texture (n : ℕ) :
    (loadSlide slides n p).2.texture.map Texture.slide = some n ∧ slides.Shows n ∨
      (loadSlide slides n p).2.texture = p.texture ∧ ¬ slides.Shows n := by
  obtain ⟨hnone, -, h⟩ | ⟨bitmap, hsome, h⟩ := loadSlide_cases slides p n
  · refine .inr ⟨by rw [h], ?_⟩
    rintro ⟨bitmap, hbitmap, -⟩
    rw [hnone] at hbitmap
    cases hbitmap
  · rw [h]
    by_cases hother : bitmap.config = .other
    · refine .inr ⟨by rw [uploadBitmap_other p n hother], ?_⟩
      rintro ⟨bitmap', hbitmap, hconfig⟩
      obtain rfl := Option.some.inj (hsome.symm.trans hbitmap)
      exact hconfig hother
    · exact .inl ⟨uploadBitmap_texture p n hother, bitmap, hsome, hother⟩

/-- Either the action turns to another slide, and the index goes there before the load, or only the
screen may change between blank and not blank. -/
lemma execute_cases (a : Action) :
    (a.turn p.numberOfSlides p.currentSlide = p.currentSlide ∧
        (execute slides p a = p ∨
          execute slides p a = { p with blankScreen := !p.blankScreen }.display)) ∨
      ∃ n, a.turn p.numberOfSlides p.currentSlide = n ∧ n ≠ p.currentSlide ∧
        execute slides p a = (loadSlide slides n { p with currentSlide := n }).2.display := by
  cases a with
  | noOp => exact .inl ⟨rfl, .inl rfl⟩
  | toggleBlank => exact .inl ⟨rfl, .inr rfl⟩
  | prevSlide =>
    by_cases hcond : p.currentSlide > 1
    · exact .inr ⟨p.currentSlide - 1, if_pos hcond, by omega, if_pos hcond⟩
    · exact .inl ⟨if_neg hcond, .inl (if_neg hcond)⟩
  | nextSlide =>
    by_cases hcond : p.currentSlide < p.numberOfSlides
    · exact .inr ⟨p.currentSlide + 1, if_pos hcond, by omega, if_pos hcond⟩
    · exact .inl ⟨if_neg hcond, .inl (if_neg hcond)⟩

lemma execute_numberOfSlides (a : Action) :
    (execute slides p a).numberOfSlides = p.numberOfSlides := by
  obtain ⟨-, h | h⟩ | ⟨n, -, -, h⟩ := execute_cases slides p a
  · rw [h]
  · rw [h, display_numberOfSlides]
  · rw [h, display_numberOfSlides, loadSlide_numberOfSlides]

/-- Whatever becomes of the load, the index is where the action turns to. -/
lemma execute_currentSlide (a : Action) :
    (execute slides p a).currentSlide = a.turn p.numberOfSlides p.currentSlide := by
  obtain ⟨hturn, h | h⟩ | ⟨n, hturn, -, h⟩ := execute_cases slides p a
  · rw [h, hturn]
  · rw [h, hturn, display_currentSlide]
  · rw [h, hturn, display_currentSlide]
    exact loadSlide_currentSlide slides _ n rfl

lemma execute_blankScreen (a : Action) :
    (execute slides p a).blankScreen =
      if a = .toggleBlank then !p.blankScreen else p.blankScreen := by
  cases a with
  | noOp | toggleBlank => rfl
  | prevSlide =>
    by_cases hcond : p.currentSlide > 1
    · rw [execute, if_pos hcond]
      exact (display_blankScreen _).trans (loadSlide_blankScreen ..)
    · rw [execute, if_neg hcond]
      rfl
  | nextSlide =>
    by_cases hcond : p.currentSlide < p.numberOfSlides
    · rw [execute, if_pos hcond]
      exact (display_blankScreen _).trans (loadSlide_blankScreen ..)
    · rw [execute, if_neg hcond]
      rfl

variable {p}

lemma execute_namesScreen_iff (a : Action) (hp : p.NamesScreen) :
    (execute slides p a).NamesScreen ↔
      (a.turn p.numberOfSlides p.currentSlide ≠ p.currentSlide →
        slides.Shows (a.turn p.numberOfSlides p.currentSlide)) := by
  obtain ⟨hturn, h⟩ | ⟨n, hturn, hne, h⟩ := execute_cases slides p a
  · apply iff_of_true
    · obtain h | h := h
      · rw [h]
        exact hp
      · rw [h]
        exact hp
    · exact fun hne => absurd hturn hne
  · rw [hturn, NamesScreen, h, display_texture, display_currentSlide]
    have hcurrent := loadSlide_currentSlide slides { p with currentSlide := n } n rfl
    obtain ⟨hload, hshows⟩ | ⟨hload, hshows⟩ :=
      loadSlide_texture slides { p with currentSlide := n } n
    · exact iff_of_true (hload.trans (congrArg some hcurrent).symm) (fun _ => hshows)
    · apply iff_of_false
      · intro hnames
        have hold : p.texture.map Texture.slide = some n :=
          (congrArg (Option.map Texture.slide) hload).symm.trans
            (hnames.trans (congrArg some hcurrent))
        exact hne (Option.some.inj (hold.symm.trans hp))
      · intro hneeds
        exact hshows (hneeds hne)

/-- When `runPresentation` waits for the next action, the index names the slide on screen, and an
action whose slide cannot be shown has left it as it was. -/
def IndexNamesScreen (p : Presenter) (actions : List Action) : Prop :=
  (∀ k, ((actions.take k).foldl (execute slides) p).NamesScreen) ∧
    ∀ k a, actions[k]? = some a →
      ¬ slides.Shows
          (a.turn p.numberOfSlides ((actions.take k).foldl (execute slides) p).currentSlide) →
      ((actions.take (k + 1)).foldl (execute slides) p).currentSlide =
        ((actions.take k).foldl (execute slides) p).currentSlide

lemma indexNamesScreen_cons {a : Action} {actions : List Action} (h : p.NamesScreen) :
    IndexNamesScreen slides p (a :: actions) ↔
      (a.turn p.numberOfSlides p.currentSlide ≠ p.currentSlide →
          slides.Shows (a.turn p.numberOfSlides p.currentSlide)) ∧
        IndexNamesScreen slides (execute slides p a) actions := by
  rw [← execute_namesScreen_iff slides a h]
  constructor
  · rintro ⟨hnames, hkeeps⟩
    refine ⟨hnames 1, fun k => hnames (k + 1), fun k b hb => ?_⟩
    rw [execute_numberOfSlides]
    exact hkeeps (k + 1) b hb
  · rintro ⟨hnext, hnames, hkeeps⟩
    constructor
    · intro k
      cases k with
      | zero => exact h
      | succ k => exact hnames k
    · intro k b hb hfails
      cases k with
      | zero =>
        obtain rfl := Option.some.inj hb
        by_contra hmoved
        rw [execute_namesScreen_iff slides _ h] at hnext
        refine hfails (hnext fun hstay => hmoved ?_)
        exact (execute_currentSlide ..).trans hstay
      | succ k =>
        have hfails' := hkeeps k b hb
        rw [execute_numberOfSlides] at hfails'
        exact hfails' hfails

lemma indexNamesScreen_iff {actions : List Action} (h : p.NamesScreen) :
    IndexNamesScreen slides p actions ↔
      ∀ n ∈ slidesTurnedTo p.numberOfSlides p.currentSlide actions, slides.Shows n := by
  induction actions generalizing p with
  | nil =>
    apply iff_of_true
    · refine ⟨fun k => ?_, fun k a ha => ?_⟩
      · rw [List.take_nil]
        exact h
      · cases ha
    · intro n hn
      cases hn
  | cons a actions ih =>
    rw [indexNamesScreen_cons slides h, slidesTurnedTo]
    by_cases hstay : a.turn p.numberOfSlides p.currentSlide = p.currentSlide
    · have hnext := (execute_namesScreen_iff slides a h).mpr (fun hne => absurd hstay hne)
      rw [ih hnext, execute_currentSlide, execute_numberOfSlides, if_pos hstay, hstay]
      exact and_iff_right (fun hne => absurd rfl hne)
    · rw [if_neg hstay, List.forall_mem_cons]
      constructor
      · rintro ⟨hshows, hrest⟩
        have hnext := (execute_namesScreen_iff slides a h).mpr hshows
        rw [ih hnext, execute_currentSlide, execute_numberOfSlides] at hrest
        exact ⟨hshows hstay, hrest⟩
      · rintro ⟨hshows, hrest⟩
        have hnext := (execute_namesScreen_iff slides a h).mpr (fun _ => hshows)
        rw [ih hnext, execute_currentSlide, execute_numberOfSlides]
        exact ⟨fun _ => hshows, hrest⟩

lemma begun_of_shows (p : Presenter) (hfirst : slides.Shows 1) :
    (begun slides p).NamesScreen ∧ (begun slides p).currentSlide = 1 := by
  obtain ⟨bitmap, hbitmap, hconfig⟩ := hfirst
  obtain ⟨hnone, -, -⟩ | ⟨bitmap', hbitmap', h⟩ := loadSlide_cases slides p 1
  · rw [hnone] at hbitmap
    cases hbitmap
  · obtain rfl := Option.some.inj (hbitmap.symm.trans hbitmap')
    unfold begun NamesScreen
    rw [h]
    exact ⟨uploadBitmap_texture p 1 hconfig, rfl⟩

end Presenter

open Presenter

/-- The index is undone by nobody when a load fails, and it is set for a bitmap that is not
uploaded: it is right exactly if every slide that the actions turn to can be shown. -/
theorem index_names_screen_iff (slides : SlideArchive) (p : Presenter) (actions : List Action)
    (hfirst : slides.Shows 1) :
    IndexNamesScreen slides (begun slides p) actions ↔
      ∀ n ∈ slidesTurnedTo p.numberOfSlides 1 actions, slides.Shows n := by
  obtain ⟨hnames, hcurrent⟩ := begun_of_shows slides p hfirst
  have hnumber : (begun slides p).numberOfSlides = p.numberOfSlides :=
    loadSlide_numberOfSlides ..
  rw [indexNamesScreen_iff slides hnames, hcurrent, hnumber]

/-- An archive with images for the slides in `present`. -/
def sampleArchive (present : List ℕ) : SlideArchive where
  findEntryByName name := present.find? (fun n => slideFile n = name)
  getEntryInfo := some
  uncompressEntry n := some [UInt8.ofNat n]
  decodeMemory bytes := ⟨.rgb565, 1, 1, bytes⟩

/-- To the second slide and back. -/
theorem sample_index_names_screen :
    IndexNamesScreen (sampleArchive [1, 2]) (begun (sampleArchive [1, 2]) (opened 3 640 480))
      [.nextSlide, .toggleBlank, .prevSlide, .prevSlide] := by
  have hshows : ∀ n ∈ [1, 2], (sampleArchive [1, 2]).Shows n := by
    intro n hn
    refine ⟨⟨.rgb565, 1, 1, [UInt8.ofNat n]⟩, ?_, fun h => BitmapConfig.noConfusion h⟩
    fin_cases hn <;> decide
  refine (index_names_screen_iff _ _ _ (hshows 1 (by decide))).mpr fun n hn => ?_
  have hturned : n ∈ [2, 1] := hn
  exact hshows n (List.mem_reverse.mpr hturned)

/-- The second slide is missing: the index says 2, and the first slide stays on screen. -/
theorem index_of_missing_slide :
    (sampleArchive [1]).Shows 1 ∧
      let p := [Action.nextSlide].foldl (execute (sampleArchive [1]))
        (begun (sampleArchive [1]) (opened 2 640 480))
      p.currentSlide = 2 ∧ p.texture.map Texture.slide = some 1 ∧
        ¬ IndexNamesScreen (sampleArchive [1]) (begun (sampleArchive [1]) (opened 2 640 480))
          [.nextSlide] := by
  refine ⟨⟨⟨.rgb565, 1, 1, [1]⟩, by decide, by decide⟩, by decide, by decide, fun h => ?_⟩
  exact absurd (h.1 1) (by unfold NamesScreen; decide)

end ExpressOS

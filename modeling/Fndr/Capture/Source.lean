import Fndr.Capture.NativeSample
import Fndr.Capture.Pipeline
import Fndr.Library.Durable
import Fndr.Library.Files
import Fndr.Library.Runs

set_option autoImplicit false

/-! # The screen as a frame source

`ScreenCaptureKitSource::grab` goes through a file: the PNG encoder writes one in the temp directory,
`grab` reads it, and `TempPng` removes it when `grab` returns. Several processes do so in one
directory, the encoder writes as it likes, reading and removing can fail, and a process can be killed
anywhere. Whatever the interleaving, a raw frame is on disk only while its grab goes on, or where the
grab was killed or the file could not be removed, and a grab returns the image it asked for, never what
another one has in the directory (`frames_stay_private`).

A process has one grab at a time, that of its capture worker. Paths are text here, so the error of a
temp path that is not UTF-8 has no counterpart. -/

namespace Fndr

open RustStd Runs

variable {H : Type}

/-! ## Before there is a file -/

/-- A captured image: its raster, and the PNG it encodes to. -/
structure CGImage where
  width : ℕ
  height : ℕ
  rgbaData : Except Str (List UInt8)
  png : List UInt8

/-- What ScreenCaptureKit answers: the displays, each with what a capture of it gives. -/
abbrev ShareableContent := Except Str (List (Except Str CGImage))

/-- The capture of one of the displays. -/
def captureImage (displayIndex : ℕ) (displays : List (Except Str CGImage)) :
    Except CaptureError CGImage :=
  match displays[displayIndex]? with
  | none =>
      .error (.permissionOrTool ("display index ".toList ++ (toString displayIndex).toList ++
        " not present (".toList ++ (toString displays.length).toList ++
        " display(s) available)".toList))
  | some captured =>
      captured.mapError (fun e => .permissionOrTool ("SCScreenshotManager: ".toList ++ e))

/-- `grab` up to the perceptual signature. -/
def captureSampled [ImageHasher H] (displayIndex : ℕ) (content : ShareableContent) :
    Except CaptureError (CGImage × PerceptualSignature H) := do
  let displays ← content.mapError (fun e => .permissionOrTool
    ("ScreenCaptureKit could not list shareable content ".toList ++
      "(screen recording permission?): ".toList ++ e))
  let image ← captureImage displayIndex displays
  let nativeRgba ← image.rgbaData.mapError .perceptualSignature
  match fromNativeRgba image.width image.height nativeRgba with
  | some (some signature) => return (image, signature)
  -- the outer `none` is an overflow, which no raster leads to
  | _ => throw (.perceptualSignature "invalid ScreenCaptureKit RGBA raster".toList)

/-- `TempPng::new`. -/
def TempPng.path (tempDir : Path) (processId nowMs : ℕ) : Path :=
  ⟨tempDir.components ++ [.normal ("fndr-sck-".toList ++ ((toString processId).toList ++ '-' ::
    ((toString nowMs).toList ++ ".png".toList)))]⟩

example : (TempPng.path ⟨[.rootDir, .normal "tmp".toList]⟩ 7 1000).fileName
    = some "fndr-sck-7-1000.png".toList := by decide +kernel

/-! ## Grabs of many processes -/

/-- Where a grab is that has a temp file. -/
inductive GrabPhase (H : Type)
  /-- `image.save` is at work. -/
  | saving
  | saved
  /-- The result is there, and `tmp` is dropped next. -/
  | dropping (result : Except CaptureError (Frame H))

/-- A grab that a process is in the middle of. -/
structure Grab (H : Type) where
  displayIndex : ℕ
  content : ShareableContent
  image : CGImage
  signature : PerceptualSignature H
  tmp : Path
  phase : GrabPhase H

/-- A grab that has returned. -/
structure Returned (H : Type) where
  displayIndex : ℕ
  content : ShareableContent
  result : Except CaptureError (Frame H)

/-- What the grab of a process does next. -/
inductive GrabStep
  | grab (displayIndex : ℕ) (content : ShareableContent) (nowMs : ℕ)
  /-- What the encoder has written so far. -/
  | write (content : List UInt8)
  | save (fault : Option Str)
  | read (fault : Option IoError) (nowMs : ℕ)
  | drop (fault : Option IoError)
  | kill

/-- A grab after a step. -/
inductive GrabOutcome (H : Type)
  | going (grab : Grab H)
  /-- `removed` says that `remove_file` worked or found no file. -/
  | returned (result : Except CaptureError (Frame H)) (removed : Bool)
  | killed

/-- `image.save`. -/
def Grab.save (grab : Grab H) (files : FileSystem) (fault : Option Str) : Grab H × FileSystem :=
  match fault, files.put grab.tmp grab.image.png with
  | none, .ok files => ({ grab with phase := .saved }, files)
  | some e, _ | none, .error ⟨e⟩ =>
      ({ grab with
          phase := .dropping (.error (.permissionOrTool ("PNG encode: ".toList ++ e))) }, files)

/-- `std::fs::read`, and the frame made of it. -/
def Grab.read (grab : Grab H) (files : FileSystem) (fault : Option IoError) (nowMs : ℕ) :
    Except CaptureError (Frame H) :=
  match fault, files.content grab.tmp with
  | some e, _ | none, .error e => .error (.io e.message)
  | none, .ok [] => .error .empty
  | none, .ok png => .ok ⟨png, nowMs, some grab.signature⟩

/-- A step of a grab. A step that is not enabled changes nothing. -/
def Grab.exec (grab : Grab H) (files : FileSystem) : GrabStep → GrabOutcome H × FileSystem
  | .grab _ _ _ => (.going grab, files)
  | .write content =>
      match grab.phase with
      | .saving => (.going grab, (files.put grab.tmp content).toOption.getD files)
      | _ => (.going grab, files)
  | .save fault =>
      match grab.phase with
      | .saving => (grab.save files fault).map .going id
      | _ => (.going grab, files)
  | .read fault nowMs =>
      match grab.phase with
      | .saved => (.going { grab with phase := .dropping (grab.read files fault nowMs) }, files)
      | _ => (.going grab, files)
  | .drop fault =>
      match grab.phase with
      | .dropping result =>
          match fault with
          | none => (.returned result true, (files.removeFile grab.tmp).toOption.getD files)
          | some _ => (.returned result false, files)
      | _ => (.going grab, files)
  | .kill => (.killed, files)

/-- One temp directory. One thread of a process captures, so a process has one grab at most, and
    `grabs` has it under the id of the process. -/
structure GrabMachine (H : Type) where
  tempDir : Path
  files : FileSystem
  grabs : ℕ → Option (Grab H)
  returned : List (Returned H)
  /-- The temp files of grabs that were killed, or that could not remove them. -/
  abandoned : List Path

/-- The machine before its first grab. -/
def GrabMachine.start (H : Type) (tempDir : Path) (files : FileSystem) : GrabMachine H :=
  ⟨tempDir, files, fun _ => none, [], []⟩

/-- The machine with the grab of one process replaced. -/
def GrabMachine.withGrab (machine : GrabMachine H) (processId : ℕ) (grab : Option (Grab H)) :
    GrabMachine H :=
  { machine with grabs := Function.update machine.grabs processId grab }

/-- What a step of its grab means for the machine. -/
def GrabMachine.settle (machine : GrabMachine H) (processId : ℕ) (grab : Grab H) :
    GrabOutcome H → GrabMachine H
  | .going grab => machine.withGrab processId (some grab)
  | .returned result removed =>
      { machine.withGrab processId none with
        returned := machine.returned ++ [⟨grab.displayIndex, grab.content, result⟩]
        abandoned := if removed then machine.abandoned else grab.tmp :: machine.abandoned }
  | .killed =>
      { machine.withGrab processId none with abandoned := grab.tmp :: machine.abandoned }

/-- A process begins a grab. -/
def GrabMachine.grab [ImageHasher H] (machine : GrabMachine H) (processId displayIndex : ℕ)
    (content : ShareableContent) (nowMs : ℕ) : GrabMachine H :=
  match captureSampled displayIndex content with
  | .error error =>
      { machine with returned := machine.returned ++ [⟨displayIndex, content, .error error⟩] }
  | .ok (image, signature) =>
      machine.withGrab processId (some ⟨displayIndex, content, image, signature,
        TempPng.path machine.tempDir processId nowMs, .saving⟩)

/-- A process goes on with its grab, or begins one if it has none. -/
def GrabMachine.exec [ImageHasher H] (machine : GrabMachine H) (step : ℕ × GrabStep) :
    GrabMachine H :=
  match machine.grabs step.1, step.2 with
  | some grab, own =>
      let after := grab.exec machine.files own
      { machine with files := after.2 }.settle step.1 grab after.1
  | none, .grab displayIndex content nowMs => machine.grab step.1 displayIndex content nowMs
  | none, _ => machine

/-! ## What stays private -/

/-- The frame is of the display that was asked for: its PNG, and the signature of its raster. -/
structure Frame.Shows [ImageHasher H] (frame : Frame H) (displayIndex : ℕ)
    (content : ShareableContent) : Prop where
  image : ∃ displays image, content = .ok displays ∧ displays[displayIndex]? = some (.ok image) ∧
    frame.png = image.png ∧ frame.png ≠ [] ∧ ∃ rgba signature, image.rgbaData = .ok rgba ∧
      fromNativeRgba image.width image.height rgba = some (some signature) ∧
      frame.perceptualSignature = some signature

/-- No raw frame but those of grabs that go on or were abandoned, and nothing of another grab in what
    a grab returns. -/
structure GrabMachine.Private [ImageHasher H] (before : FileSystem) (machine : GrabMachine H) :
    Prop where
  onDisk : ∀ path content, machine.files.node path = some (.file content) →
    before.node path = some (.file content) ∨
      (∃ processId grab, machine.grabs processId = some grab ∧ grab.tmp = path) ∨
      path ∈ machine.abandoned
  returned : ∀ r ∈ machine.returned, ∀ frame, r.result = .ok frame →
    frame.Shows r.displayIndex r.content

/-! ## One grab -/

/-- What the grab gives is a frame of its image, when it is a frame. -/
def Grab.Gives (grab : Grab H) (result : Except CaptureError (Frame H)) : Prop :=
  ∀ frame, result = .ok frame →
    frame.png = grab.image.png ∧ frame.png ≠ [] ∧ frame.perceptualSignature = some grab.signature

/-- Its file and its result are those of its image. -/
def Grab.InStep (grab : Grab H) (files : FileSystem) : Prop :=
  match grab.phase with
  | .saving => True
  | .saved => files.node grab.tmp = some (.file grab.image.png)
  | .dropping result => grab.Gives result

/-- The files are the same, except at one path. -/
def SameBut (path : Path) (files after : FileSystem) : Prop :=
  ∀ other, other ≠ path → after.node other = files.node other

/-- Everything a step of a grab can do. -/
inductive Grab.Effect (grab : Grab H) (files : FileSystem) : GrabOutcome H × FileSystem → Prop
  | going (phase : GrabPhase H) (after : FileSystem) (hfiles : SameBut grab.tmp files after)
      (hphase : Grab.InStep { grab with phase := phase } after) :
      Effect grab files (.going { grab with phase := phase }, after)
  | removed (result : Except CaptureError (Frame H)) (after : FileSystem)
      (hfiles : SameBut grab.tmp files after) (hgives : grab.Gives result)
      (hgone : ∀ content, after.node grab.tmp ≠ some (.file content)) :
      Effect grab files (.returned result true, after)
  | left (result : Except CaptureError (Frame H)) (hgives : grab.Gives result) :
      Effect grab files (.returned result false, files)
  | killed : Effect grab files (.killed, files)

theorem SameBut.put {path : Path} {content : List UInt8} (files : FileSystem) :
    SameBut path files ((files.put path content).toOption.getD files) := by
  cases hput : files.put path content with
  | ok after => exact (FileSystem.put_eq_ok hput).2
  | error e => exact fun _ _ => rfl

theorem Grab.gives_error (grab : Grab H) (error : CaptureError) : grab.Gives (.error error) :=
  fun _ h => by cases h

theorem Grab.save_effect (grab : Grab H) (files : FileSystem) (fault : Option Str) :
    grab.Effect files ((grab.save files fault).map .going id) := by
  cases fault with
  | some e => exact .going _ files (fun _ _ => rfl) (grab.gives_error _)
  | none =>
      unfold Grab.save
      cases hput : files.put grab.tmp grab.image.png with
      | error e => exact .going _ files (fun _ _ => rfl) (grab.gives_error _)
      | ok after =>
          have hafter := FileSystem.put_eq_ok hput
          exact .going _ after hafter.2 hafter.1

/-- A frame that is read is the image that was saved. -/
theorem Grab.gives_read {grab : Grab H} {files : FileSystem}
    (hsaved : files.node grab.tmp = some (.file grab.image.png)) (fault : Option IoError)
    (nowMs : ℕ) : grab.Gives (grab.read files fault nowMs) := by
  have hcontent : files.content grab.tmp = .ok grab.image.png := FileSystem.content_eq_ok.2 hsaved
  intro frame hframe
  unfold Grab.read at hframe
  rw [hcontent] at hframe
  split at hframe
  · cases hframe
  · next h => cases h
  · cases hframe
  · next png hne h =>
    cases h
    cases hframe
    exact ⟨rfl, hne, rfl⟩

theorem gone_of_removeFile (files : FileSystem) (path : Path) :
    SameBut path files ((files.removeFile path).toOption.getD files) ∧
      ∀ content, ((files.removeFile path).toOption.getD files).node path ≠ some (.file content) := by
  cases hremove : files.removeFile path with
  | ok after =>
      obtain ⟨-, rfl⟩ := FileSystem.removeFile_eq_ok hremove
      refine ⟨fun other hother => FileSystem.erase_other hother, fun content hcontent => ?_⟩
      rw [Except.toOption, Option.getD_some, FileSystem.erase_self] at hcontent
      cases hcontent
  | error e =>
      refine ⟨fun _ _ => rfl, fun content hcontent => ?_⟩
      have hfile : files.node path = some (.file content) := hcontent
      rw [FileSystem.removeFile_ok hfile] at hremove
      cases hremove

theorem Grab.exec_effect {grab : Grab H} {files : FileSystem} (h : grab.InStep files)
    (step : GrabStep) : grab.Effect files (grab.exec files step) := by
  have hidle : grab.Effect files (.going grab, files) := .going grab.phase files (fun _ _ => rfl) h
  cases step with
  -- a process begins a grab only when it has none
  | grab displayIndex content nowMs => exact hidle
  | write content =>
      dsimp only [Grab.exec]
      split
      · next hphase =>
        refine .going grab.phase _ (SameBut.put files) ?_
        rw [Grab.InStep, hphase]
        trivial
      · exact hidle
  | save fault =>
      dsimp only [Grab.exec]
      split
      · exact grab.save_effect files fault
      · exact hidle
  | read fault nowMs =>
      dsimp only [Grab.exec]
      split
      · next hphase =>
        rw [Grab.InStep, hphase] at h
        exact .going _ files (fun _ _ => rfl) (gives_read h fault nowMs)
      · exact hidle
  | drop fault =>
      dsimp only [Grab.exec]
      split
      · next result hphase =>
        rw [Grab.InStep, hphase] at h
        cases fault with
        | none =>
            obtain ⟨hothers, hgone⟩ := gone_of_removeFile files grab.tmp
            exact .removed result _ hothers h hgone
        | some e => exact .left result h
      · exact hidle
  | kill => exact .killed

/-! ## Every grab -/

theorem TempPng.path_injective {tempDir : Path} {p q m n : ℕ}
    (h : TempPng.path tempDir p m = TempPng.path tempDir q n) : p = q := by
  have hname := (List.append_inj' (congrArg Path.components h) rfl).2
  have hchars := Component.normal.inj (List.cons.inj hname).1
  have hnumber : ∀ nowMs : ℕ, '-' ∉ (toString nowMs).toList ++ ".png".toList := by
    intro nowMs hdash
    rcases List.mem_append.1 hdash with hdash | hdash
    · exact dash_notMem_toString nowMs hdash
    · exact absurd hdash (by decide)
  obtain ⟨hp, -⟩ := (List.append_cons_inj_of_notMem (dash_notMem_toString p) (hnumber m)).1
    (List.append_cancel_left hchars)
  exact toString_toList_injective hp

/-- The temp file of a grab is named after its process, and the grab is in step. -/
structure Grab.Own [ImageHasher H] (grab : Grab H) (tempDir : Path) (processId : ℕ)
    (files : FileSystem) : Prop where
  tmp : ∃ nowMs, grab.tmp = TempPng.path tempDir processId nowMs
  sampled : captureSampled grab.displayIndex grab.content = .ok (grab.image, grab.signature)
  inStep : grab.InStep files

/-- What holds between the steps of all processes. -/
structure GrabMachine.Sound [ImageHasher H] (before : FileSystem) (machine : GrabMachine H) :
    Prop where
  isPrivate : machine.Private before
  own : ∀ processId grab, machine.grabs processId = some grab →
    grab.Own machine.tempDir processId machine.files

/-- `?` after the answers of ScreenCaptureKit and the raster. -/
theorem captureSampled_eq_ok [ImageHasher H] {displayIndex : ℕ} {content : ShareableContent}
    {image : CGImage} {signature : PerceptualSignature H}
    (h : captureSampled displayIndex content = .ok (image, signature)) :
    ∃ displays rgba, content = .ok displays ∧ displays[displayIndex]? = some (.ok image) ∧
      image.rgbaData = .ok rgba ∧
      fromNativeRgba image.width image.height rgba = some (some signature) := by
  unfold captureSampled at h
  obtain ⟨displays, hdisplays, h⟩ := Except.bind_eq_ok.1 h
  obtain ⟨captured, hcaptured, h⟩ := Except.bind_eq_ok.1 h
  unfold captureImage at hcaptured
  obtain ⟨rgba, hrgba, h⟩ := Except.bind_eq_ok.1 h
  have hcontent := Except.mapError_eq_ok.1 hdisplays
  have hraster := Except.mapError_eq_ok.1 hrgba
  split at hcaptured
  · cases hcaptured
  · next answer hdisplay =>
    rw [Except.mapError_eq_ok.1 hcaptured] at hdisplay
    split at h
    · next found hfound =>
      cases h
      exact ⟨displays, rgba, hcontent, hdisplay, hraster, hfound⟩
    · cases h

section Grabs

variable [ImageHasher H] {before : FileSystem} {machine after : GrabMachine H} {processId : ℕ}
  {grab : Grab H}

theorem Grab.Own.shows {tempDir : Path} {files : FileSystem}
    (h : grab.Own tempDir processId files) {result : Except CaptureError (Frame H)}
    (hgives : grab.Gives result) :
    ∀ frame, result = .ok frame → frame.Shows grab.displayIndex grab.content := by
  intro frame hframe
  obtain ⟨hpng, hne, hsignature⟩ := hgives frame hframe
  obtain ⟨displays, rgba, hcontent, hdisplay, hraster, hfound⟩ := captureSampled_eq_ok h.sampled
  exact ⟨displays, grab.image, hcontent, hdisplay, hpng, hne, rgba, grab.signature, hraster, hfound,
    hsignature⟩

/-- The files of other processes have other names. -/
theorem Grab.Own.other {tempDir : Path} {files files' : FileSystem} {other : Grab H} {otherId : ℕ}
    (h : grab.Own tempDir processId files) (hother : other.Own tempDir otherId files)
    (hne : otherId ≠ processId) (hfiles : SameBut grab.tmp files files') :
    other.Own tempDir otherId files' := by
  obtain ⟨nowMs, hpath⟩ := h.tmp
  obtain ⟨otherMs, hotherPath⟩ := hother.tmp
  have htmp : other.tmp ≠ grab.tmp := by
    rw [hpath, hotherPath]
    exact fun hsame => hne (TempPng.path_injective hsame)
  refine ⟨hother.tmp, hother.sampled, ?_⟩
  have hinStep := hother.inStep
  unfold InStep at hinStep ⊢
  rw [hfiles _ htmp]
  exact hinStep

/-- A step of one grab changes its own file only. -/
theorem GrabMachine.Sound.of_step (h : machine.Sound before)
    (hgrab : machine.grabs processId = some grab) (next : Option (Grab H))
    (hdir : after.tempDir = machine.tempDir)
    (hfiles : SameBut grab.tmp machine.files after.files)
    (hgrabs : after.grabs = Function.update machine.grabs processId next)
    (hnext : ∀ grab' ∈ next, grab'.tmp = grab.tmp ∧ grab'.Own machine.tempDir processId after.files)
    (hkept : machine.abandoned ⊆ after.abandoned)
    (hgone : next = none → ∀ content, after.files.node grab.tmp = some (.file content) →
      grab.tmp ∈ after.abandoned)
    (hreturned : ∀ r ∈ after.returned, r ∈ machine.returned ∨
      ∀ frame, r.result = .ok frame → frame.Shows r.displayIndex r.content) :
    after.Sound before := by
  -- a grab touches its own temp file only, whose name no other grab has
  have hown := h.own processId grab hgrab
  refine ⟨⟨fun path content hnode => ?_, fun r hr => ?_⟩, fun otherId other hother => ?_⟩
  · by_cases hpath : path = grab.tmp
    · subst hpath
      cases hnextEq : next with
      | none => exact Or.inr (Or.inr (hgone hnextEq content hnode))
      | some grab' =>
          refine Or.inr (Or.inl ⟨processId, grab', ?_, (hnext grab' hnextEq).1⟩)
          rw [hgrabs, hnextEq, Function.update_self]
    · rw [hfiles path hpath] at hnode
      rcases h.isPrivate.onDisk path content hnode with hbefore | ⟨otherId, other, hother, htmp⟩ | hleft
      · exact Or.inl hbefore
      · refine Or.inr (Or.inl ⟨otherId, other, ?_, htmp⟩)
        rw [hgrabs, Function.update_of_ne, hother]
        rintro rfl
        rw [hgrab] at hother
        cases hother
        exact hpath htmp.symm
      · exact Or.inr (Or.inr (hkept hleft))
  · rcases hreturned r hr with hold | hnew
    · exact h.isPrivate.returned r hold
    · exact hnew
  · rw [hdir]
    rw [hgrabs] at hother
    by_cases hsame : otherId = processId
    · subst hsame
      rw [Function.update_self] at hother
      exact (hnext other hother).2
    · rw [Function.update_of_ne hsame] at hother
      exact hown.other (h.own otherId other hother) hsame hfiles

/-- What a grab returns is a frame of its own. -/
theorem Grab.Own.returned (hown : grab.Own machine.tempDir processId machine.files)
    {result : Except CaptureError (Frame H)} (hgives : grab.Gives result) :
    ∀ r ∈ machine.returned ++ [⟨grab.displayIndex, grab.content, result⟩],
      r ∈ machine.returned ∨
        ∀ frame, r.result = .ok frame → frame.Shows r.displayIndex r.content := by
  intro r hr
  rcases List.mem_append.1 hr with hr | hr
  · exact Or.inl hr
  · rw [List.mem_singleton.1 hr]
    exact Or.inr (hown.shows hgives)

theorem GrabMachine.Sound.settle (h : machine.Sound before)
    (hgrab : machine.grabs processId = some grab) {outcome : GrabOutcome H × FileSystem}
    (heffect : grab.Effect machine.files outcome) :
    ({ machine with files := outcome.2 }.settle processId grab outcome.1).Sound before := by
  have hown := h.own processId grab hgrab
  cases heffect with
  | going phase files hfiles hphase =>
      refine h.of_step hgrab (some { grab with phase := phase }) rfl hfiles rfl ?_
        (List.Subset.refl _) nofun (fun _ hr => Or.inl hr)
      rintro grab' hgrab'
      cases hgrab'
      exact ⟨rfl, hown.tmp, hown.sampled, hphase⟩
  | removed result files hfiles hgives hgone =>
      exact h.of_step hgrab none rfl hfiles rfl nofun (List.Subset.refl _)
        (fun _ content hcontent => absurd hcontent (hgone content)) (hown.returned hgives)
  | left result hgives =>
      exact h.of_step hgrab none rfl (fun _ _ => rfl) rfl nofun (List.subset_cons_self _ _)
        (fun _ _ _ => List.mem_cons_self) (hown.returned hgives)
  | killed =>
      exact h.of_step hgrab none rfl (fun _ _ => rfl) rfl nofun (List.subset_cons_self _ _)
        (fun _ _ _ => List.mem_cons_self) (fun _ hr => Or.inl hr)

theorem GrabMachine.Sound.begin (h : machine.Sound before)
    (hnone : machine.grabs processId = none) (displayIndex : ℕ) (content : ShareableContent)
    (nowMs : ℕ) : (machine.grab processId displayIndex content nowMs).Sound before := by
  unfold GrabMachine.grab
  split
  · next error _ =>
    refine ⟨⟨h.isPrivate.onDisk, fun r hr => ?_⟩, h.own⟩
    rcases List.mem_append.1 hr with hr | hr
    · exact h.isPrivate.returned r hr
    · rw [List.mem_singleton.1 hr]
      exact fun frame hframe => by cases hframe
  · next image signature hsampled =>
    have hothers : ∀ otherId other, machine.grabs otherId = some other → otherId ≠ processId := by
      rintro otherId other hother rfl
      rw [hnone] at hother
      cases hother
    refine ⟨⟨fun path content hnode => ?_, h.isPrivate.returned⟩, fun otherId other hother => ?_⟩
    · refine (h.isPrivate.onDisk path content hnode).imp_right (Or.imp_left ?_)
      rintro ⟨otherId, other, hother, htmp⟩
      refine ⟨otherId, other, ?_, htmp⟩
      exact (Function.update_of_ne (hothers otherId other hother) _ _).trans hother
    · by_cases hsame : otherId = processId
      · subst hsame
        cases (Function.update_self otherId _ machine.grabs).symm.trans hother
        exact ⟨⟨nowMs, rfl⟩, hsampled, trivial⟩
      · exact h.own otherId other ((Function.update_of_ne hsame _ _).symm.trans hother)

theorem GrabMachine.Sound.exec (h : machine.Sound before) (step : ℕ × GrabStep) :
    (machine.exec step).Sound before := by
  unfold GrabMachine.exec
  split
  · next _ _ going hgrab =>
    exact h.settle hgrab (Grab.exec_effect (h.own step.1 going hgrab).inStep step.2)
  · next hnone _ => exact h.begin hnone _ _ _
  · exact h

/-- **A raw frame is private to its grab.** In every run of grabs of any processes over one temp
    directory, whatever the encoder writes, whatever fails and wherever a process is killed: a file
    that was not there before is the temp file of a grab that goes on, or was left by a grab that was
    killed or could not remove it; and every frame a grab returns is that of the display it asked
    for. -/
theorem frames_stay_private (tempDir : Path) (before : FileSystem) (steps : List (ℕ × GrabStep)) :
    AllStates GrabMachine.exec (GrabMachine.Private before) (GrabMachine.start H tempDir before)
      steps := by
  have hstart : (GrabMachine.start H tempDir before).Sound before := by
    refine ⟨⟨fun _ _ hnode => Or.inl hnode, ?_⟩, ?_⟩
    · exact fun r hr => by cases hr
    · exact fun _ _ hgrab => by cases hgrab
  have hsound : AllStates GrabMachine.exec (GrabMachine.Sound before)
      (GrabMachine.start H tempDir before) steps :=
    AllStates.of_step (fun _ step h => h.exec step) hstart
  exact hsound.imp (fun _ h => h.isPrivate)

/-! ## The frames of the pipeline -/

variable {σ : Type} [ImageHash H] [DefaultHasher]

omit [ImageHasher H] [ImageHash H] in
theorem recognizeFrame_ne_missingSignature (p : CapturePipeline H σ) (c : Components H σ)
    (context : CaptureContext) (frame : Frame H) :
    (p.recognizeFrame c context frame).outcome ≠ .skipped .missingPerceptualSignature := by
  unfold CapturePipeline.recognizeFrame
  split
  · nofun
  · split
    · nofun
    · unfold Tick.after CapturePipeline.persistFrame
      dsimp only
      split
      · nofun
      · unfold persistenceOutcome
        dsimp only
        split <;> nofun

/-- No frame that a grab has returned is skipped for a missing signature. -/
theorem GrabMachine.Private.captureFrame (h : machine.Private before) {r : Returned H}
    (hr : r ∈ machine.returned) (p : CapturePipeline H σ) {c : Components H σ}
    (hgrab : c.grab = r.result) (context : CaptureContext) :
    (p.captureFrame c context).outcome ≠ .skipped .missingPerceptualSignature := by
  unfold CapturePipeline.captureFrame
  cases hresult : r.result with
  | error error =>
      rw [hgrab, hresult]
      nofun
  | ok frame =>
      obtain ⟨_, _, -, -, -, -, _, signature, -, -, hsignature⟩ := h.returned r hr frame hresult
      rw [hgrab, hresult]
      dsimp only
      rw [hsignature]
      dsimp only
      split
      · nofun
      · exact recognizeFrame_ne_missingSignature _ c context frame

end Grabs

end Fndr

import Fndr.Capture.Pipeline
import Fndr.Library.Words

set_option autoImplicit false

/-! # Foreground metadata

`foreground.rs`: what the context source reports of the frontmost app. `browser_kind` names the
browser to ask for its tab, by the bundle identifier or else by the whole tokens of the name;
`admission.rs` looks for substrings of the name. The admission of a page depends on the name exactly
where the two disagree (`admissionIgnoresName_iff`). -/

namespace Fndr

open RustStd

/-- The browsers, by how they tell their page. -/
inductive Browser
  | safari
  | chrome
  | arc
  | brave
  | edge
  | unsupported
  deriving DecidableEq

/-- Bundle identifiers matched in full. -/
def BROWSER_BUNDLE_EXACT : List (Str × Browser) :=
  [("com.apple.safari", Browser.safari), ("com.apple.safaritechnologypreview", .safari),
    ("company.thebrowser.browser", .arc), ("org.mozilla.firefox", .unsupported),
    ("org.mozilla.firefoxdeveloperedition", .unsupported),
    ("org.mozilla.nightly", .unsupported)].map (fun entry => (entry.1.toList, entry.2))

/-- The browsers whose channels share the beginning of the bundle. -/
def BROWSER_BUNDLE_PREFIX : List (Str × Browser) :=
  [("com.google.chrome", Browser.chrome), ("com.brave.browser", .brave),
    ("com.microsoft.edgemac", .edge), ("com.operasoftware.opera", .unsupported)].map
    (fun entry => (entry.1.toList, entry.2))

/-- Whole tokens of a name, for a bundle identifier that is missing or unknown. -/
def BROWSER_NAME_TOKENS : List (Str × Browser) :=
  [("safari", Browser.safari), ("chrome", .chrome), ("arc", .arc), ("brave", .brave),
    ("edge", .edge), ("firefox", .unsupported), ("opera", .unsupported)].map
    (fun entry => (entry.1.toList, entry.2))

/-- The browser of a bundle identifier. -/
def browserOfBundle (bundleId : Option Str) : Option Browser :=
  let bundle := toAsciiLowercase (trim (bundleId.getD []))
  if bundle = [] then none
  else
    match BROWSER_BUNDLE_EXACT.find? (fun entry => entry.1 == bundle) with
    | some entry => some entry.2
    | none => (BROWSER_BUNDLE_PREFIX.find? (fun entry => startsWith bundle entry.1)).map Prod.snd

/-- The browser of the first token of a name that names one. -/
def browserOfName [UnicodeTables] (appName : Str) : Option Browser :=
  ((split (fun c => !isAlphanumeric c) (toLowercase appName)).filter (· ≠ [])).findSome?
    (fun token => (BROWSER_NAME_TOKENS.find? (fun entry => entry.1 == token)).map Prod.snd)

/-- The browser whose tab is asked for. -/
def browserKind [UnicodeTables] (appName : Str) (bundleId : Option Str) : Option Browser :=
  (browserOfBundle bundleId).or (browserOfName appName)

/-! ## The context source -/

/-- A failure of the metadata stage. -/
def metadataError (message : Str) : PipelineError := ⟨.metadata, message⟩

/-- What running `osascript` comes to. -/
inductive OsascriptOutput
  | notInvoked (error : Str)
  | failed (stderr : Str)
  | succeeded (stdout : Str)

/-- The frontmost app as AppKit reports it. -/
structure ForegroundApp where
  localizedName : Option Str
  bundleIdentifier : Option Str

section Source

variable (osascript : Str → OsascriptOutput)

/-- Run a script and take what it prints. -/
def runOsascript (script : Str) : Except PipelineError Str :=
  match osascript script with
  | .notInvoked error => .error (metadataError ("could not invoke osascript: ".toList ++ error))
  | .failed stderr => .error (metadataError ("osascript denied or failed: ".toList ++ trim stderr))
  | .succeeded stdout => .ok (trim stdout)

/-- The script that asks a browser for the title and the URL of its front tab. -/
def tabScript (application tab title : String) : Str :=
  ("tell application \"" ++ application ++ "\"\n                set frontTab to " ++ tab ++
    " of front window\n                return (" ++ title ++
    " of frontTab) & (ASCII character 31) & (URL of frontTab)\n            end tell").toList

/-- The script that asks a browser for its page, if it has one. -/
def browserScript : Browser → Option Str
  | .safari => some (tabScript "Safari" "current tab" "name")
  | .chrome => some (tabScript "Google Chrome" "active tab" "title")
  | .arc => some (tabScript "Arc" "active tab" "title")
  | .brave => some (tabScript "Brave Browser" "active tab" "title")
  | .edge => some (tabScript "Microsoft Edge" "active tab" "title")
  | .unsupported => none

/-- A web URL with a host. -/
def isHttpUrl (url : Str) : Bool :=
  let lower := toAsciiLowercase url
  let authority :=
    if startsWith lower "https://".toList then some (lower.drop 8)
    else if startsWith lower "http://".toList then some (lower.drop 7)
    else none
  authority.any (fun authority =>
    (split (fun c => c == '/' || c == '?' || c == '#') authority).head?.any (· ≠ []))

/-- The title of the page and its URL, as the browser tells them. -/
def browserMetadata (browser : Browser) : Except PipelineError (Str × Option Str) :=
  match browserScript browser with
  | none =>
      .error (metadataError
        "frontmost browser does not expose a supported URL metadata interface".toList)
  | some script =>
      match runOsascript osascript script with
      | .error error => .error error
      | .ok output =>
          match splitOnce ['\x1f'] output with
          | none =>
              .error (metadataError
                "browser metadata response did not contain a title and URL".toList)
          | some (title, url) =>
              if trim title = [] ∨ isHttpUrl (trim url) = false then
                .error (metadataError
                  "browser metadata response omitted a non-empty title or HTTP(S) URL".toList)
              else .ok (trim title, some (trim url))

/-- The title of the front window, for an app that is no browser. -/
def frontWindowTitle : Except PipelineError Str :=
  let script := ("tell application \"System Events\"\n" ++
    "            tell (first process whose frontmost is true)\n" ++
    "                if (count of windows) > 0 then\n" ++
    "                    return name of front window\n" ++
    "                end if\n            end tell\n        end tell").toList
  match runOsascript osascript script with
  | .error error => .error error
  | .ok output =>
      if trim output = [] then
        .error (metadataError "frontmost application has no readable window title".toList)
      else .ok (trim output)

/-- `current_context`, for what AppKit reports at a time. -/
def currentContext [UnicodeTables] (frontmost : Option ForegroundApp) (nowMs : ℕ) :
    Except PipelineError CaptureContext :=
  match frontmost with
  | none => .error (metadataError "AppKit did not report a frontmost application".toList)
  | some app =>
      match app.localizedName.filter (fun name => trim name ≠ []) with
      | none => .error (metadataError "frontmost application has no localized name".toList)
      | some appName =>
          let metadata :=
            match browserKind appName app.bundleIdentifier with
            -- a browser that gives no URL is an error, not a window without one
            | some browser => browserMetadata osascript browser
            | none => (frontWindowTitle osascript).map (fun title => (title, none))
          metadata.map (fun r =>
            { appName := appName
              bundleId := app.bundleIdentifier
              windowTitle := r.1
              url := r.2
              observedAtMs := nowMs })

end Source

/-! ## What the context source reports -/

section Reports

variable [UnicodeTables] {osascript : Str → OsascriptOutput} {frontmost : Option ForegroundApp}
  {nowMs : ℕ} {context : CaptureContext}

/-- A listed bundle identifier names the browser whatever the app is called. -/
theorem browserKind_of_bundle {bundleId : Option Str} {browser : Browser}
    (h : browserOfBundle bundleId = some browser) (appName : Str) :
    browserKind appName bundleId = some browser := by
  rw [browserKind, h, Option.some_or]

omit [UnicodeTables] in
theorem browserMetadata_url {browser : Browser} {metadata : Str × Option Str}
    (h : browserMetadata osascript browser = .ok metadata) :
    browser ≠ .unsupported ∧ metadata.2.isSome = true := by
  rw [browserMetadata] at h
  split at h
  · cases h
  · next script hscript =>
    refine ⟨?_, ?_⟩
    · rintro rfl
      cases hscript
    · split at h
      · cases h
      · split at h
        · cases h
        · split at h
          · cases h
          · cases h
            rfl

/-- A context has the URL of a page exactly when its app is a supported browser. -/
theorem url_of_currentContext (h : currentContext osascript frontmost nowMs = .ok context) :
    match browserKind context.appName context.bundleId with
    | some browser => browser ≠ .unsupported ∧ context.url.isSome = true
    | none => context.url = none := by
  unfold currentContext at h
  split at h
  · cases h
  · next app =>
    split at h
    · cases h
    · next appName hname =>
      dsimp only at h
      split at h
      · next browser hkind =>
        cases hmetadata : browserMetadata osascript browser with
        | error error => rw [hmetadata] at h; cases h
        | ok metadata =>
            rw [hmetadata] at h
            cases h
            dsimp only
            rw [hkind]
            exact browserMetadata_url hmetadata
      · next hkind =>
        cases htitle : frontWindowTitle osascript with
        | error error => rw [htitle] at h; cases h
        | ok title =>
            rw [htitle] at h
            cases h
            dsimp only
            rw [hkind]

/-- The source reports an app that is no browser without a URL, so its frame is captured. -/
theorem classify_unrecognised (h : currentContext osascript frontmost nowMs = .ok context)
    (hkind : browserKind context.appName context.bundleId = none) :
    classifyCaptureSurfacePolicy context.appName context.windowTitle context.url = .normal := by
  have hurl := url_of_currentContext h
  rw [hkind] at hurl
  rw [hurl]
  unfold classifyCaptureSurfacePolicy
  split
  · rfl
  · rfl

end Reports

/-! ## Two classifiers -/

/-- A page that the policy captures in any browser. -/
def PlainPage (windowTitle : Str) (url : Option Str) : Prop :=
  ∀ page, url = some page →
    isGenericBrowserChromeTitle (toAsciiLowercase windowTitle) = false ∧
      isNavigationSurface (UrlSurface.fromUrl page) = false ∧
      isListingSurface (UrlSurface.fromUrl page) (toAsciiLowercase windowTitle) = false

theorem classify_of_not_browser {appName : Str} (h : isBrowserApp appName = false)
    (windowTitle : Str) (url : Option Str) :
    classifyCaptureSurfacePolicy appName windowTitle url = .normal := by
  unfold classifyCaptureSurfacePolicy
  rw [h]
  rfl

theorem classify_eq_normal_iff {appName : Str} (h : isBrowserApp appName = true)
    (windowTitle : Str) (url : Option Str) :
    classifyCaptureSurfacePolicy appName windowTitle url = .normal ↔ PlainPage windowTitle url := by
  unfold classifyCaptureSurfacePolicy PlainPage
  rw [h]
  cases url with
  | none => simp
  | some page =>
      simp only [Bool.not_true, Bool.false_eq_true, if_false, Option.some.injEq, forall_eq']
      cases isGenericBrowserChromeTitle (toAsciiLowercase windowTitle) <;>
        cases isNavigationSurface (UrlSurface.fromUrl page) <;>
        cases isListingSurface (UrlSurface.fromUrl page) (toAsciiLowercase windowTitle) <;>
        simp

/-- Names that are both browsers, or both not, have the same policy. -/
theorem classify_congr {name name' : Str} (h : isBrowserApp name = isBrowserApp name')
    (windowTitle : Str) (url : Option Str) :
    classifyCaptureSurfacePolicy name windowTitle url
      = classifyCaptureSurfacePolicy name' windowTitle url := by
  unfold classifyCaptureSurfacePolicy
  rw [h]

theorem classify_eq_iff (name name' windowTitle : Str) (url : Option Str) :
    classifyCaptureSurfacePolicy name windowTitle url
        = classifyCaptureSurfacePolicy name' windowTitle url ↔
      isBrowserApp name = isBrowserApp name' ∨ PlainPage windowTitle url := by
  by_cases hsame : isBrowserApp name = isBrowserApp name'
  · exact iff_of_true (classify_congr hsame windowTitle url) (Or.inl hsame)
  · rw [or_iff_right hsame]
    cases hname : isBrowserApp name with
    | true =>
        have hname' : isBrowserApp name' = false := by
          rw [hname] at hsame
          exact Bool.eq_false_iff.2 (Ne.symm hsame)
        rw [classify_of_not_browser hname', classify_eq_normal_iff hname]
    | false =>
        have hname' : isBrowserApp name' = true := by
          rw [hname] at hsame
          exact Bool.ne_false_iff.1 (Ne.symm hsame)
        rw [classify_of_not_browser hname, eq_comm, classify_eq_normal_iff hname']

section Agreement

variable [UnicodeTables]

/-- The name and the bundle identifier of a browser that can be asked for its tab. -/
def IsSupported (appName : Str) (bundleId : Option Str) : Prop :=
  ∃ browser, browserKind appName bundleId = some browser ∧ browser ≠ .unsupported

/-- Two names of one bundle are admitted alike, and an app that is no browser is captured. -/
structure AdmissionIgnoresName (bundleId : Option Str) (name name' windowTitle : Str)
    (url : Option Str) : Prop where
  supported : IsSupported name bundleId → IsSupported name' bundleId →
    classifyCaptureSurfacePolicy name windowTitle url
      = classifyCaptureSurfacePolicy name' windowTitle url
  unrecognised : browserKind name bundleId = none →
    classifyCaptureSurfacePolicy name windowTitle url = .normal

/-- **The name does not matter exactly when the page is captured in any browser, or the substrings
    of the names tell what the browser kinds tell.** -/
theorem admissionIgnoresName_iff (bundleId : Option Str) (name name' windowTitle : Str)
    (url : Option Str) :
    AdmissionIgnoresName bundleId name name' windowTitle url ↔
      PlainPage windowTitle url ∨
        (IsSupported name bundleId → IsSupported name' bundleId →
          isBrowserApp name = isBrowserApp name') ∧
        (browserKind name bundleId = none → isBrowserApp name = false) := by
  by_cases hplain : PlainPage windowTitle url
  · refine iff_of_true ⟨fun _ _ => ?_, fun _ => ?_⟩ (Or.inl hplain)
    · exact (classify_eq_iff name name' windowTitle url).2 (Or.inr hplain)
    · cases hname : isBrowserApp name with
      | true => exact (classify_eq_normal_iff hname windowTitle url).2 hplain
      | false => exact classify_of_not_browser hname windowTitle url
  · rw [or_iff_right hplain]
    constructor
    · rintro ⟨hsupported, hnone⟩
      refine ⟨fun h h' => ?_, fun h => ?_⟩
      · exact ((classify_eq_iff name name' windowTitle url).1
          (hsupported h h')).resolve_right hplain
      · by_contra hname
        rw [Bool.not_eq_false] at hname
        exact hplain ((classify_eq_normal_iff hname windowTitle url).1 (hnone h))
    · rintro ⟨hsupported, hnone⟩
      exact ⟨fun h h' => classify_congr (hsupported h h') windowTitle url,
        fun h => classify_of_not_browser (hnone h) windowTitle url⟩

/-- A token of an ASCII name that names a browser is a substring that does. -/
theorem isBrowserApp_of_browserOfName [LawfulUnicode] {appName : Str} {browser : Browser}
    (hascii : ∀ c ∈ appName, c.toNat < 128) (h : browserOfName appName = some browser) :
    isBrowserApp appName = true := by
  rw [browserOfName, List.findSome?_eq_some_iff] at h
  obtain ⟨before, token, after, htokens, hfound, -⟩ := h
  have htoken :
      token ∈ (split (fun c => !isAlphanumeric c) (toLowercase appName)).filter (· ≠ []) := by
    rw [htokens]
    exact List.mem_append_right _ List.mem_cons_self
  have hinfix := infix_of_mem_split _ _ token (List.mem_filter.1 htoken).1
  rw [toLowercase_ascii hascii] at hinfix
  obtain ⟨entry, hentry, -⟩ := Option.map_eq_some_iff.1 hfound
  have hbeq := List.find?_some hentry
  have hname : entry.1 = token := eq_of_beq hbeq
  have hneedles : ∀ entry ∈ BROWSER_NAME_TOKENS, entry.1 ∈
      ["chrome", "safari", "firefox", "arc", "edge", "brave", "opera"].map String.toList := by
    decide
  refine List.any_eq_true.2 ⟨token, ?_, decide_eq_true hinfix⟩
  exact hname ▸ hneedles entry (List.mem_of_find?_eq_some hentry)

/-- Without a listed bundle identifier ASCII names of browsers are admitted alike. -/
theorem classify_eq_of_unlisted [LawfulUnicode] {bundleId : Option Str} {name name' : Str}
    (hbundle : browserOfBundle bundleId = none) (hascii : ∀ c ∈ name, c.toNat < 128)
    (hascii' : ∀ c ∈ name', c.toNat < 128) (h : IsSupported name bundleId)
    (h' : IsSupported name' bundleId) (windowTitle : Str) (url : Option Str) :
    classifyCaptureSurfacePolicy name windowTitle url
      = classifyCaptureSurfacePolicy name' windowTitle url := by
  obtain ⟨browser, hkind, -⟩ := h
  obtain ⟨browser', hkind', -⟩ := h'
  rw [browserKind, hbundle, Option.none_or] at hkind hkind'
  refine classify_congr ?_ windowTitle url
  rw [isBrowserApp_of_browserOfName hascii hkind, isBrowserApp_of_browserOfName hascii' hkind']

end Agreement

section Tests

attribute [local instance] asciiTables

/-- Chrome under a localized name: its bundle identifier is known, its name is not. -/
theorem admission_of_localized_chrome :
    ¬ ∀ (bundleId : Option Str) (name name' windowTitle : Str) (url : Option Str),
      AdmissionIgnoresName bundleId name name' windowTitle url := by
  intro h
  have hsame := (h (some "com.google.Chrome".toList) "Google Chrome".toList "Navegador".toList
    "fndr - Google Search".toList (some "https://www.google.com/search?q=fndr".toList)).supported
    ⟨.chrome, by decide +kernel, by decide⟩ ⟨.chrome, by decide +kernel, by decide⟩
  revert hsame
  decide +kernel

end Tests

end Fndr

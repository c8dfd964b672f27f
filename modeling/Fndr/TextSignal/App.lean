import Fndr.Library.Words

set_option autoImplicit false

/-! # App identity

`app.rs`: the class of the foreground app for the cleanup policy. A listed bundle identifier decides
it; without one the whole tokens of the name do. -/

namespace Fndr

open RustStd

/-- The classes that the cleanup tells apart. -/
inductive AppClass
  | browser
  | code
  | mail
  | other
  deriving DecidableEq

/-- Bundle identifiers matched in full. -/
def BUNDLE_EXACT : List (Str × AppClass) :=
  [("com.apple.safari", AppClass.browser), ("com.apple.safaritechnologypreview", .browser),
    ("org.chromium.chromium", .browser), ("company.thebrowser.browser", .browser),
    ("org.mozilla.firefox", .browser), ("org.mozilla.firefoxdeveloperedition", .browser),
    ("org.mozilla.nightly", .browser), ("com.vivaldi.vivaldi", .browser),
    ("com.apple.terminal", .code), ("com.googlecode.iterm2", .code), ("com.apple.dt.xcode", .code),
    ("com.microsoft.vscode", .code), ("com.microsoft.vscodeinsiders", .code),
    ("com.visualstudio.code.oss", .code), ("com.todesktop.230313mzl4w4u92", .code),
    ("com.google.antigravity", .code), ("dev.zed.zed", .code), ("com.apple.mail", .mail),
    ("com.microsoft.outlook", .mail), ("org.mozilla.thunderbird", .mail),
    ("com.readdle.smartemail-mac", .mail)].map (fun entry => (entry.1.toList, entry.2))

/-- Prefixes of bundle identifiers, for families with a channel or version behind. -/
def BUNDLE_PREFIX : List (Str × AppClass) :=
  [("com.google.chrome", AppClass.browser), ("com.brave.browser", .browser),
    ("com.microsoft.edgemac", .browser), ("com.operasoftware.opera", .browser),
    ("com.jetbrains.", .code), ("com.sublimetext.", .code)].map
    (fun entry => (entry.1.toList, entry.2))

/-- The class of a bundle id: exact entries first, then prefixes. -/
def classFromBundleId (bundleId : Str) : Option AppClass :=
  let bundle := toAsciiLowercase (trim bundleId)
  if bundle = [] then none
  else
    match BUNDLE_EXACT.find? (fun entry => entry.1 == bundle) with
    | some entry => some entry.2
    | none => (BUNDLE_PREFIX.find? (fun entry => startsWith bundle entry.1)).map Prod.snd

/-- Tokens of a name, for a bundle identifier that is missing or unknown. -/
def NAME_TOKENS : List (Str × AppClass) :=
  [("chrome", AppClass.browser), ("chromium", .browser), ("safari", .browser), ("arc", .browser),
    ("firefox", .browser), ("edge", .browser), ("brave", .browser), ("opera", .browser),
    ("vivaldi", .browser), ("terminal", .code), ("iterm", .code), ("iterm2", .code),
    ("xcode", .code), ("vscode", .code), ("code", .code), ("cursor", .code), ("zed", .code),
    ("sublime", .code), ("intellij", .code), ("pycharm", .code), ("webstorm", .code),
    ("goland", .code), ("alacritty", .code), ("wezterm", .code), ("ghostty", .code),
    ("warp", .code), ("mail", .mail), ("gmail", .mail), ("outlook", .mail), ("superhuman", .mail),
    ("thunderbird", .mail), ("airmail", .mail)].map (fun entry => (entry.1.toList, entry.2))

/-- Precedence when a name has tokens of more than one class. -/
def CLASS_PRECEDENCE : List AppClass := [.browser, .code, .mail]

/-- The alphanumeric tokens of a name in lower case. -/
def nameTokens [UnicodeTables] (appName : Str) : List Str :=
  (split (fun c => !isAlphanumeric c) (toLowercase appName)).filter (· ≠ [])

/-- The first class, in order of precedence, that one of the name's tokens belongs to. -/
def classFromName [UnicodeTables] (appName : Str) : AppClass :=
  let matched (c : AppClass) : Bool := (nameTokens appName).any (fun token =>
    NAME_TOKENS.any (fun entry => entry.1 == token && entry.2 == c))
  (CLASS_PRECEDENCE.find? matched).getD .other

/-- The foreground app as the cleanup policy sees it. -/
structure AppIdentity where
  name : Str
  appClass : AppClass

namespace AppIdentity

/-- The bundle id decides where it is known, else the name. -/
def new [UnicodeTables] (name : Str) (bundleId : Option Str) : AppIdentity where
  name := name
  appClass := (bundleId.bind classFromBundleId).getD (classFromName name)

/-- The identity of an app without a bundle id. -/
def fromName [UnicodeTables] (name : Str) : AppIdentity := new name none

/-- Whether the app is classed as a browser. -/
def isBrowser (app : AppIdentity) : Bool := app.appClass == .browser

/-- Whether the app is classed as an editor. -/
def isCode (app : AppIdentity) : Bool := app.appClass == .code

/-- Whether the app is classed as a mail client. -/
def isMail (app : AppIdentity) : Bool := app.appClass == .mail

/-- A listed bundle identifier decides the class whatever the name is. -/
theorem appClass_new [UnicodeTables] {bundleId : Str} {c : AppClass}
    (h : classFromBundleId bundleId = some c) (name : Str) :
    (new name (some bundleId)).appClass = c := by
  rw [new, Option.bind_some, h, Option.getD_some]

end AppIdentity

section Tests

attribute [local instance] asciiTables

example :
    (AppIdentity.new "Navegador".toList (some "com.google.Chrome".toList)).isBrowser = true := by
  decide +kernel

example : (AppIdentity.fromName "Knowledge Base".toList).appClass = .other := by decide +kernel

end Tests

end Fndr

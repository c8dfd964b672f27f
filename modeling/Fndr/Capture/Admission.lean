import Fndr.Library.Strings

set_option autoImplicit false

/-! # Capture admission

`admission.rs`: how the pipeline handles a browser surface, from metadata alone. -/

namespace Fndr

open RustStd

/-- What a page is captured as. -/
inductive CaptureSurfacePolicy
  /-- Capture and process the frame normally. -/
  | normal
  /-- Keep only URL metadata; no pixels, no OCR. -/
  | urlOnly
  /-- Drop the tick before capture. -/
  | skipFrame
  deriving DecidableEq

/-- The name holds that of a browser somewhere. -/
def isBrowserApp (appName : Str) : Bool :=
  let app := toAsciiLowercase appName
  (["chrome", "safari", "firefox", "arc", "edge", "brave", "opera"].map String.toList).any
    (contains app ·)

/-- The title of a page that shows nothing yet. -/
def isGenericBrowserChromeTitle (title : Str) : Bool :=
  (["new tab", "start page", "speed dial", "blank page"].map String.toList).any (contains title ·)

/-- The parts of a URL that the policy looks at. -/
structure UrlSurface where
  domain : Str
  path : Str
  pathSegments : List Str
  queryKeys : List Str

/-- What stands before the first slash behind the scheme. -/
def extractDomain (url : Str) : Str :=
  let withoutScheme := (splitSecond "://".toList url).getD url
  toAsciiLowercase (trim (((split (· == '/') withoutScheme).head?).getD []))

/-- Cut a URL at its marks, in lower case. -/
def UrlSurface.fromUrl (url : Str) : UrlSurface :=
  let lowerUrl := toAsciiLowercase url
  -- what stands behind the first mark, up to the fragment
  let withoutScheme :=
    ((split (· == '#') ((splitSecond "://".toList lowerUrl).getD lowerUrl)).head?).getD []
  let pathAndQuery :=
    ((splitOnce "/".toList withoutScheme).map (fun r => '/' :: r.2)).getD "/".toList
  let parts := (splitOnce "?".toList pathAndQuery).getD (pathAndQuery, [])
  let path := if parts.1 = [] then "/".toList else parts.1
  { domain := extractDomain url
    path := path
    pathSegments := (split (· == '/') path).filter (· ≠ [])
    queryKeys := (split (· == '&') parts.2).filterMap (fun entry =>
      (splitOnce "=".toList entry).map Prod.fst) }

/-- One of the segments of the path is a candidate. -/
def containsPathSegment (surface : UrlSurface) (candidates : List String) : Bool :=
  surface.pathSegments.any (fun segment => candidates.any (fun candidate =>
    segment == candidate.toList))

/-- One of the keys of the query asks for a search. -/
def containsSearchQueryKey (surface : UrlSurface) : Bool :=
  surface.queryKeys.any (fun key =>
    ["q", "query", "search", "search_query", "text", "term"].any (fun name => key == name.toList))

/-- A page of search results, or one that leads to others. -/
def isNavigationSurface (surface : UrlSurface) : Bool :=
  (containsSearchQueryKey surface &&
    (containsPathSegment surface ["search", "results"] ||
      contains surface.path "/search".toList || contains surface.path "/results".toList)) ||
  containsPathSegment surface ["feed", "explore", "discover", "home", "trending", "hashtag"]

/-- A page that lists what others say. -/
def isListingSurface (surface : UrlSurface) (title : Str) : Bool :=
  let primarySegment := surface.pathSegments.head?.getD []
  contains title "search results".toList || contains title "videos -".toList ||
  (startsWith primarySegment "@".toList ||
    ["u", "user", "users", "profile", "profiles", "channel", "channels", "topic", "topics", "tag",
      "tags"].any (fun name => primarySegment == name.toList)) ||
  (endsWith surface.domain "youtube.com".toList && primarySegment == "c".toList) ||
  (containsPathSegment surface
      ["videos", "posts", "reels", "playlist", "playlists", "top", "best", "latest"] &&
    decide (surface.pathSegments.length ≤ 3))

/-- Classify a browser surface before it reaches the capture source. -/
def classifyCaptureSurfacePolicy (appName windowTitle : Str) (url : Option Str) :
    CaptureSurfacePolicy :=
  if !isBrowserApp appName then .normal
  else
    match url with
    -- a browser window without a URL is captured like any other
    | none => .normal
    | some url =>
        let title := toAsciiLowercase windowTitle
        if isGenericBrowserChromeTitle title then .skipFrame
        else
          let surface := UrlSurface.fromUrl url
          if isNavigationSurface surface then .skipFrame
          else if isListingSurface surface title then .urlOnly
          else .normal

end Fndr

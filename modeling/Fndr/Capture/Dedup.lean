import Mathlib.Algebra.Order.Ring.Int
import Mathlib.Data.Int.Basic
import Fndr.Library.Strings

set_option autoImplicit false

/-! # The dedupers of the capture pipeline

`dedup.rs`. The perceptual hash is the `img_hash` crate's and the semantic signature the standard
library's default hasher, which promises no particular function; both are parameters. Timestamps are
`u64`, whose saturating subtraction is that of `ℕ`.

Both dedupers record what they are shown in the same call that answers for it, so what has been
shown once is a duplicate when it is shown again (`shouldSkip_again`). -/

namespace Fndr

open RustStd

/-- The `img_hash` crate: `ImageHash::dist`. -/
class ImageHash (H : Type) where
  dist : H → H → ℕ

/-- Hashes of any length, compared bit by bit. -/
@[reducible] def bitHash : ImageHash (List Bool) where
  dist := fun left right => (left.zip right).countP (fun bits => bits.1 != bits.2)

theorem bitHash_dist_self (h : List Bool) : bitHash.dist h h = 0 := by
  show (h.zip h).countP (fun bits => bits.1 != bits.2) = 0
  induction h with
  | nil => rfl
  | cons bit bits ih => simpa using ih

/-- `DefaultHasher` fed the app name, the window title and the cleaned text. -/
class DefaultHasher where
  semanticSignature : Str → Str → Str → UInt64

export DefaultHasher (semanticSignature)

/-- A hasher that counts characters. -/
@[reducible] def lengthHasher : DefaultHasher where
  semanticSignature := fun appName windowTitle text =>
    UInt64.ofNat (appName ++ windowTitle ++ text).length

/-- The frames that the deduper remembers. -/
def HASH_HISTORY : ℕ := 3

/-- The colour distance of two frames next to each other that counts as none. -/
def MAX_RGB_DISTANCE : ℕ := 24

/-- The same for a frame and the earlier ones. -/
def LOOP_MAX_RGB_DISTANCE : ℕ := 20

/-- An average colour. -/
structure Rgb where
  red : UInt8
  green : UInt8
  blue : UInt8
  deriving DecidableEq

/-- A dHash plus a coarse colour guard. -/
structure PerceptualSignature (H : Type) where
  hash : H
  averageRgb : Rgb

/-- The difference of two values of a channel. -/
def channelDistance (left right : UInt8) : ℕ := ((left.toNat : ℤ) - (right.toNat : ℤ)).natAbs

/-- The sum over the channels. -/
def rgbDistance (left right : Rgb) : ℕ :=
  channelDistance left.red right.red + channelDistance left.green right.green
    + channelDistance left.blue right.blue

variable {H : Type}

/-- How far the average colours are apart. -/
def PerceptualSignature.colourDistanceTo (signature other : PerceptualSignature H) : ℕ :=
  rgbDistance signature.averageRgb other.averageRgb

/-- Stateful perceptual deduplication, including A-B-A loop detection. -/
structure PerceptualDeduper (H : Type) where
  threshold : ℕ
  last : Option (PerceptualSignature H)
  recent : List (PerceptualSignature H)

/-- A deduper that has seen nothing. -/
def PerceptualDeduper.new (threshold : ℕ) : PerceptualDeduper H := ⟨threshold, none, []⟩

/-- `PerceptualDeduper::default`. -/
def PerceptualDeduper.default : PerceptualDeduper H := .new 5

section Perceptual

variable [ImageHash H]

/-- How far the hashes are apart. -/
def PerceptualSignature.distanceTo (signature other : PerceptualSignature H) : ℕ :=
  ImageHash.dist signature.hash other.hash

/-- The answer of `should_skip`. -/
def PerceptualDeduper.isDuplicate (deduper : PerceptualDeduper H)
    (signature : PerceptualSignature H) : Bool :=
  deduper.last.any (fun last =>
      decide (signature.distanceTo last < deduper.threshold) &&
        decide (signature.colourDistanceTo last ≤ MAX_RGB_DISTANCE)) ||
    deduper.recent.any (fun previous =>
      decide (signature.distanceTo previous < max (deduper.threshold - 1) 1) &&
        decide (signature.colourDistanceTo previous ≤ LOOP_MAX_RGB_DISTANCE))

/-- Observe one capture and return whether it is perceptually redundant. -/
def PerceptualDeduper.shouldSkip (deduper : PerceptualDeduper H)
    (signature : PerceptualSignature H) : Bool × PerceptualDeduper H :=
  let recent := deduper.recent ++ [signature]
  (deduper.isDuplicate signature,
    { deduper with
      last := some signature
      recent := if recent.length > HASH_HISTORY then recent.drop 1 else recent })

omit [ImageHash H] in
theorem PerceptualSignature.colourDistanceTo_self (signature : PerceptualSignature H) :
    signature.colourDistanceTo signature = 0 := by
  simp [PerceptualSignature.colourDistanceTo, rgbDistance, channelDistance]

/-- **What was shown is a duplicate when it is shown again.** -/
theorem PerceptualDeduper.shouldSkip_again (hdist : ∀ h : H, ImageHash.dist h h = 0)
    (deduper : PerceptualDeduper H) (hthreshold : 0 < deduper.threshold)
    (signature : PerceptualSignature H) :
    ((deduper.shouldSkip signature).2.shouldSkip signature).1 = true := by
  simp [PerceptualDeduper.shouldSkip, PerceptualDeduper.isDuplicate,
    PerceptualSignature.distanceTo, hdist, hthreshold, signature.colourDistanceTo_self]

end Perceptual

/-! ## The semantic window -/

/-- The in-memory time window that suppresses repeated content bursts. -/
structure SemanticDedupWindow where
  seenAtMs : UInt64 → Option ℕ

/-- `SemanticDedupWindow::default`. -/
def SemanticDedupWindow.default : SemanticDedupWindow := ⟨fun _ => none⟩

/-- Whether this signature was seen within `windowMs`; the entries out of the window are dropped and
    the signature's is set to now. -/
def SemanticDedupWindow.shouldSkip (window : SemanticDedupWindow) (signature : UInt64)
    (nowMs windowMs : ℕ) : Bool × SemanticDedupWindow :=
  let retained := fun s => (window.seenAtMs s).filter (fun seenAt => nowMs - seenAt ≤ windowMs)
  ((retained signature).any (fun lastSeen => nowMs - lastSeen ≤ windowMs),
    ⟨fun s => if s = signature then some nowMs else retained s⟩)

/-- **A signature seen once is a duplicate within the window.** -/
theorem SemanticDedupWindow.shouldSkip_again (window : SemanticDedupWindow) (signature : UInt64)
    {firstMs againMs windowMs : ℕ} (h : againMs - firstMs ≤ windowMs) :
    ((window.shouldSkip signature firstMs windowMs).2.shouldSkip signature againMs windowMs).1
      = true := by
  have h' : againMs ≤ windowMs + firstMs := Nat.sub_le_iff_le_add.1 h
  simp [SemanticDedupWindow.shouldSkip, h']

end Fndr

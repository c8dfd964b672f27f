import Fndr.Capture.Dedup
import Fndr.Library.Usize

set_option autoImplicit false

/-! # Sampling a native frame

`PerceptualSignature::from_native_rgba` with every sum, product, index and slice checked: nothing is
an overflow or a panic. The hash of the `img_hash` crate is a parameter.

Only `width * height * 4` is checked by the code. A frame of at least 9 by 8 pixels makes this
product larger than every other one, so the rest never overflows, and a coordinate scaled down stays
in the frame (`sourceCoordinate_eq`, `copyPixel_eq`); the two loops add up to the whole sample
(`nativeSample_eq`). -/

namespace Fndr

open RustStd

/-- The columns of a sample, one more than the bits that a row gives. -/
def SAMPLE_WIDTH : ℕ := 9

/-- The rows of a sample. -/
def SAMPLE_HEIGHT : ℕ := 8

/-- The bytes of a pixel. -/
def SAMPLE_PIXEL_BYTES : ℕ := 4

/-- The `img_hash` crate: the hash of 8 by 8 bits of an RGBA image of 9 by 8 pixels. -/
class ImageHasher (H : Type) where
  hashImage : List UInt8 → H

/-- `as_chunks::<4>().0`, without the alpha channel. -/
def pixelsOf : List UInt8 → List Rgb
  | red :: green :: blue :: _ :: rest => ⟨red, green, blue⟩ :: pixelsOf rest
  | _ => []

/-- The sum of one channel, which `None` says does not fit a `usize`. -/
def sumChannel (channel : Rgb → UInt8) (pixels : List Rgb) : Option ℕ :=
  pixels.foldlM (fun sum pixel => checkedAdd sum (channel pixel).toNat) 0

/-- The mean of every channel, or `None` for a buffer without a whole pixel. -/
def averageRgb (rgba : List UInt8) : Option Rgb := do
  let pixels := pixelsOf rgba
  let red ← sumChannel Rgb.red pixels
  let green ← sumChannel Rgb.green pixels
  let blue ← sumChannel Rgb.blue pixels
  let pixelCount := rgba.length / SAMPLE_PIXEL_BYTES
  if pixelCount = 0 then none
  else
    return ⟨UInt8.ofNat (red / pixelCount), UInt8.ofNat (green / pixelCount),
      UInt8.ofNat (blue / pixelCount)⟩

/-- A signature of a 9 by 8 RGBA raster. `RgbaImage::from_raw` wants a buffer that is large
enough. -/
def fromDownscaledRgba {H : Type} [ImageHasher H] (rgba : List UInt8) :
    Option (PerceptualSignature H) := do
  let averageRgb ← averageRgb rgba
  if rgba.length < SAMPLE_WIDTH * SAMPLE_HEIGHT * SAMPLE_PIXEL_BYTES then none
  else return ⟨ImageHasher.hashImage rgba, averageRgb⟩

/-- The sample, and the rows and columns of the pixels it was taken from. -/
structure NativeSample where
  bytes : List UInt8
  pixels : List (ℕ × ℕ)

/-- The sample before its first pixel is written. -/
def NativeSample.blank : NativeSample where
  bytes := List.replicate (SAMPLE_WIDTH * SAMPLE_HEIGHT * SAMPLE_PIXEL_BYTES) 0
  pixels := []

/-- `i * (size - 1) / (samples - 1)`. -/
def sourceCoordinate (i size samples : ℕ) : Option ℕ := do
  let last ← checkedSub size 1
  let scaled ← checkedMul i last
  return scaled / (samples - 1)

/-- The inner loop: one pixel of the sample. -/
def copyPixel (width : ℕ) (rgba : List UInt8) (sampleY sourceY : ℕ) (sample : NativeSample)
    (sampleX : ℕ) : Option NativeSample := do
  let sourceX ← sourceCoordinate sampleX width SAMPLE_WIDTH
  let sourceOffset ← checkedMul (← checkedAdd (← checkedMul sourceY width) sourceX)
    SAMPLE_PIXEL_BYTES
  let sampleOffset ← checkedMul (← checkedAdd (← checkedMul sampleY SAMPLE_WIDTH) sampleX)
    SAMPLE_PIXEL_BYTES
  let source ← checkedSlice rgba sourceOffset (← checkedAdd sourceOffset SAMPLE_PIXEL_BYTES)
  let bytes ← checkedCopy sample.bytes sampleOffset (← checkedAdd sampleOffset SAMPLE_PIXEL_BYTES)
    source
  return ⟨bytes, sample.pixels ++ [(sourceY, sourceX)]⟩

/-- The outer loop: one row of the sample. -/
def copyRow (width height : ℕ) (rgba : List UInt8) (sample : NativeSample) (sampleY : ℕ) :
    Option NativeSample := do
  let sourceY ← sourceCoordinate sampleY height SAMPLE_HEIGHT
  (List.range SAMPLE_WIDTH).foldlM (copyPixel width rgba sampleY sourceY) sample

/-- Row by row, the pixels that the hash is taken of. -/
def nativeSample (width height : ℕ) (rgba : List UInt8) : Option NativeSample :=
  (List.range SAMPLE_HEIGHT).foldlM (copyRow width height rgba) .blank

/-- Sample a native RGBA frame. The inner option is the one the code returns. -/
def fromNativeRgba {H : Type} [ImageHasher H] (width height : ℕ) (rgba : List UInt8) :
    Option (Option (PerceptualSignature H)) :=
  match (checkedMul width height).bind (checkedMul · SAMPLE_PIXEL_BYTES) with
  | none => some none
  | some sourceLen =>
      if width < SAMPLE_WIDTH ∨ height < SAMPLE_HEIGHT ∨ rgba.length < sourceLen then some none
      else do
        let sample ← nativeSample width height rgba
        let signature ← fromDownscaledRgba sample.bytes
        return some signature

/-! ## Where a sample is taken -/

/-- The row or column a sample is taken from. -/
def scaled (i size samples : ℕ) : ℕ := i * (size - 1) / (samples - 1)

theorem scaled_zero (size samples : ℕ) : scaled 0 size samples = 0 := by simp [scaled]

theorem scaled_last {samples : ℕ} (h : 1 < samples) (size : ℕ) :
    scaled (samples - 1) size samples = size - 1 :=
  Nat.mul_div_cancel_left _ (Nat.sub_pos_of_lt h)

theorem scaled_mono (size samples : ℕ) {i j : ℕ} (h : i ≤ j) :
    scaled i size samples ≤ scaled j size samples :=
  Nat.div_le_div_right (Nat.mul_le_mul_right _ h)

theorem scaled_lt {i size samples : ℕ} (hi : i < samples) (hsamples : 1 < samples)
    (hsize : 0 < size) : scaled i size samples < size := by
  have hle := scaled_mono size samples (Nat.le_sub_one_of_lt hi)
  rw [scaled_last hsamples] at hle
  omega

/-- The rows or columns of a frame that a sample is taken from. -/
def coordinates (size samples : ℕ) : List ℕ := (List.range samples).map (scaled · size samples)

theorem coordinates_sorted (size samples : ℕ) :
    (coordinates size samples).Pairwise (· ≤ ·) := by
  rw [coordinates, List.pairwise_map]
  exact List.pairwise_le_range.imp (scaled_mono size samples)

theorem first_mem_coordinates {samples : ℕ} (h : 0 < samples) (size : ℕ) :
    0 ∈ coordinates size samples :=
  List.mem_map.2 ⟨0, List.mem_range.2 h, scaled_zero size samples⟩

theorem last_mem_coordinates {samples : ℕ} (h : 1 < samples) (size : ℕ) :
    size - 1 ∈ coordinates size samples :=
  List.mem_map.2 ⟨samples - 1, List.mem_range.2 (by omega), scaled_last h size⟩

/-- A coordinate is computed without overflow as long as its product is in bounds. -/
theorem sourceCoordinate_eq {i size samples : ℕ} (hsize : 0 < size)
    (hfits : i * size < USIZE_BOUND) :
    sourceCoordinate i size samples = some (scaled i size samples) := by
  have hscaled : i * (size - 1) < USIZE_BOUND :=
    (Nat.mul_le_mul_left i (Nat.sub_le size 1)).trans_lt hfits
  simp [sourceCoordinate, scaled, checkedSub_of_le (show 1 ≤ size from hsize),
    checkedMul_of_lt hscaled]

/-! ## The loops -/

/-- The frame is as large as the code asks for. -/
structure LargeEnough (width height : ℕ) (rgba : List UInt8) : Prop where
  wide : SAMPLE_WIDTH ≤ width
  tall : SAMPLE_HEIGHT ≤ height
  fits : width * height * SAMPLE_PIXEL_BYTES < USIZE_BOUND
  filled : width * height * SAMPLE_PIXEL_BYTES ≤ rgba.length

/-- The bytes of a pixel of the frame. -/
def frameBytes (width : ℕ) (rgba : List UInt8) (pixel : ℕ × ℕ) : List UInt8 :=
  (rgba.drop ((pixel.1 * width + pixel.2) * SAMPLE_PIXEL_BYTES)).take SAMPLE_PIXEL_BYTES

/-- What the loops have made when they have copied `pixels`: these, and zeros behind them. -/
def NativeSample.upTo (width : ℕ) (rgba : List UInt8) (pixels : List (ℕ × ℕ)) : NativeSample where
  bytes := pixels.flatMap (frameBytes width rgba) ++ List.replicate
    ((SAMPLE_WIDTH * SAMPLE_HEIGHT - pixels.length) * SAMPLE_PIXEL_BYTES) 0
  pixels := pixels

section Loops

variable {width height : ℕ} {rgba : List UInt8}

/-- A pixel of the frame ends within it. -/
theorem pixel_le {row column : ℕ} (hrow : row < height) (hcolumn : column < width) :
    (row * width + column) * SAMPLE_PIXEL_BYTES + SAMPLE_PIXEL_BYTES ≤
      width * height * SAMPLE_PIXEL_BYTES := by
  have hrows : (row + 1) * width ≤ height * width := Nat.mul_le_mul_right width hrow
  rw [Nat.succ_mul] at hrows
  rw [← Nat.succ_mul, Nat.mul_comm width height]
  exact Nat.mul_le_mul_right _ (by omega)

theorem LargeEnough.frameBytes_length (h : LargeEnough width height rgba) {pixel : ℕ × ℕ}
    (hrow : pixel.1 < height) (hcolumn : pixel.2 < width) :
    (frameBytes width rgba pixel).length = SAMPLE_PIXEL_BYTES := by
  have hend := (pixel_le hrow hcolumn).trans h.filled
  rw [frameBytes, List.length_take, List.length_drop]
  omega

/-- The pixels lie inside a frame. -/
def Inside (width height : ℕ) (pixels : List (ℕ × ℕ)) : Prop :=
  ∀ pixel ∈ pixels, pixel.1 < height ∧ pixel.2 < width

theorem LargeEnough.bytes_length (h : LargeEnough width height rgba) {pixels : List (ℕ × ℕ)}
    (hinside : Inside width height pixels) :
    (pixels.flatMap (frameBytes width rgba)).length = pixels.length * SAMPLE_PIXEL_BYTES := by
  induction pixels with
  | nil => simp
  | cons pixel pixels ih =>
    obtain ⟨hpixel, hrest⟩ := List.forall_mem_cons.1 hinside
    rw [List.flatMap_cons, List.length_append, ih hrest,
      h.frameBytes_length hpixel.1 hpixel.2, List.length_cons, Nat.succ_mul, Nat.add_comm]

/-- A full sample is nothing but the bytes of its pixels. -/
theorem NativeSample.upTo_bytes_of_full {pixels : List (ℕ × ℕ)}
    (hfull : pixels.length = SAMPLE_WIDTH * SAMPLE_HEIGHT) :
    (NativeSample.upTo width rgba pixels).bytes = pixels.flatMap (frameBytes width rgba) := by
  simp [upTo, hfull]

/-- The next pixel is copied behind the earlier ones. -/
theorem LargeEnough.checkedCopy_upTo (h : LargeEnough width height rgba)
    {pixels : List (ℕ × ℕ)} (hinside : Inside width height pixels) (pixel : ℕ × ℕ)
    (hrow : pixel.1 < height) (hcolumn : pixel.2 < width)
    (hroom : pixels.length < SAMPLE_WIDTH * SAMPLE_HEIGHT) :
    checkedCopy (NativeSample.upTo width rgba pixels).bytes (pixels.length * SAMPLE_PIXEL_BYTES)
        (pixels.length * SAMPLE_PIXEL_BYTES + SAMPLE_PIXEL_BYTES) (frameBytes width rgba pixel) =
      some (NativeSample.upTo width rgba (pixels ++ [pixel])).bytes := by
  have hzeros : (SAMPLE_WIDTH * SAMPLE_HEIGHT - pixels.length) * SAMPLE_PIXEL_BYTES =
      SAMPLE_PIXEL_BYTES + (SAMPLE_WIDTH * SAMPLE_HEIGHT - (pixels.length + 1)) *
        SAMPLE_PIXEL_BYTES := by
    simp only [SAMPLE_WIDTH, SAMPLE_HEIGHT, SAMPLE_PIXEL_BYTES] at hroom ⊢
    omega
  have hpixel : (frameBytes width rgba pixel).length =
      (List.replicate SAMPLE_PIXEL_BYTES (0 : UInt8)).length := by
    rw [h.frameBytes_length hrow hcolumn, List.length_replicate]
  have hcopy := checkedCopy_append hpixel (pixels.flatMap (frameBytes width rgba))
    (List.replicate ((SAMPLE_WIDTH * SAMPLE_HEIGHT - (pixels.length + 1)) *
      SAMPLE_PIXEL_BYTES) 0)
  rw [h.bytes_length hinside, List.length_replicate] at hcopy
  simpa only [NativeSample.upTo, hzeros, List.replicate_add, List.flatMap_append,
    List.flatMap_singleton, List.length_append, List.length_singleton,
    List.append_assoc] using hcopy

/-- No product of the loops is larger than the checked one. -/
theorem LargeEnough.offset_lt (h : LargeEnough width height rgba) {row column : ℕ}
    (hrow : row < height) (hcolumn : column < width) :
    (row * width + column) * SAMPLE_PIXEL_BYTES + SAMPLE_PIXEL_BYTES < USIZE_BOUND :=
  (pixel_le hrow hcolumn).trans_lt h.fits

theorem LargeEnough.checkedSlice_eq (h : LargeEnough width height rgba) {row column : ℕ}
    (hrow : row < height) (hcolumn : column < width) :
    checkedSlice rgba ((row * width + column) * SAMPLE_PIXEL_BYTES)
        ((row * width + column) * SAMPLE_PIXEL_BYTES + SAMPLE_PIXEL_BYTES) =
      some (frameBytes width rgba (row, column)) := by
  rw [checkedSlice_of_le (Nat.le_add_right _ _) ((pixel_le hrow hcolumn).trans h.filled),
    List.drop_take, Nat.add_sub_cancel_left, frameBytes]

/-- The column of a sample is computed without overflow: there are at least as many rows. -/
theorem LargeEnough.sourceX_eq (h : LargeEnough width height rgba) {sampleX : ℕ}
    (hsample : sampleX < SAMPLE_WIDTH) :
    sourceCoordinate sampleX width SAMPLE_WIDTH = some (scaled sampleX width SAMPLE_WIDTH) := by
  have hwide := h.wide
  have hrows : sampleX * width ≤ width * height := by
    rw [Nat.mul_comm width]
    exact Nat.mul_le_mul_right _ ((Nat.le_sub_one_of_lt hsample).trans h.tall)
  have hfits := h.fits
  refine sourceCoordinate_eq (Nat.lt_of_lt_of_le (by decide) h.wide) ?_
  simp only [SAMPLE_PIXEL_BYTES] at hfits
  omega

theorem LargeEnough.sourceY_eq (h : LargeEnough width height rgba) {sampleY : ℕ}
    (hsample : sampleY < SAMPLE_HEIGHT) :
    sourceCoordinate sampleY height SAMPLE_HEIGHT =
      some (scaled sampleY height SAMPLE_HEIGHT) := by
  have hcolumns : sampleY * height ≤ width * height :=
    Nat.mul_le_mul_right _ (hsample.le.trans ((by decide : 8 ≤ SAMPLE_WIDTH).trans h.wide))
  have hfits := h.fits
  refine sourceCoordinate_eq (Nat.lt_of_lt_of_le (by decide) h.tall) ?_
  simp only [SAMPLE_PIXEL_BYTES] at hfits
  omega

/-- One step of the inner loop. -/
theorem LargeEnough.copyPixel_eq (h : LargeEnough width height rgba) {pixels : List (ℕ × ℕ)}
    (hinside : Inside width height pixels) {sampleX sampleY sourceY : ℕ}
    (hx : sampleX < SAMPLE_WIDTH) (hy : sampleY < SAMPLE_HEIGHT) (hrow : sourceY < height)
    (hcount : pixels.length = sampleY * SAMPLE_WIDTH + sampleX) :
    copyPixel width rgba sampleY sourceY (.upTo width rgba pixels) sampleX =
      some (.upTo width rgba (pixels ++ [(sourceY, scaled sampleX width SAMPLE_WIDTH)])) := by
  have hcolumn : scaled sampleX width SAMPLE_WIDTH < width :=
    scaled_lt hx (by decide) (Nat.lt_of_lt_of_le (by decide) h.wide)
  have hoffset := h.offset_lt hrow hcolumn
  have hsample : (sampleY * SAMPLE_WIDTH + sampleX) * SAMPLE_PIXEL_BYTES + SAMPLE_PIXEL_BYTES <
      USIZE_BOUND := by
    simp only [SAMPLE_WIDTH, SAMPLE_HEIGHT, SAMPLE_PIXEL_BYTES, USIZE_BOUND] at hx hy ⊢
    omega
  have hroom : pixels.length < SAMPLE_WIDTH * SAMPLE_HEIGHT := by
    simp only [SAMPLE_WIDTH, SAMPLE_HEIGHT] at hx hy hcount ⊢
    omega
  have hcopy := h.checkedCopy_upTo hinside (sourceY, scaled sampleX width SAMPLE_WIDTH)
    hrow hcolumn hroom
  rw [hcount] at hcopy
  have hsource := h.checkedSlice_eq hrow hcolumn
  simp only [SAMPLE_PIXEL_BYTES] at hoffset hsample hcopy hsource
  rw [copyPixel, h.sourceX_eq hx]
  simp only [SAMPLE_PIXEL_BYTES, Option.bind_eq_bind, Option.bind_some]
  rw [checkedMul_of_lt (by omega), Option.bind_some, checkedAdd_of_lt (by omega),
    Option.bind_some, checkedMul_of_lt (by omega), Option.bind_some, checkedMul_of_lt (by omega),
    Option.bind_some, checkedAdd_of_lt (by omega), Option.bind_some, checkedMul_of_lt (by omega),
    Option.bind_some, checkedAdd_of_lt hoffset, Option.bind_some, hsource, Option.bind_some,
    checkedAdd_of_lt hsample, Option.bind_some, hcopy, Option.bind_some]
  rfl

/-- The pixels of a row of the sample. -/
def rowPixels (width sourceY columns : ℕ) : List (ℕ × ℕ) :=
  (List.range columns).map fun sampleX => (sourceY, scaled sampleX width SAMPLE_WIDTH)

theorem LargeEnough.rowPixels_inside (h : LargeEnough width height rgba) {sourceY columns : ℕ}
    (hrow : sourceY < height) (hcolumns : columns ≤ SAMPLE_WIDTH) :
    Inside width height (rowPixels width sourceY columns) := by
  intro pixel hmem
  obtain ⟨sampleX, hx, rfl⟩ := List.mem_map.1 hmem
  have hlt := Nat.lt_of_lt_of_le (List.mem_range.1 hx) hcolumns
  exact ⟨hrow, scaled_lt hlt (by decide) (Nat.lt_of_lt_of_le (by decide) h.wide)⟩

theorem Inside.append {front back : List (ℕ × ℕ)} (hfront : Inside width height front)
    (hback : Inside width height back) : Inside width height (front ++ back) :=
  List.forall_mem_append.2 ⟨hfront, hback⟩

/-- The inner loop, by induction on the columns it has copied. -/
theorem LargeEnough.columns_eq (h : LargeEnough width height rgba) {pixels : List (ℕ × ℕ)}
    (hinside : Inside width height pixels) {sampleY sourceY : ℕ} (hy : sampleY < SAMPLE_HEIGHT)
    (hrow : sourceY < height) (hcount : pixels.length = sampleY * SAMPLE_WIDTH) {columns : ℕ}
    (hcolumns : columns ≤ SAMPLE_WIDTH) :
    (List.range columns).foldlM (copyPixel width rgba sampleY sourceY)
        (.upTo width rgba pixels) =
      some (.upTo width rgba (pixels ++ rowPixels width sourceY columns)) := by
  induction columns with
  | zero => simp [rowPixels]
  | succ columns ih =>
    have hx : columns < SAMPLE_WIDTH := hcolumns
    have hlength : (pixels ++ rowPixels width sourceY columns).length =
        sampleY * SAMPLE_WIDTH + columns := by
      simp [rowPixels, hcount]
    have hsofar := hinside.append (h.rowPixels_inside hrow hx.le)
    rw [List.range_succ, List.foldlM_append, ih hx.le, Option.bind_eq_bind, Option.bind_some,
      List.foldlM_cons, h.copyPixel_eq hsofar hx hy hrow hlength, Option.bind_eq_bind,
      Option.bind_some, List.foldlM_nil, rowPixels, rowPixels, List.range_succ, List.map_append,
      List.append_assoc]
    rfl

/-- The pixels of the first rows of the sample. -/
def framePixels (width height rows : ℕ) : List (ℕ × ℕ) :=
  (List.range rows).flatMap fun sampleY =>
    rowPixels width (scaled sampleY height SAMPLE_HEIGHT) SAMPLE_WIDTH

theorem framePixels_succ (width height rows : ℕ) :
    framePixels width height (rows + 1) = framePixels width height rows ++
      rowPixels width (scaled rows height SAMPLE_HEIGHT) SAMPLE_WIDTH := by
  simp [framePixels, List.range_succ]

theorem framePixels_length (width height rows : ℕ) :
    (framePixels width height rows).length = rows * SAMPLE_WIDTH := by
  induction rows with
  | zero => simp [framePixels]
  | succ rows ih => simp [framePixels_succ, ih, rowPixels, Nat.succ_mul]

theorem LargeEnough.framePixels_inside (h : LargeEnough width height rgba) {rows : ℕ}
    (hrows : rows ≤ SAMPLE_HEIGHT) : Inside width height (framePixels width height rows) := by
  intro pixel hmem
  obtain ⟨sampleY, hy, hpixel⟩ := List.mem_flatMap.1 hmem
  have hlt := Nat.lt_of_lt_of_le (List.mem_range.1 hy) hrows
  have hrow := scaled_lt hlt (by decide) (Nat.lt_of_lt_of_le (by decide) h.tall)
  exact h.rowPixels_inside hrow le_rfl pixel hpixel

/-- One step of the outer loop. -/
theorem LargeEnough.copyRow_eq (h : LargeEnough width height rgba) {sampleY : ℕ}
    (hy : sampleY < SAMPLE_HEIGHT) :
    copyRow width height rgba (.upTo width rgba (framePixels width height sampleY)) sampleY =
      some (.upTo width rgba (framePixels width height (sampleY + 1))) := by
  have hrow := scaled_lt hy (by decide) (Nat.lt_of_lt_of_le (by decide) h.tall)
  rw [copyRow, h.sourceY_eq hy, Option.bind_eq_bind, Option.bind_some,
    h.columns_eq (h.framePixels_inside hy.le) hy hrow
      (framePixels_length width height sampleY) le_rfl, framePixels_succ]

/-- The outer loop, by induction on the rows it has copied. -/
theorem LargeEnough.rows_eq (h : LargeEnough width height rgba) {rows : ℕ}
    (hrows : rows ≤ SAMPLE_HEIGHT) :
    (List.range rows).foldlM (copyRow width height rgba) .blank =
      some (.upTo width rgba (framePixels width height rows)) := by
  induction rows with
  | zero => rfl
  | succ rows ih =>
    have hy : rows < SAMPLE_HEIGHT := hrows
    rw [List.range_succ, List.foldlM_append, ih hy.le, Option.bind_eq_bind, Option.bind_some,
      List.foldlM_cons, h.copyRow_eq hy]
    rfl

theorem LargeEnough.nativeSample_eq (h : LargeEnough width height rgba) :
    nativeSample width height rgba =
      some (.upTo width rgba (framePixels width height SAMPLE_HEIGHT)) :=
  h.rows_eq le_rfl

end Loops

/-! ## The signature of a sample -/

theorem sumChannel_step (channel : Rgb → UInt8) (pixels : List Rgb) {sum : ℕ}
    (h : sum + 255 * pixels.length < USIZE_BOUND) :
    ∃ total, pixels.foldlM (fun sum pixel => checkedAdd sum (channel pixel).toNat) sum =
      some total := by
  induction pixels generalizing sum with
  | nil => exact ⟨sum, rfl⟩
  | cons pixel pixels ih =>
    have hchannel := (channel pixel).toNat_lt
    rw [List.length_cons] at h
    rw [List.foldlM_cons, checkedAdd_of_lt (by omega)]
    exact ih (by omega)

theorem pixelsOf_length_le (rgba : List UInt8) : (pixelsOf rgba).length ≤ rgba.length := by
  fun_induction pixelsOf rgba with
  | case1 red green blue alpha rest ih => simp only [List.length_cons]; omega
  | case2 => simp

theorem sumChannel_eq (channel : Rgb → UInt8) {rgba : List UInt8}
    (h : 255 * rgba.length < USIZE_BOUND) :
    ∃ total, sumChannel channel (pixelsOf rgba) = some total := by
  have hle := pixelsOf_length_le rgba
  exact sumChannel_step channel (pixelsOf rgba) (by omega)

/-- The signature of a sample of the size that is asked for is made without a panic. -/
theorem fromDownscaledRgba_eq {H : Type} [ImageHasher H] {rgba : List UInt8}
    (h : rgba.length = SAMPLE_WIDTH * SAMPLE_HEIGHT * SAMPLE_PIXEL_BYTES) :
    ∃ averageRgb, fromDownscaledRgba rgba =
      some (⟨ImageHasher.hashImage rgba, averageRgb⟩ : PerceptualSignature H) := by
  have hfits : 255 * rgba.length < USIZE_BOUND := by rw [h]; decide
  obtain ⟨red, hred⟩ := sumChannel_eq Rgb.red hfits
  obtain ⟨green, hgreen⟩ := sumChannel_eq Rgb.green hfits
  obtain ⟨blue, hblue⟩ := sumChannel_eq Rgb.blue hfits
  have hcount : rgba.length / SAMPLE_PIXEL_BYTES ≠ 0 := by rw [h]; decide
  have haverage : averageRgb rgba = some ⟨UInt8.ofNat (red / (rgba.length / SAMPLE_PIXEL_BYTES)),
      UInt8.ofNat (green / (rgba.length / SAMPLE_PIXEL_BYTES)),
      UInt8.ofNat (blue / (rgba.length / SAMPLE_PIXEL_BYTES))⟩ := by
    simp [averageRgb, hred, hgreen, hblue, hcount]
  exact ⟨_, by
    simp only [fromDownscaledRgba, haverage, h, lt_irrefl, if_false, Option.bind_eq_bind,
      Option.bind_some]
    rfl⟩

/-! ## The frame -/

/-- The sample holds the bytes of 72 pixels of the frame: they lie in rows and columns that never
go back, and the four corners are among them. -/
structure SampledFrom (width height : ℕ) (rgba : List UInt8) (sample : NativeSample) : Prop where
  bytes : sample.bytes = sample.pixels.flatMap (frameBytes width rgba)
  grid : ∃ rows columns : List ℕ, rows.length = SAMPLE_HEIGHT ∧ columns.length = SAMPLE_WIDTH ∧
    rows.Pairwise (· ≤ ·) ∧ columns.Pairwise (· ≤ ·) ∧
    sample.pixels = rows.flatMap fun row => columns.map fun column => (row, column)
  count : sample.pixels.length = 72
  inside : ∀ pixel ∈ sample.pixels, pixel.1 < height ∧ pixel.2 < width
  topLeft : (0, 0) ∈ sample.pixels
  topRight : (0, width - 1) ∈ sample.pixels
  bottomLeft : (height - 1, 0) ∈ sample.pixels
  bottomRight : (height - 1, width - 1) ∈ sample.pixels

theorem framePixels_eq (width height : ℕ) :
    framePixels width height SAMPLE_HEIGHT =
      (coordinates height SAMPLE_HEIGHT).flatMap fun row =>
        (coordinates width SAMPLE_WIDTH).map fun column => (row, column) := by
  simp only [framePixels, rowPixels, coordinates, List.flatMap_map, List.map_map,
    Function.comp_def]

theorem mem_framePixels {width height row column : ℕ}
    (hrow : row ∈ coordinates height SAMPLE_HEIGHT)
    (hcolumn : column ∈ coordinates width SAMPLE_WIDTH) :
    (row, column) ∈ framePixels width height SAMPLE_HEIGHT := by
  rw [framePixels_eq]
  exact List.mem_flatMap.2 ⟨row, hrow, List.mem_map.2 ⟨column, hcolumn, rfl⟩⟩

theorem LargeEnough.sampledFrom {width height : ℕ} {rgba : List UInt8}
    (h : LargeEnough width height rgba) :
    SampledFrom width height rgba
      (.upTo width rgba (framePixels width height SAMPLE_HEIGHT)) where
  bytes := NativeSample.upTo_bytes_of_full (framePixels_length width height SAMPLE_HEIGHT)
  grid := ⟨coordinates height SAMPLE_HEIGHT, coordinates width SAMPLE_WIDTH,
    by simp [coordinates], by simp [coordinates], coordinates_sorted height _,
    coordinates_sorted width _, framePixels_eq width height⟩
  count := framePixels_length width height SAMPLE_HEIGHT
  inside := h.framePixels_inside le_rfl
  topLeft := mem_framePixels (first_mem_coordinates (by decide) height)
    (first_mem_coordinates (by decide) width)
  topRight := mem_framePixels (first_mem_coordinates (by decide) height)
    (last_mem_coordinates (by decide) width)
  bottomLeft := mem_framePixels (last_mem_coordinates (by decide) height)
    (first_mem_coordinates (by decide) width)
  bottomRight := mem_framePixels (last_mem_coordinates (by decide) height)
    (last_mem_coordinates (by decide) width)

/-- A sample of the whole size is 288 bytes long. -/
theorem LargeEnough.sample_length {width height : ℕ} {rgba : List UInt8}
    (h : LargeEnough width height rgba) :
    (NativeSample.upTo width rgba (framePixels width height SAMPLE_HEIGHT)).bytes.length =
      SAMPLE_WIDTH * SAMPLE_HEIGHT * SAMPLE_PIXEL_BYTES := by
  rw [h.sampledFrom.bytes]
  exact h.bytes_length (h.framePixels_inside le_rfl)

section Frame

variable {H : Type} [ImageHasher H]

/-- The one checked product fails exactly when the whole of it overflows. -/
theorem checkedMul_bind_eq_none_iff {width height : ℕ} :
    (checkedMul width height).bind (checkedMul · SAMPLE_PIXEL_BYTES) = none ↔
      USIZE_BOUND ≤ width * height * SAMPLE_PIXEL_BYTES := by
  by_cases hfits : width * height < USIZE_BOUND
  · rw [checkedMul_of_lt hfits, Option.bind_some, checkedMul_eq_none_iff]
  · have hlarge := Nat.not_lt.1 hfits
    rw [checkedMul_eq_none_iff.2 hlarge]
    exact iff_of_true rfl (hlarge.trans (Nat.le_mul_of_pos_right _ (by decide)))

/-- The input the code refuses. -/
def Refused (width height : ℕ) (rgba : List UInt8) : Prop :=
  width < SAMPLE_WIDTH ∨ height < SAMPLE_HEIGHT ∨
    USIZE_BOUND ≤ width * height * SAMPLE_PIXEL_BYTES ∨
    rgba.length < width * height * SAMPLE_PIXEL_BYTES

theorem largeEnough_of_not_refused {width height : ℕ} {rgba : List UInt8}
    (h : ¬Refused width height rgba) : LargeEnough width height rgba := by
  simp only [Refused, not_or, Nat.not_lt, Nat.not_le] at h
  exact ⟨h.1, h.2.1, h.2.2.1, h.2.2.2⟩

/-- Past the checked product, the code refuses by its three comparisons. -/
theorem fromNativeRgba_of_fits {width height : ℕ} {rgba : List UInt8}
    (h : width * height * SAMPLE_PIXEL_BYTES < USIZE_BOUND) :
    fromNativeRgba (H := H) width height rgba =
      if width < SAMPLE_WIDTH ∨ height < SAMPLE_HEIGHT ∨
          rgba.length < width * height * SAMPLE_PIXEL_BYTES then some none
      else (nativeSample width height rgba).bind fun sample =>
        (fromDownscaledRgba sample.bytes).bind fun signature => some (some signature) := by
  have hproduct : width * height < USIZE_BOUND :=
    (Nat.le_mul_of_pos_right _ (by decide)).trans_lt h
  rw [fromNativeRgba, checkedMul_of_lt hproduct, Option.bind_some, checkedMul_of_lt h]
  rfl

theorem fromNativeRgba_of_refused {width height : ℕ} {rgba : List UInt8}
    (h : Refused width height rgba) : fromNativeRgba (H := H) width height rgba = some none := by
  by_cases hfits : width * height * SAMPLE_PIXEL_BYTES < USIZE_BOUND
  · rw [fromNativeRgba_of_fits hfits, if_pos]
    exact h.imp_right fun h => h.imp_right fun h => h.resolve_left (Nat.not_le.2 hfits)
  · rw [fromNativeRgba, checkedMul_bind_eq_none_iff.2 (Nat.not_lt.1 hfits)]

theorem LargeEnough.fromNativeRgba_eq {width height : ℕ} {rgba : List UInt8}
    (h : LargeEnough width height rgba) :
    ∃ sample, ∃ signature : PerceptualSignature H,
      nativeSample width height rgba = some sample ∧ SampledFrom width height rgba sample ∧
      fromDownscaledRgba sample.bytes = some signature ∧
      fromNativeRgba width height rgba = some (some signature) := by
  obtain ⟨averageRgb, hsignature⟩ := fromDownscaledRgba_eq (H := H) h.sample_length
  have hcompare : ¬(width < SAMPLE_WIDTH ∨ height < SAMPLE_HEIGHT ∨
      rgba.length < width * height * SAMPLE_PIXEL_BYTES) := by
    simp only [not_or, Nat.not_lt]
    exact ⟨h.wide, h.tall, h.filled⟩
  refine ⟨_, _, h.nativeSample_eq, h.sampledFrom, hsignature, ?_⟩
  rw [fromNativeRgba_of_fits h.fits, if_neg hcompare, h.nativeSample_eq, Option.bind_some,
    hsignature, Option.bind_some]

/-- Nothing overflows and no slice is out of range, whatever the frame. A frame is refused exactly
when it is too small, when its size overflows or when bytes are missing; otherwise the signature is
that of a sample of 72 of its pixels. -/
theorem fromNativeRgba_safe (width height : ℕ) (rgba : List UInt8) :
    ∃ result : Option (PerceptualSignature H), fromNativeRgba width height rgba = some result ∧
      (result = none ↔ width < 9 ∨ height < 8 ∨ 2 ^ 64 ≤ width * height * 4 ∨
        rgba.length < width * height * 4) ∧
      ∀ signature, result = some signature → ∃ sample,
        nativeSample width height rgba = some sample ∧ SampledFrom width height rgba sample ∧
        fromDownscaledRgba sample.bytes = some signature := by
  by_cases h : Refused width height rgba
  · exact ⟨none, fromNativeRgba_of_refused h, iff_of_true rfl h, nofun⟩
  · obtain ⟨sample, signature, hsample, hfrom, hsignature, hresult⟩ :=
      (largeEnough_of_not_refused h).fromNativeRgba_eq (H := H)
    refine ⟨some signature, hresult, iff_of_false nofun h, ?_⟩
    rintro _ ⟨⟩
    exact ⟨sample, hsample, hfrom, hsignature⟩

end Frame

end Fndr

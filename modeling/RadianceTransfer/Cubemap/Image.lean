import RadianceTransfer.Color

/-!
# Images

What an image file holds, and what a decoder makes of it. Samples are divided by the largest value
of their depth in the precision of the decoder and then widened to the scalars of the program.

Pictures of unbounded radiance are decoded to eight bits by a power curve that cuts off above one,
and are bounded samples from then on.

## Main definitions

* `ImageFile`: the contents of a file.
* `DecodedImage`: size, channel count and colors.
* `ImageFile.decode`: the decoder.
-/

namespace RadianceTransfer

/-- How many bits a sample has. -/
inductive SampleDepth where
  /-- Eight bits. -/
  | eight
  /-- Sixteen bits. -/
  | sixteen
  deriving DecidableEq

/-- The largest sample. -/
def SampleDepth.maxSample : SampleDepth → Nat
  | eight => 255
  | sixteen => 65535

/-- What the samples of a pixel stand for. -/
inductive PixelLayout where
  /-- One gray value. -/
  | gray
  /-- One gray value and an opacity. -/
  | grayAlpha
  /-- Red, green and blue. -/
  | rgb
  /-- Red, green, blue and an opacity. -/
  | rgba
  deriving DecidableEq

/-- How many samples a pixel has. -/
def PixelLayout.channels : PixelLayout → Nat
  | gray => 1
  | grayAlpha => 2
  | rgb => 3
  | rgba => 4

/-- The contents of an image file, whose pixels come row by row. Unbounded samples are in the
precision of the decoder. -/
inductive ImageFile (π : Type) where
  /-- Bounded samples. -/
  | samples (layout : PixelLayout) (depth : SampleDepth) (width height : Nat)
    (pixels : Array (List Nat))
  /-- Unbounded radiance. -/
  | radiance (width height : Nat) (pixels : Array (Color π))

/-- What a decoder makes of a file. -/
structure DecodedImage (α : Type) where
  /-- Size and channel count. -/
  format : FaceFormat
  /-- Whether the colors are unbounded and linear already. -/
  unbounded : Bool
  /-- The colors, row by row. -/
  texels : Array (Color α)

/-- What is found where the image of a face should be. -/
inductive FaceFile (α : Type) where
  /-- No file. -/
  | missing
  /-- A file that cannot be decoded. -/
  | undecodable
  /-- An image. -/
  | image (picture : DecodedImage α)

namespace ImageFile

variable {π α : Type} [Scalar π]

/-- A sample over the largest one of its depth. -/
@[inline] def unit (widen : π → α) (depth : SampleDepth) (n : Nat) : α :=
  widen (Scalar.ofNat n / Scalar.ofNat depth.maxSample)

/-- The color of the samples of a pixel. Opacity is left out. -/
def pixelColor [Scalar α] (widen : π → α) (layout : PixelLayout) (depth : SampleDepth)
    (samples : List Nat) : Color α :=
  let value (i : Nat) : α := unit widen depth (samples.getD i 0)
  match layout with
  | .gray | .grayAlpha => Color.gray (value 0)
  | .rgb | .rgba => ⟨value 0, value 1, value 2⟩

/-- The eight bits of an unbounded value. -/
def radianceSample (v : π) : Nat :=
  min 255 (Scalar.toNat (Scalar.pow v 2.2 * 255 + 0.5))

/-- What the decoder makes of a file. Unbounded radiance comes out as three samples of eight
bits. -/
def decode [Scalar α] (widen : π → α) : ImageFile π → DecodedImage α
  | samples layout depth width height pixels =>
    ⟨⟨width, height, layout.channels⟩, false, pixels.map (pixelColor widen layout depth)⟩
  | radiance width height pixels =>
    ⟨⟨width, height, PixelLayout.rgb.channels⟩, false, pixels.map fun c =>
      pixelColor widen .rgb .eight [radianceSample c.r, radianceSample c.g, radianceSample c.b]⟩

end ImageFile

end RadianceTransfer

import RadianceTransfer.Picture.Png
import RadianceTransfer.Picture.Radiance

/-!
# Pictures by extension

The extension of a file says which kind of picture it should hold. A file that holds another kind is
not decoded.
-/

namespace RadianceTransfer.Picture

/-- The picture in the bytes of a file with an extension. -/
def ofBytes? (extension : String) (bytes : ByteArray) : Option (ImageFile Float32) :=
  if extension == "png" then readPng? bytes
  else if extension == "hdr" then readRadiance? bytes
  else none

/-- What a file with an extension delivers as a cubemap face. -/
def faceOfBytes (extension : String) (bytes : ByteArray) : FaceFile Float :=
  match ofBytes? extension bytes with
  | some image => .image (image.decode Float32.toFloat)
  | none => .undecodable

end RadianceTransfer.Picture

import Adf.Node.Basic

/-!
# Options of the conversion

An image becomes what the image handler makes of it, if there is one; else external media, if these are
wanted; else a text that links to the image.
-/

namespace Adf.Convert

/-- What an image handler is told. -/
structure ImageRequest where
  destination : String
  /-- The description of the image, or its destination if there is none. -/
  alt : String
  /-- Empty if the image has no title. -/
  title : String
deriving DecidableEq, Repr

structure Config where
  imageHandler : Option (ImageRequest → Node) := none
  /-- Layout of every table. -/
  tableLayout : TableLayout := .default
  externalMedia : Bool := false
  /-- Layout of external media. -/
  imageLayout : MediaLayout := .center

end Adf.Convert

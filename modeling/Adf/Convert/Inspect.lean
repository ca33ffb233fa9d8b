import Adf.Convert.Converter

/-!
# Options at a glance

The options of a conversion in one line, for a person who looks for the reason of some output.
-/

namespace Adf.Convert

/-- A name with every part of it capitalized and the hyphens left out. -/
def capitalized (name : String) : String :=
  String.join ((name.splitOn "-").map String.capitalize)

/-- The fields of a record by name, in braces; two points stand for fields that are left out. -/
def inspectRecord (name : String) (complete : Bool) (fields : List (String × String)) : String :=
  let shown := fields.map fun (field, value) => field ++ ": " ++ value
  name ++ " \x7b " ++ ", ".intercalate (if complete then shown else shown ++ [".."]) ++ " \x7d"

/-- The options; of an image handler only that there is one. -/
def Config.inspect (c : Config) : String :=
  inspectRecord "Config" true
    [("image_handler", if c.imageHandler.isSome then "Some(\"<fn>\")" else "None"),
      ("table_layout", capitalized c.tableLayout.name), ("external_media", toString c.externalMedia),
      ("image_layout", capitalized c.imageLayout.name)]

/-- The options and whether tables are read; the other features of the dialect are not shown. -/
def Converter.inspect (c : Converter) : String :=
  inspectRecord "Converter" false
    [("renderer", inspectRecord "Renderer" true [("config", c.config.inspect)]),
      ("table", toString c.dialect.table)]

end Adf.Convert

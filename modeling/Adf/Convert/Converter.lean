import Adf.Convert.Render
import Adf.Markdown.Reader

/-!
# Converters

A converter reads texts of one dialect and renders them with one configuration.
-/

namespace Adf.Convert

structure Converter where
  config : Config
  dialect : Markdown.Dialect

namespace Converter

def commonMark (config : Config) : Converter := ⟨config, .commonMark⟩

def gfm (config : Config) : Converter := ⟨config, .gfm⟩

def document (c : Converter) (markdown : String) : Except RenderError Document :=
  render c.config (Markdown.read c.dialect markdown)

/-- The document of a text, as it is written. -/
def convert (style : Json.Style) (c : Converter) (markdown : String) : Except RenderError String :=
  (c.document markdown).map (Document.text style)

end Converter

end Adf.Convert

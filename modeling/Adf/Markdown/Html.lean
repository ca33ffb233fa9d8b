import Adf.Markdown.Scan

/-!
# HTML

Where raw HTML begins and ends. In a line of text it is a single tag, comment, instruction, declaration or
CDATA section. As a block it begins with one of these at the beginning of a line and ends at the matching
end or at a blank line.
-/

namespace Adf.Markdown.Html

/-! ## Tags -/

def tagName? : List Char → Option (List Char)
  | c :: rest => if c.isAlpha then some (rest.dropWhile fun d => d.isAlphanum || d = '-') else none
  | [] => none

def attributeName? : List Char → Option (List Char)
  | c :: rest =>
    if c.isAlpha || c = '_' || c = ':' then
      some (rest.dropWhile fun d => d.isAlphanum || d = ':' || d = '.' || d = '_' || d = '-')
    else none
  | [] => none

def isBare (c : Char) : Bool := !isAsciiBlank c && !"\"'=<>`".toList.contains c

def attributeValue? (s : List Char) : Option (List Char) :=
  match s with
  | '"' :: rest => through? ['"'] rest
  | '\'' :: rest => through? ['\''] rest
  | c :: rest => if isBare c then some (rest.dropWhile isBare) else none
  | [] => none

/-- An attribute and the blanks before it, which must be there. -/
def attribute? (s : List Char) : Option (List Char) := do
  if !(s.head?.any isAsciiBlank) then none
  let behindName ← attributeName? (trimLeft s)
  match trimLeft behindName with
  | '=' :: rest => attributeValue? (trimLeft rest)
  | _ => some behindName

/-- What is in an opening tag behind its `<`. -/
def openingTag? (s : List Char) : Option (List Char) := do
  let behindName ← tagName? s
  match trimLeft (many attribute? behindName) with
  | '/' :: '>' :: rest | '>' :: rest => some rest
  | _ => none

/-- What is in a closing tag behind its `<`. -/
def closingTag? (s : List Char) : Option (List Char) := do
  let behindName ← tagName? (← after? ['/'] s)
  after? ['>'] (trimLeft behindName)

def tag? (s : List Char) : Option (List Char) :=
  (openingTag? s).orElse fun _ => closingTag? s

/-! ## In a line -/

/-- Raw HTML in a line, behind its `<`. -/
def inline? (s : List Char) : Option (List Char) :=
  match s with
  | '!' :: '-' :: '-' :: '>' :: rest | '!' :: '-' :: '-' :: '-' :: '>' :: rest => some rest
  | '!' :: '-' :: '-' :: rest => through? "-->".toList rest
  | '?' :: rest => through? "?>".toList rest
  | '!' :: rest =>
    match after? "[CDATA[".toList rest, rest with
    | some content, _ => through? "]]>".toList content
    | none, c :: _ => if c.isAlpha then through? ['>'] rest else none
    | none, [] => none
  | _ => tag? s

/-! ## As a block -/

/-- What ends a block of HTML. -/
inductive BlockEnd where
  /-- A closing tag of a name in `rawTags`. -/
  | rawTag
  | comment
  | instruction
  | declaration
  | cdata
  | blankLine
deriving DecidableEq, Repr

/-- Elements whose content is no markup. -/
def rawTags : List String := ["script", "pre", "textarea", "style"]

/-- Elements that begin a block. -/
def blockTags : List String :=
  ["address", "article", "aside", "base", "basefont", "blockquote", "body", "caption", "center", "col",
    "colgroup", "dd", "details", "dialog", "dir", "div", "dl", "dt", "fieldset", "figcaption", "figure",
    "footer", "form", "frame", "frameset", "h1", "h2", "h3", "h4", "h5", "h6", "head", "header", "hr",
    "html", "iframe", "legend", "li", "link", "main", "menu", "menuitem", "nav", "noframes", "ol",
    "optgroup", "option", "p", "param", "search", "section", "summary", "table", "tbody", "td", "tfoot",
    "th", "thead", "title", "tr", "track", "ul"]

/-- A tag name of a list, and what is behind it. -/
def named? (names : List String) (s : List Char) : Option (List Char) := do
  let rest ← tagName? s
  if names.contains (String.ofList ((taken s rest).map Char.toLower)) then some rest else none

def endsName (s : List Char) : Bool := s.head?.all fun c => isAsciiBlank c || c = '>'

/-- Whether a line begins a block of HTML, and what ends that. A lone tag of any name begins one too, but
not where it would interrupt a paragraph. -/
def block? (inParagraph : Bool) (line : List Char) : Option BlockEnd := do
  let s ← after? ['<'] line
  if (named? rawTags s).any endsName then return .rawTag
  if (after? "!--".toList s).isSome then return .comment
  if (after? ['?'] s).isSome then return .instruction
  if (after? "![CDATA[".toList s).isSome then return .cdata
  if ((after? ['!'] s).bind List.head?).any Char.isAlpha then return .declaration
  let closing := (after? ['/'] s).getD s
  if (named? blockTags closing).any fun rest => endsName rest || (after? "/>".toList rest).isSome then
    return .blankLine
  if !inParagraph && (tag? s).any (fun rest => (trimLeft rest).isEmpty) then return .blankLine
  none

/-- Whether a line of the block is its last; blank lines are not looked at. -/
def BlockEnd.isIn (line : List Char) : BlockEnd → Bool
  | .rawTag => holdsLower (rawTags.map fun name => ("</" ++ name ++ ">").toList) line
  | .comment => (through? "-->".toList line).isSome
  | .instruction => (through? "?>".toList line).isSome
  | .declaration => (through? ['>'] line).isSome
  | .cdata => (through? "]]>".toList line).isSome
  | .blankLine => false

end Adf.Markdown.Html

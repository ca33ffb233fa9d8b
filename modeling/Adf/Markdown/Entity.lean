import Adf.Markdown.Character

/-!
# Escapes and entities

A backslash takes its meaning from a punctuation character, and an entity stands for a character by name or
by number. Of the named entities the common ones are known.
-/

namespace Adf.Markdown

def entities : List (String × String) :=
  [("amp", "&"), ("lt", "<"), ("gt", ">"), ("quot", "\""), ("apos", "'"), ("nbsp", "\u00a0"),
    ("iexcl", "¡"), ("cent", "¢"), ("pound", "£"), ("curren", "¤"), ("yen", "¥"), ("brvbar", "¦"),
    ("sect", "§"), ("uml", "¨"), ("copy", "©"), ("ordf", "ª"), ("laquo", "«"), ("not", "¬"),
    ("shy", "\u00ad"), ("reg", "®"), ("macr", "¯"), ("deg", "°"), ("plusmn", "±"), ("sup2", "²"),
    ("sup3", "³"), ("acute", "´"), ("micro", "µ"), ("para", "¶"), ("middot", "·"), ("cedil", "¸"),
    ("sup1", "¹"), ("ordm", "º"), ("raquo", "»"), ("frac14", "¼"), ("frac12", "½"), ("frac34", "¾"),
    ("iquest", "¿"), ("Agrave", "À"), ("Aacute", "Á"), ("Acirc", "Â"), ("Atilde", "Ã"), ("Auml", "Ä"),
    ("Aring", "Å"), ("AElig", "Æ"), ("Ccedil", "Ç"), ("Egrave", "È"), ("Eacute", "É"), ("Ecirc", "Ê"),
    ("Euml", "Ë"), ("Igrave", "Ì"), ("Iacute", "Í"), ("Icirc", "Î"), ("Iuml", "Ï"), ("ETH", "Ð"),
    ("Ntilde", "Ñ"), ("Ograve", "Ò"), ("Oacute", "Ó"), ("Ocirc", "Ô"), ("Otilde", "Õ"), ("Ouml", "Ö"),
    ("times", "×"), ("Oslash", "Ø"), ("Ugrave", "Ù"), ("Uacute", "Ú"), ("Ucirc", "Û"), ("Uuml", "Ü"),
    ("Yacute", "Ý"), ("THORN", "Þ"), ("szlig", "ß"), ("agrave", "à"), ("aacute", "á"), ("acirc", "â"),
    ("atilde", "ã"), ("auml", "ä"), ("aring", "å"), ("aelig", "æ"), ("ccedil", "ç"), ("egrave", "è"),
    ("eacute", "é"), ("ecirc", "ê"), ("euml", "ë"), ("igrave", "ì"), ("iacute", "í"), ("icirc", "î"),
    ("iuml", "ï"), ("eth", "ð"), ("ntilde", "ñ"), ("ograve", "ò"), ("oacute", "ó"), ("ocirc", "ô"),
    ("otilde", "õ"), ("ouml", "ö"), ("divide", "÷"), ("oslash", "ø"), ("ugrave", "ù"), ("uacute", "ú"),
    ("ucirc", "û"), ("uuml", "ü"), ("yacute", "ý"), ("thorn", "þ"), ("yuml", "ÿ"), ("OElig", "Œ"),
    ("oelig", "œ"), ("Scaron", "Š"), ("scaron", "š"), ("Yuml", "Ÿ"), ("fnof", "ƒ"), ("circ", "ˆ"),
    ("tilde", "˜"), ("Gamma", "Γ"), ("Delta", "Δ"), ("Theta", "Θ"), ("Lambda", "Λ"), ("Pi", "Π"),
    ("Sigma", "Σ"), ("Phi", "Φ"), ("Psi", "Ψ"), ("Omega", "Ω"), ("alpha", "α"), ("beta", "β"),
    ("gamma", "γ"), ("delta", "δ"), ("epsilon", "ε"), ("zeta", "ζ"), ("eta", "η"), ("theta", "θ"),
    ("iota", "ι"), ("kappa", "κ"), ("lambda", "λ"), ("mu", "μ"), ("nu", "ν"), ("xi", "ξ"), ("pi", "π"),
    ("rho", "ρ"), ("sigma", "σ"), ("tau", "τ"), ("phi", "φ"), ("chi", "χ"), ("psi", "ψ"), ("omega", "ω"),
    ("ensp", "\u2002"), ("emsp", "\u2003"), ("thinsp", "\u2009"), ("zwnj", "\u200c"), ("zwj", "\u200d"),
    ("ndash", "–"), ("mdash", "—"), ("lsquo", "‘"), ("rsquo", "’"), ("sbquo", "‚"), ("ldquo", "“"),
    ("rdquo", "”"), ("bdquo", "„"), ("dagger", "†"), ("Dagger", "‡"), ("bull", "•"), ("hellip", "…"),
    ("permil", "‰"), ("prime", "′"), ("Prime", "″"), ("lsaquo", "‹"), ("rsaquo", "›"), ("euro", "€"),
    ("trade", "™"), ("larr", "←"), ("uarr", "↑"), ("rarr", "→"), ("darr", "↓"), ("harr", "↔"),
    ("rArr", "⇒"), ("hArr", "⇔"), ("forall", "∀"), ("part", "∂"), ("exist", "∃"), ("empty", "∅"),
    ("nabla", "∇"), ("isin", "∈"), ("notin", "∉"), ("ni", "∋"), ("prod", "∏"), ("sum", "∑"),
    ("minus", "−"), ("radic", "√"), ("infin", "∞"), ("and", "∧"), ("or", "∨"), ("cap", "∩"),
    ("cup", "∪"), ("int", "∫"), ("asymp", "≈"), ("ne", "≠"), ("equiv", "≡"), ("le", "≤"), ("ge", "≥"),
    ("sub", "⊂"), ("sup", "⊃"), ("sube", "⊆"), ("supe", "⊇"), ("loz", "◊"), ("spades", "♠"),
    ("clubs", "♣"), ("hearts", "♥"), ("diams", "♦")]

def hexDigit? (c : Char) : Option Nat :=
  if c.isDigit then some (c.toNat - 48)
  else if 'a' ≤ c ∧ c ≤ 'f' then some (c.toNat - 87)
  else if 'A' ≤ c ∧ c ≤ 'F' then some (c.toNat - 55)
  else none

/-- The character of a number; what is none becomes the replacement character. -/
def character (n : Nat) : Char :=
  if n = 0 ∨ (0xd800 ≤ n ∧ n ≤ 0xdfff) ∨ 0x110000 ≤ n then '\ufffd' else Char.ofNat n

/-- At most `most` digits and a semicolon, and the text behind them. -/
def numberedEntity? (base most : Nat) (s : List Char) : Option (List Char × List Char) :=
  let digits := s.takeWhile fun c => if base = 16 then (hexDigit? c).isSome else c.isDigit
  match s.drop digits.length with
  | ';' :: rest =>
    if 1 ≤ digits.length ∧ digits.length ≤ most then
      some ([character (digits.foldl (fun n c => n * base + (hexDigit? c).getD 0) 0)], rest)
    else none
  | _ => none

/-- What an entity stands for, behind its ampersand, and the text behind it. -/
def entity? (s : List Char) : Option (List Char × List Char) :=
  match s with
  | '#' :: 'x' :: rest | '#' :: 'X' :: rest => numberedEntity? 16 6 rest
  | '#' :: rest => numberedEntity? 10 7 rest
  | _ =>
    let name := s.takeWhile Char.isAlphanum
    match s.drop name.length with
    | ';' :: rest => (entities.lookup (String.ofList name)).map fun text => (text.toList, rest)
    | _ => none

/-- Puts in what the entities of a text stand for. -/
def decodeEntities : Nat → List Char → List Char
  | 0, s => s
  | _, [] => []
  | fuel + 1, '&' :: rest =>
    match entity? rest with
    | some (text, rest) => text ++ decodeEntities fuel rest
    | none => '&' :: decodeEntities fuel rest
  | fuel + 1, c :: rest => c :: decodeEntities fuel rest

/-- Takes away the backslashes before punctuation. -/
def dropEscapes : List Char → List Char
  | '\\' :: c :: rest =>
    if isAsciiPunctuation c then c :: dropEscapes rest else '\\' :: dropEscapes (c :: rest)
  | c :: rest => c :: dropEscapes rest
  | [] => []

/-- A destination, title or info string as it is meant. -/
def unescape (s : List Char) : String :=
  String.ofList (dropEscapes (decodeEntities s.length s))

end Adf.Markdown

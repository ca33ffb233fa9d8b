import Adf.Markdown.Scan

/-!
# Autolinks

Links that are written as a bare URL or address. In angle brackets every dialect knows them; some dialects
find them in running text as well. There the link ends at a blank, and punctuation at its end belongs to the
sentence around it.
-/

namespace Adf.Markdown

/-- A link that shows the text it was written as. -/
structure Autolink where
  url : String
  label : String
deriving DecidableEq, Repr

namespace Autolink

/-! ## In angle brackets -/

/-- A URI and the text behind its `>`. The scheme has 2 to 32 characters. -/
def uri? (s : List Char) : Option (List Char × List Char) :=
  let scheme := s.takeWhile fun c => c.isAlphanum || c = '.' || c = '+' || c = '-'
  if !(s.head?.any Char.isAlpha) || scheme.length < 2 || 32 < scheme.length then none
  else
    match s.drop scheme.length with
    | ':' :: rest =>
      let path := rest.takeWhile fun c => 0x20 < c.toNat && c != '<' && c != '>'
      match rest.drop path.length with
      | '>' :: behind => some (scheme ++ ':' :: path, behind)
      | _ => none
    | _ => none

/-- The parts of a text between the places where a character stands. -/
def splitAt (mark : Char) : List Char → List (List Char)
  | [] => [[]]
  | c :: rest =>
    match splitAt mark rest with
    | part :: parts => if c = mark then [] :: part :: parts else (c :: part) :: parts
    | [] => []

/-- A part of a domain name: at most 63 letters, digits and inner hyphens. -/
def isDomainPart (s : List Char) : Bool :=
  s.head?.any Char.isAlphanum && s.getLast?.any Char.isAlphanum && s.length ≤ 63 &&
    s.all fun c => c.isAlphanum || c = '-'

/-- A mail address and the text behind its `>`. -/
def address? (s : List Char) : Option (List Char × List Char) :=
  let user := s.takeWhile fun c => c.isAlphanum || ".!#$%&'*+/=?^_`\x7b|\x7d~-".toList.contains c
  match s.drop user.length with
  | '@' :: rest =>
    let domain := rest.takeWhile fun c => c.isAlphanum || c = '-' || c = '.'
    match rest.drop domain.length with
    | '>' :: behind =>
      if !user.isEmpty && (splitAt '.' domain).all isDomainPart then
        some (user ++ '@' :: domain, behind)
      else none
    | _ => none
  | _ => none

/-! ## In running text -/

/-- A link that was found, the number of characters of it that stand before the one that gave it away, and
the text behind it. -/
structure Found where
  link : Autolink
  back : Nat
  rest : List Char
deriving DecidableEq, Repr

def isHostCharacter (c : Char) : Bool := !Text.isBlank c && !isPunctuation c

/-- What has been seen of a host name: its points, and the underscores in its last two parts. -/
structure Host where
  points : Nat := 0
  lastButOne : Nat := 0
  last : Nat := 0

/-- Whether a text begins with a host name. It has no underscores in its last two parts, and a point in it
unless it may be short. -/
def isHost (short : Bool) (host : Host) : List Char → Bool
  | [] => ((host.last = 0 && host.lastButOne = 0) || 10 < host.points) && (short || 0 < host.points)
  | '_' :: rest => isHost short { host with last := host.last + 1 } rest
  | '.' :: rest => isHost short ⟨host.points + 1, host.last, 0⟩ rest
  | c :: rest =>
    if isHostCharacter c || c = '-' then isHost short host rest
    else host.last = 0 && host.lastButOne = 0 && (short || 0 < host.points)

/-- Takes the characters off a reversed link that end the sentence and not the link: marks, the end of an
entity, and a parenthesis that none in the link opens. -/
def trimEnd : List Char → List Char
  | [] => []
  | c :: rest =>
    if "?!.,:*_~'\"".toList.contains c then trimEnd rest
    else if c = ';' then
      match rest.dropWhile Char.isAlpha with
      | '&' :: before => if before.length + 1 < rest.length then trimEnd before else trimEnd rest
      | _ => trimEnd rest
    else if c = ')' then
      if rest.count '(' ≤ rest.count ')' then trimEnd rest else c :: rest
    else c :: rest
termination_by s => s.length
decreasing_by
  all_goals try simp_wf
  all_goals omega

/-- The part of a text that is a link, if it begins with one. -/
def linkPart (s : List Char) : List Char :=
  (trimEnd (s.takeWhile fun c => !isAsciiBlank c && c != '<').reverse).reverse

/-- A host name that begins with `www.`; `before` is the text before it, last character first. -/
def host? (before s : List Char) : Option Found :=
  let free := before.head?.all fun c => isAsciiBlank c || ['*', '_', '~', '(', '['].contains c
  if free && (after? "www.".toList s).isSome && isHost false {} s then
    let label := linkPart s
    some ⟨⟨"http://" ++ String.ofList label, String.ofList label⟩, 0, s.drop label.length⟩
  else none

/-- A URL with one of the common schemes, found at its colon. -/
def url? (before s : List Char) : Option Found := do
  let host ← after? "://".toList s
  if host.isEmpty then none
  let scheme := (before.takeWhile Char.isAlpha).reverse
  if ["http", "https", "ftp"].contains (String.ofList scheme) && isHost true {} host then
    let written := linkPart s
    let label := String.ofList (scheme ++ written)
    some ⟨⟨label, label⟩, scheme.length, s.drop written.length⟩
  else none

/-- The characters of a domain in a mail address. A point needs a letter or digit behind it. -/
def addressDomain : List Char → List Char
  | '.' :: c :: rest => if c.isAlphanum then '.' :: addressDomain (c :: rest) else []
  | c :: rest => if c.isAlphanum || c = '-' || c = '_' then c :: addressDomain rest else []
  | [] => []

/-- The user of an address and the scheme before it, if that is written too. -/
def addressUser (before : List Char) : List Char × Bool :=
  let isIn (c : Char) : Bool := c.isAlphanum || ['.', '+', '-', '_'].contains c
  let user := before.takeWhile isIn
  match before.drop user.length with
  | ':' :: scheme =>
    if ["mailto", "xmpp"].contains (String.ofList (scheme.takeWhile Char.isAlpha).reverse) then
      (user ++ ':' :: scheme.takeWhile isIn, true)
    else (user, false)
  | _ => (user, false)

/-- A mail address, found at its `@`. -/
def mail? (before s : List Char) : Option Found := do
  let rest ← after? ['@'] s
  let (user, hasScheme) := addressUser before
  let domain := addressDomain rest
  if user.isEmpty || domain.isEmpty || !domain.contains '.' || (rest.drop domain.length).head? = some '@' ||
      !(domain.getLast?.any Char.isAlpha) then none
  else
    let label := user.reverse ++ linkPart ('@' :: domain)
    let url := String.ofList label
    some ⟨⟨if hasScheme then url else "mailto:" ++ url, url⟩, user.length,
      s.drop (label.length - user.length)⟩

def find? (before s : List Char) : Option Found :=
  match s with
  | ':' :: _ => url? before s
  | 'w' :: _ => host? before s
  | '@' :: _ => mail? before s
  | _ => none

/-- Cuts a text at the first link in it: the text before the link, last character first, and what was found.
Nothing in square brackets is a link; `depth` counts the open ones. -/
def first? (before : List Char) (depth : Int) : List Char → Option (List Char × Found)
  | [] => none
  | c :: rest =>
    let depth := if c = '[' then depth + 1 else if c = ']' then depth - 1 else depth
    match if 0 < depth then none else find? before (c :: rest) with
    | some found => some (before.drop found.back, found)
    | none => first? (c :: before) depth rest

end Autolink

end Adf.Markdown

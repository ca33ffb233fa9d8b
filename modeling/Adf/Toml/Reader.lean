import Adf.Toml.Basic

/-!
# Reading TOML

Each reader takes what it is named for from the front of a text and returns it with the rest of the text, or
nothing if the front has another form. Values may be nested in arrays and inline tables up to `depthLimit`.
-/

namespace Adf.Toml

abbrev Reader (α : Type) := List Char → Option (α × List Char)

/-- How many arrays and inline tables may be open at once, and how many parts a dotted key may have. -/
def depthLimit : Nat := 79

/-! ## Blanks, line ends and comments -/

def isBlank (c : Char) : Bool := c = ' ' || c = '\t'

def skipBlank (s : List Char) : List Char := s.dropWhile isBlank

/-- Whether a character may stand in a comment or string: no control character but the tab. -/
def isPlain (c : Char) : Bool :=
  c = '\t' || (0x20 ≤ c.toNat && c.toNat ≠ 0x7f)

def skipComment : List Char → List Char
  | '#' :: rest => rest.dropWhile isPlain
  | s => s

def lineEnd? : List Char → Option (List Char)
  | '\n' :: rest => some rest
  | '\r' :: '\n' :: rest => some rest
  | _ => none

/-- The end of a line of which nothing is left but blanks and a comment. -/
def endOfLine? (s : List Char) : Option (List Char) :=
  match skipComment (skipBlank s) with
  | [] => some []
  | rest => lineEnd? rest

/-- Passes over blanks, comments and line ends. -/
def skipLines : Nat → List Char → List Char
  | 0, s => s
  | fuel + 1, s =>
    match lineEnd? (skipComment (skipBlank s)) with
    | some rest => skipLines fuel rest
    | none => skipComment (skipBlank s)

/-! ## Strings -/

def hexValue? (c : Char) : Option Nat :=
  if c.isDigit then some (c.toNat - 48)
  else if 'a' ≤ c ∧ c ≤ 'f' then some (c.toNat - 87)
  else if 'A' ≤ c ∧ c ≤ 'F' then some (c.toNat - 55)
  else none

/-- The character that `count` hexadecimal digits stand for. -/
def codePoint? (count : Nat) (s : List Char) : Option (Char × List Char) := do
  let digits ← (s.take count).mapM hexValue?
  let code := digits.foldl (fun n d => n * 16 + d) 0
  if digits.length = count ∧ (code < 0xd800 ∨ (0xdfff < code ∧ code < 0x110000)) then
    some (Char.ofNat code, s.drop count)
  else none

/-- What an escape stands for, behind its backslash. -/
def escape? : List Char → Option (Char × List Char)
  | 'b' :: rest => some ('\x08', rest)
  | 't' :: rest => some ('\t', rest)
  | 'n' :: rest => some ('\n', rest)
  | 'f' :: rest => some ('\x0c', rest)
  | 'r' :: rest => some ('\r', rest)
  | '"' :: rest => some ('"', rest)
  | '\\' :: rest => some ('\\', rest)
  | 'u' :: rest => codePoint? 4 rest
  | 'U' :: rest => codePoint? 8 rest
  | _ => none

/-- The rest of a string in double quotes. -/
def basicString? : Nat → Reader (List Char)
  | 0, _ => none
  | fuel + 1, s =>
    match s with
    | '"' :: rest => some ([], rest)
    | '\\' :: rest => do
      let (c, rest) ← escape? rest
      let (text, rest) ← basicString? fuel rest
      return (c :: text, rest)
    | c :: rest => do
      guard (isPlain c)
      let (text, rest) ← basicString? fuel rest
      return (c :: text, rest)
    | [] => none

/-- The rest of a string in single quotes. -/
def literalString? : Reader (List Char)
  | '\'' :: rest => some ([], rest)
  | c :: rest => do
    guard (isPlain c)
    let (text, rest) ← literalString? rest
    return (c :: text, rest)
  | [] => none

/-- Quotes in a string of several lines. Three of them end it; two more may stand before these. -/
def closingQuotes? (quote : Char) (s : List Char) : Option (List Char × List Char) :=
  let run := ((s.take 5).takeWhile (· = quote)).length
  if 3 ≤ run then some (List.replicate (run - 3) quote, s.drop run) else none

/-- Passes over the line ends and blanks behind a backslash that ends a line. -/
def skipGap : Nat → List Char → List Char
  | 0, s => s
  | fuel + 1, s =>
    match lineEnd? (skipBlank s) with
    | some rest => skipGap fuel rest
    | none => skipBlank s

/-- The rest of a string in three double quotes. -/
def basicLines? : Nat → Reader (List Char)
  | 0, _ => none
  | fuel + 1, s =>
    match closingQuotes? '"' s with
    | some (quotes, rest) => some (quotes, rest)
    | none =>
      match lineEnd? s with
      | some rest => do
        let (text, rest) ← basicLines? fuel rest
        return ('\n' :: text, rest)
      | none =>
        match s with
        | '\\' :: rest =>
          match lineEnd? (skipBlank rest) with
          | some rest => basicLines? fuel (skipGap fuel rest)
          | none => do
            let (c, rest) ← escape? rest
            let (text, rest) ← basicLines? fuel rest
            return (c :: text, rest)
        | c :: rest => do
          guard (isPlain c)
          let (text, rest) ← basicLines? fuel rest
          return (c :: text, rest)
        | [] => none

/-- The rest of a string in three single quotes. -/
def literalLines? : Nat → Reader (List Char)
  | 0, _ => none
  | fuel + 1, s =>
    match closingQuotes? '\'' s with
    | some (quotes, rest) => some (quotes, rest)
    | none =>
      match lineEnd? s with
      | some rest => do
        let (text, rest) ← literalLines? fuel rest
        return ('\n' :: text, rest)
      | none =>
        match s with
        | c :: rest => do
          guard (isPlain c)
          let (text, rest) ← literalLines? fuel rest
          return (c :: text, rest)
        | [] => none

/-- A line end right behind the opening quotes is not part of a string. -/
def skipFirstLineEnd (s : List Char) : List Char := (lineEnd? s).getD s

def string? (fuel : Nat) : Reader String := fun s => do
  let (text, rest) ← match s with
    | '"' :: '"' :: '"' :: rest => basicLines? fuel (skipFirstLineEnd rest)
    | '"' :: rest => basicString? fuel rest
    | '\'' :: '\'' :: '\'' :: rest => literalLines? fuel (skipFirstLineEnd rest)
    | '\'' :: rest => literalString? rest
    | _ => none
  return (String.ofList text, rest)

/-! ## Keys -/

def isBareKey (c : Char) : Bool := c.isAlphanum || c = '-' || c = '_'

/-- One part of a key: bare, or a string of one line. -/
def simpleKey? (fuel : Nat) : Reader String := fun s =>
  match s with
  | '"' :: rest => (basicString? fuel rest).map fun (text, rest) => (String.ofList text, rest)
  | '\'' :: rest => (literalString? rest).map fun (text, rest) => (String.ofList text, rest)
  | _ =>
    match s.takeWhile isBareKey with
    | [] => none
    | name => some (String.ofList name, s.dropWhile isBareKey)

/-- The parts of a key, with points between them. -/
def dottedKey? : Nat → Reader (List String)
  | 0, _ => none
  | fuel + 1, s => do
    let (name, rest) ← simpleKey? (fuel + 1) (skipBlank s)
    match skipBlank rest with
    | '.' :: rest =>
      let (names, rest) ← dottedKey? fuel rest
      return (name :: names, rest)
    | rest => return ([name], rest)

/-- The tables that a key leads through, and its last part. -/
def key? (fuel : Nat) : Reader (List String × String) := fun s => do
  let (names, rest) ← dottedKey? fuel s
  guard (names.length ≤ depthLimit)
  return ((names.dropLast, ← names.getLast?), rest)

/-! ## Numbers -/

/-- Digits with single underscores between them; at least one. -/
def digits? (isDigit : Char → Bool) : Reader (List Char)
  | c :: '_' :: rest =>
    if isDigit c then do
      let (more, rest) ← digits? isDigit rest
      return (c :: more, rest)
    else none
  | c :: rest =>
    if isDigit c then
      match digits? isDigit rest with
      | some (more, rest) => some (c :: more, rest)
      | none => if (rest.head?.any isDigit) then none else some ([c], rest)
    else none
  | [] => none

def number (base : Nat) (digits : List Char) : Nat :=
  digits.foldl (fun n c => n * base + (hexValue? c).getD 0) 0

def sign : List Char → Bool × List Char
  | '-' :: rest => (true, rest)
  | '+' :: rest => (false, rest)
  | s => (false, s)

/-- A decimal integer: digits without a zero in front. -/
def decimal? : Reader (List Char)
  | '0' :: rest => some (['0'], rest)
  | s => digits? Char.isDigit s

/-- Integers fill 64 bits. -/
def inRange (z : Int) : Option Int :=
  if -0x8000000000000000 ≤ z ∧ z < 0x8000000000000000 then some z else none

def integer? : Reader Int := fun s =>
  let based (base : Nat) (isDigit : Char → Bool) (s : List Char) : Option (Int × List Char) := do
    let (digits, rest) ← digits? isDigit s
    return (← inRange (number base digits), rest)
  match s with
  | '0' :: 'x' :: rest => based 16 (fun c => (hexValue? c).isSome) rest
  | '0' :: 'o' :: rest => based 8 (fun c => '0' ≤ c ∧ c ≤ '7') rest
  | '0' :: 'b' :: rest => based 2 (fun c => c = '0' ∨ c = '1') rest
  | _ => do
    let (negative, s) := sign s
    let (digits, rest) ← decimal? s
    let n : Int := number 10 digits
    return (← inRange (if negative then -n else n), rest)

/-- The value `digits * 10 ^ exponent`, rounded to the nearest double. Exponents far beyond the range of the
doubles are cut off. -/
def scaled (digits : Nat) (exponent : Int) : Float :=
  if 0 ≤ exponent then Float.ofScientific digits false (min exponent.toNat 100000)
  else Float.ofScientific digits true (min (-exponent).toNat 100000)

def exponent? : Reader Int
  | e :: rest => do
    guard (e = 'e' ∨ e = 'E')
    let (negative, rest) := sign rest
    let (digits, rest) ← digits? Char.isDigit rest
    let n : Int := number 10 digits
    return (if negative then -n else n, rest)
  | [] => none

/-- A number with a fraction or an exponent, or one of the two special numbers. Only a negative one may be
too large for a double. -/
def float? : Reader Float := fun s => do
  let (negative, unsigned) := sign s
  let apply (x : Float) : Float := if negative then -x else x
  match unsigned with
  | 'i' :: 'n' :: 'f' :: rest => return (apply (1 / 0), rest)
  | 'n' :: 'a' :: 'n' :: rest => return (apply (0 / 0), rest)
  | _ =>
    let (whole, rest) ← decimal? unsigned
    let (fraction, rest) ← match rest with
      | '.' :: rest => do
        let (fraction, rest) ← digits? Char.isDigit rest
        pure (fraction, rest)
      | _ => do
        let _ ← exponent? rest
        pure ([], rest)
    let (exponent, rest) := (exponent? rest).getD (0, rest)
    let x := scaled (number 10 (whole ++ fraction)) (exponent - fraction.length)
    guard (negative ∨ ¬x.isInf)
    return (apply x, rest)

/-! ## Dates and times -/

/-- A number of exactly `count` digits. -/
def fixed? (count : Nat) : Reader Nat := fun s =>
  let digits := s.take count
  if digits.length = count ∧ digits.all Char.isDigit then some (number 10 digits, s.drop count) else none

def expect? (c : Char) (s : List Char) : Option (List Char) :=
  match s with
  | d :: rest => if d = c then some rest else none
  | [] => none

def monthLength (year month : Nat) : Nat :=
  if month = 2 then
    if year % 4 = 0 ∧ (year % 100 ≠ 0 ∨ year % 400 = 0) then 29 else 28
  else if month = 4 ∨ month = 6 ∨ month = 9 ∨ month = 11 then 30 else 31

def date? (s : List Char) : Option (List Char) := do
  let (year, s) ← fixed? 4 s
  let (month, s) ← fixed? 2 (← expect? '-' s)
  let (day, s) ← fixed? 2 (← expect? '-' s)
  guard (1 ≤ month ∧ month ≤ 12 ∧ 1 ≤ day ∧ day ≤ monthLength year month)
  return s

/-- A time of day; a minute may have a leap second. -/
def time? (s : List Char) : Option (List Char) := do
  let (hour, s) ← fixed? 2 s
  let (minute, s) ← fixed? 2 (← expect? ':' s)
  let (second, s) ← fixed? 2 (← expect? ':' s)
  guard (hour ≤ 23 ∧ minute ≤ 59 ∧ second ≤ 60)
  match s with
  | '.' :: rest =>
    guard (rest.head?.any Char.isDigit)
    return rest.dropWhile Char.isDigit
  | _ => return s

def offset? (s : List Char) : Option (List Char) :=
  match s with
  | 'Z' :: rest | 'z' :: rest => some rest
  | '+' :: rest | '-' :: rest => do
    let (hour, s) ← fixed? 2 rest
    let (minute, s) ← fixed? 2 (← expect? ':' s)
    guard (hour ≤ 23 ∧ minute ≤ 59)
    return s
  | _ => none

def datetime? (s : List Char) : Option (List Char) :=
  match date? s with
  | none => time? s
  | some rest =>
    let time := match rest with
      | 'T' :: more | 't' :: more | ' ' :: more => time? more
      | _ => none
    match time with
    | none => some rest
    | some rest => some ((offset? rest).getD rest)

/-! ## Values -/

def scalar? (fuel : Nat) : Reader Value := fun s =>
  match s with
  | '"' :: _ | '\'' :: _ => (string? fuel s).map fun (text, rest) => (.string text, rest)
  | 't' :: 'r' :: 'u' :: 'e' :: rest => some (.boolean true, rest)
  | 'f' :: 'a' :: 'l' :: 's' :: 'e' :: rest => some (.boolean false, rest)
  | _ =>
    match datetime? s with
    | some rest => some (.datetime, rest)
    | none =>
      match float? s with
      | some (x, rest) => some (.float x, rest)
      | none => (integer? s).map fun (z, rest) => (.integer z, rest)

mutual

/-- A value inside `depth` more arrays and inline tables at most. -/
def value? (fuel depth : Nat) (s : List Char) : Option (Value × List Char) :=
  match fuel, depth, s with
  | fuel + 1, depth + 1, '[' :: rest => do
    let (items, rest) ← items? fuel depth (skipLines fuel rest)
    return (.array items, rest)
  | fuel + 1, depth + 1, '\x7b' :: rest =>
    match skipBlank rest with
    | '\x7d' :: rest => some (.inlineTable [], rest)
    | _ => do
      let (entries, rest) ← entries? fuel depth [] rest
      return (.inlineTable entries, rest)
  | fuel + 1, _, s => scalar? (fuel + 1) s
  | 0, _, _ => none

/-- The rest of an array. -/
def items? (fuel depth : Nat) (s : List Char) : Option (List Value × List Char) :=
  match fuel, s with
  | 0, _ => none
  | _, ']' :: rest => some ([], rest)
  | fuel + 1, s => do
    let (item, rest) ← value? fuel depth s
    match skipLines fuel rest with
    | ',' :: rest =>
      let (items, rest) ← items? fuel depth (skipLines fuel rest)
      return (item :: items, rest)
    | ']' :: rest => return ([item], rest)
    | _ => none

/-- The rest of an inline table, which has an entry to come. -/
def entries? (fuel depth : Nat) (done : Entries) (s : List Char) : Option (Entries × List Char) :=
  match fuel with
  | 0 => none
  | fuel + 1 => do
    let ((path, key), rest) ← key? (fuel + 1) s
    let (value, rest) ← value? fuel depth (skipBlank (← expect? '=' rest))
    let done ← done.set? path key value
    match skipBlank rest with
    | ',' :: rest => entries? fuel depth done rest
    | '\x7d' :: rest => return (done, rest)
    | _ => none

end

/-! ## Documents -/

/-- A header or an entry, up to the end of its line. -/
def expression? (fuel : Nat) (d : Draft) (s : List Char) : Option (Draft × List Char) :=
  match s with
  | '[' :: '[' :: rest => do
    let ((path, key), rest) ← key? fuel rest
    let rest ← expect? ']' (← expect? ']' rest)
    return (← d.openTables? path key, ← endOfLine? rest)
  | '[' :: rest => do
    let ((path, key), rest) ← key? fuel rest
    let rest ← expect? ']' rest
    return (← d.openTable? path key, ← endOfLine? rest)
  | _ => do
    let ((path, key), rest) ← key? fuel s
    let (value, rest) ← value? fuel depthLimit (skipBlank (← expect? '=' rest))
    return (← d.set? path key value, ← endOfLine? rest)

def expressions? : Nat → Draft → List Char → Option Draft
  | 0, _, _ => none
  | fuel + 1, d, s =>
    match skipLines fuel s with
    | [] => some d
    | s => do
      let (d, rest) ← expression? fuel d s
      expressions? fuel d rest

/-- Reads a document; a byte order mark before it is passed over. -/
def read? (text : String) : Option Entries := do
  let s := match text.toList with
    | '\ufeff' :: rest => rest
    | s => s
  (← expressions? (2 * s.length + 2) .empty s).close?

end Adf.Toml

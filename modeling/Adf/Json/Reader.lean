import Adf.Json.Numeral

/-!
# Reading JSON

The reader takes a text byte by byte. Its state is the list of the open containers, innermost first, and a
`Phase` that says what may come next. `step` takes one byte, `finish` the end of the text; the first byte
that fits no value decides the error. A string's bytes are checked to be UTF-8 when its closing quote comes.

Objects are read into lists sorted by name; of equal names the last counts. `limit` bounds how many
containers may be open at once.
-/

namespace Adf.Json

inductive ReadError where
  | endInValue
  | endInList
  | endInObject
  | endInString
  | valueExpected
  | wordExpected
  | keyExpected
  | colonExpected
  | itemEndExpected
  | memberEndExpected
  | trailingComma
  | trailingText
  | badNumber
  | numberTooLarge
  | badEscape
  | pairExpected
  | unpairedSurrogate
  | controlCharacter
  | notUtf8
  | tooDeep
deriving DecidableEq, Repr

def ReadError.message : ReadError → String
  | endInValue => "EOF while parsing a value"
  | endInList => "EOF while parsing a list"
  | endInObject => "EOF while parsing an object"
  | endInString => "EOF while parsing a string"
  | valueExpected => "expected value"
  | wordExpected => "expected ident"
  | keyExpected => "key must be a string"
  | colonExpected => "expected `:`"
  | itemEndExpected => "expected `,` or `]`"
  | memberEndExpected => "expected `,` or `\x7d`"
  | trailingComma => "trailing comma"
  | trailingText => "trailing characters"
  | badNumber => "invalid number"
  | numberTooLarge => "number out of range"
  | badEscape => "invalid escape"
  | pairExpected => "unexpected end of hex escape"
  | unpairedSurrogate => "lone leading surrogate in hex escape"
  | controlCharacter => "control character (\\u0000-\\u001F) found while parsing a string"
  | notUtf8 => "invalid unicode code point"
  | tooDeep => "recursion limit exceeded"

/-- A container around the value that is being read. -/
inductive Frame where
  /-- A list with its elements so far, the last one first. -/
  | list (items : List Json)
  /-- An object with its members so far and the name of the next one. -/
  | object (members : List (String × Json)) (name : String)

/-- How far an escape in a string has been read. -/
inductive Escape where
  | none
  | slash
  /-- Hexadecimal digits, the last one first; behind the first half of a surrogate pair if there is one. -/
  | hex (high : Option Nat) (digits : List UInt8)
  /-- After the first half of a surrogate pair. -/
  | pairSlash (high : Nat)
  | pairLetter (high : Nat)

/-- How far a numeral has been read. Digits are kept with the last one first. -/
inductive Digits where
  | sign
  | zero
  | whole (digits : List Nat)
  | point (whole : List Nat)
  | fraction (whole digits : List Nat)
  | mark (whole : List Nat) (fraction : Option (List Nat))
  | exponentSign (whole : List Nat) (fraction : Option (List Nat)) (below : Bool)
  | exponent (whole : List Nat) (fraction : Option (List Nat)) (below : Bool) (digits : List Nat)

/-- What may come next. -/
inductive Phase where
  | value
  /-- An element, behind the bracket or, if there are elements, behind a comma. -/
  | item (items : List Json)
  | itemEnd (items : List Json)
  /-- A name, behind the brace. -/
  | firstKey
  /-- A name, behind a comma. -/
  | nextKey (members : List (String × Json))
  | colon (members : List (String × Json)) (name : String)
  | memberEnd (members : List (String × Json))
  /-- What is left of `true`, `false` or `null`. -/
  | word (next : UInt8) (rest : List UInt8) (value : Json)
  /-- Inside a string, which is a name if it has the members before it; its bytes, the last one first. -/
  | string (key : Option (List (String × Json))) (bytes : List UInt8) (escape : Escape)
  | number (negative : Bool) (digits : Digits)
  /-- Behind the whole value. -/
  | done (value : Json)

structure ReadState where
  phase : Phase
  frames : List Frame

namespace ReadState

def start : ReadState := ⟨.value, []⟩

/-- Hands a complete value to the container around it. -/
def deliver (value : Json) : List Frame → ReadState
  | [] => ⟨.done value, []⟩
  | .list items :: frames => ⟨.itemEnd (value :: items), frames⟩
  | .object members name :: frames => ⟨.memberEnd (insertMember name value members), frames⟩

/-- The four blanks of the grammar. -/
def isBlank (b : UInt8) : Bool :=
  b = 0x20 || b = 0x09 || b = 0x0a || b = 0x0d

def digit? (b : UInt8) : Option Nat :=
  if 0x30 ≤ b ∧ b ≤ 0x39 then some (b.toNat - 0x30) else none

def hexValue? (b : UInt8) : Option Nat :=
  if 0x30 ≤ b ∧ b ≤ 0x39 then some (b.toNat - 0x30)
  else if 0x61 ≤ b ∧ b ≤ 0x66 then some (b.toNat - 0x57)
  else if 0x41 ≤ b ∧ b ≤ 0x46 then some (b.toNat - 0x37)
  else none

/-- The first byte of a value inside the given containers. -/
def beginValue (limit : Nat) (frames : List Frame) (b : UInt8) : Except ReadError ReadState :=
  if b = 0x22 then .ok ⟨.string none [] .none, frames⟩
  else if b = 0x5b then
    if frames.length < limit then .ok ⟨.item [], frames⟩ else .error .tooDeep
  else if b = 0x7b then
    if frames.length < limit then .ok ⟨.firstKey, frames⟩ else .error .tooDeep
  else if b = 0x74 then .ok ⟨.word 0x72 [0x75, 0x65] (.bool true), frames⟩
  else if b = 0x66 then .ok ⟨.word 0x61 [0x6c, 0x73, 0x65] (.bool false), frames⟩
  else if b = 0x6e then .ok ⟨.word 0x75 [0x6c, 0x6c] .null, frames⟩
  else if b = 0x2d then .ok ⟨.number true .sign, frames⟩
  else
    match digit? b with
    | some 0 => .ok ⟨.number false .zero, frames⟩
    | some d => .ok ⟨.number false (.whole [d]), frames⟩
    | none => .error .valueExpected

/-- A byte behind a complete value. -/
def stepEnd (s : ReadState) (b : UInt8) : Except ReadError ReadState :=
  if isBlank b then .ok s
  else
    match s.phase with
    | .itemEnd items =>
      if b = 0x2c then .ok ⟨.item items, s.frames⟩
      else if b = 0x5d then .ok (deliver (.arr items.reverse) s.frames)
      else .error .itemEndExpected
    | .memberEnd members =>
      if b = 0x2c then .ok ⟨.nextKey members, s.frames⟩
      else if b = 0x7d then .ok (deliver (.obj members) s.frames)
      else .error .memberEndExpected
    | _ => .error .trailingText

/-- The scalar value of four hexadecimal digits, the last one first. -/
def hexNumber? (digits : List UInt8) : Option Nat :=
  digits.foldr (fun b n => do return (← n) * 16 + (← hexValue? b)) (some 0)

/-- Adds a character's bytes to those of a string, the last one first. -/
def pushChar (bytes : List UInt8) (code : Nat) : List UInt8 :=
  (String.utf8EncodeChar (Char.ofNat code)).reverse ++ bytes

/-- A byte inside a string that is not part of an escape so far. -/
def stepText (key : Option (List (String × Json))) (bytes : List UInt8) (frames : List Frame)
    (b : UInt8) : Except ReadError ReadState :=
  if b = 0x22 then
    match String.fromUTF8? ⟨bytes.reverse.toArray⟩ with
    | none => .error .notUtf8
    | some text =>
      match key with
      | none => .ok (deliver (.str text) frames)
      | some members => .ok ⟨.colon members text, frames⟩
  else if b = 0x5c then .ok ⟨.string key bytes .slash, frames⟩
  else if b < 0x20 then .error .controlCharacter
  else .ok ⟨.string key (b :: bytes) .none, frames⟩

/-- The letter behind a backslash. -/
def stepEscape (bytes : List UInt8) (b : UInt8) : Except ReadError (List UInt8 × Escape) :=
  if b = 0x22 ∨ b = 0x5c ∨ b = 0x2f then .ok (b :: bytes, .none)
  else if b = 0x62 then .ok (0x08 :: bytes, .none)
  else if b = 0x66 then .ok (0x0c :: bytes, .none)
  else if b = 0x6e then .ok (0x0a :: bytes, .none)
  else if b = 0x72 then .ok (0x0d :: bytes, .none)
  else if b = 0x74 then .ok (0x09 :: bytes, .none)
  else if b = 0x75 then .ok (bytes, .hex none [])
  else .error .badEscape

/-- The four digits of an escape, behind the first half of a surrogate pair if there is one. -/
def stepHex (bytes : List UInt8) (high : Option Nat) (digits : List UInt8) :
    Except ReadError (List UInt8 × Escape) :=
  match hexNumber? digits, high with
  | none, _ => .error .badEscape
  | some code, none =>
    if 0xdc00 ≤ code ∧ code ≤ 0xdfff then .error .unpairedSurrogate
    else if 0xd800 ≤ code ∧ code ≤ 0xdbff then .ok (bytes, .pairSlash code)
    else .ok (pushChar bytes code, .none)
  | some low, some high =>
    if 0xdc00 ≤ low ∧ low ≤ 0xdfff then
      .ok (pushChar bytes (0x10000 + (high - 0xd800) * 0x400 + (low - 0xdc00)), .none)
    else .error .unpairedSurrogate

/-- A byte inside a string. -/
def stepString (key : Option (List (String × Json))) (bytes : List UInt8) (escape : Escape)
    (frames : List Frame) (b : UInt8) : Except ReadError ReadState :=
  match escape with
  | .none => stepText key bytes frames b
  | .slash => do
    let (bytes, escape) ← stepEscape bytes b
    return ⟨.string key bytes escape, frames⟩
  | .hex high digits =>
    if digits.length < 3 then .ok ⟨.string key bytes (.hex high (b :: digits)), frames⟩
    else do
      let (bytes, escape) ← stepHex bytes high (b :: digits)
      return ⟨.string key bytes escape, frames⟩
  | .pairSlash high =>
    if b = 0x5c then .ok ⟨.string key bytes (.pairLetter high), frames⟩ else .error .pairExpected
  | .pairLetter high =>
    if b = 0x75 then .ok ⟨.string key bytes (.hex (some high) []), frames⟩ else .error .pairExpected

/-- The numeral that has been read so far, if it may end here. -/
def numeral? (negative : Bool) : Digits → Option Numeral
  | .zero => some ⟨negative, [0], none, none⟩
  | .whole digits => some ⟨negative, digits.reverse, none, none⟩
  | .fraction whole digits => some ⟨negative, whole.reverse, some digits.reverse, none⟩
  | .exponent whole fraction below digits =>
    some ⟨negative, whole.reverse, fraction.map List.reverse, some (below, digits.reverse)⟩
  | _ => none

/-- Delivers a numeral that ends here. -/
def endNumber (negative : Bool) (digits : Digits) (frames : List Frame) (error : ReadError) :
    Except ReadError ReadState :=
  match numeral? negative digits with
  | none => .error error
  | some n =>
    match n.value? with
    | none => .error .numberTooLarge
    | some value => .ok (deliver (.num value) frames)

/-- The digits with one byte more, if it belongs to the numeral. -/
def extend? (digits : Digits) (b : UInt8) : Option Digits :=
  let point := b = 0x2e
  let mark := b = 0x65 ∨ b = 0x45
  match digits, digit? b with
  | .sign, some 0 => some .zero
  | .sign, some d => some (.whole [d])
  | .sign, none => none
  | .zero, some _ => none
  | .zero, none => if point then some (.point [0]) else if mark then some (.mark [0] none) else none
  | .whole ds, some d => some (.whole (d :: ds))
  | .whole ds, none => if point then some (.point ds) else if mark then some (.mark ds none) else none
  | .point ds, some d => some (.fraction ds [d])
  | .point _, none => none
  | .fraction ds fs, some d => some (.fraction ds (d :: fs))
  | .fraction ds fs, none => if mark then some (.mark ds (some fs)) else none
  | .mark ds fs, some d => some (.exponent ds fs false [d])
  | .mark ds fs, none =>
    if b = 0x2b then some (.exponentSign ds fs false)
    else if b = 0x2d then some (.exponentSign ds fs true)
    else none
  | .exponentSign ds fs below, some d => some (.exponent ds fs below [d])
  | .exponentSign _ _ _, none => none
  | .exponent ds fs below es, some d => some (.exponent ds fs below (d :: es))
  | .exponent _ _ _ _, none => none

/-- A byte inside or behind a numeral. A zero in front takes no further digit. -/
def stepNumber (negative : Bool) (digits : Digits) (frames : List Frame) (b : UInt8) :
    Except ReadError ReadState :=
  match extend? digits b with
  | some next => .ok ⟨.number negative next, frames⟩
  | none =>
    match digits, digit? b with
    | .zero, some _ => .error .badNumber
    | _, _ => do stepEnd (← endNumber negative digits frames .badNumber) b

def step (limit : Nat) (s : ReadState) (b : UInt8) : Except ReadError ReadState :=
  match s.phase with
  | .value => if isBlank b then .ok s else beginValue limit s.frames b
  | .item items =>
    if isBlank b then .ok s
    else if b = 0x5d then
      match items with
      | [] => .ok (deliver (.arr []) s.frames)
      | _ :: _ => .error .trailingComma
    else beginValue limit (.list items :: s.frames) b
  | .firstKey =>
    if isBlank b then .ok s
    else if b = 0x22 then .ok ⟨.string (some []) [] .none, s.frames⟩
    else if b = 0x7d then .ok (deliver (.obj []) s.frames)
    else .error .keyExpected
  | .nextKey members =>
    if isBlank b then .ok s
    else if b = 0x22 then .ok ⟨.string (some members) [] .none, s.frames⟩
    else if b = 0x7d then .error .trailingComma
    else .error .keyExpected
  | .colon members name =>
    if isBlank b then .ok s
    else if b = 0x3a then .ok ⟨.value, .object members name :: s.frames⟩
    else .error .colonExpected
  | .word next rest value =>
    if b = next then
      match rest with
      | [] => .ok (deliver value s.frames)
      | c :: rest => .ok ⟨.word c rest value, s.frames⟩
    else .error .wordExpected
  | .string key bytes escape => stepString key bytes escape s.frames b
  | .number negative digits => stepNumber negative digits s.frames b
  | .itemEnd _ | .memberEnd _ | .done _ => stepEnd s b

/-- The error for a text that ends behind a value, or the value if nothing is open around it. -/
def finishEnd : ReadState → Except ReadError Json
  | ⟨.done value, _⟩ => .ok value
  | ⟨.itemEnd _, _⟩ => .error .endInList
  | ⟨.memberEnd _, _⟩ => .error .endInObject
  | _ => .error .endInValue

/-- The text ends here. -/
def finish (s : ReadState) : Except ReadError Json :=
  match s.phase with
  | .item [] => .error .endInList
  | .firstKey | .colon _ _ => .error .endInObject
  | .string _ _ _ => .error .endInString
  | .number negative digits => do finishEnd (← endNumber negative digits s.frames .endInValue)
  | _ => finishEnd s

end ReadState

/-- Reads one value that fills the whole text. -/
def read (limit : Nat) (bytes : List UInt8) : Except ReadError Json := do
  (← bytes.foldlM (ReadState.step limit) ReadState.start).finish

/-- What is read of a text that has an error, with the byte that causes it. -/
def readPart (limit : Nat) (s : ReadState) : List UInt8 → List UInt8
  | [] => []
  | b :: rest =>
    match s.step limit b with
    | .ok next => b :: readPart limit next rest
    | .error _ => [b]

/-- A text's last place: its line, and the bytes of that line. -/
def lastPlace (bytes : List UInt8) : Nat × Nat :=
  (bytes.count 0x0a + 1, (bytes.reverse.takeWhile (· ≠ 0x0a)).length)

/-- An error of a text and where it is. -/
def ReadError.messageIn (limit : Nat) (bytes : List UInt8) (e : ReadError) : String :=
  let (line, column) := lastPlace (readPart limit ReadState.start bytes)
  s!"{e.message} at line {line} column {column}"

/-- How many containers a text may have open at once. -/
def depthLimit : Nat := 127

end Adf.Json

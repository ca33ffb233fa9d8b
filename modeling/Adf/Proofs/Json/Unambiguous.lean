import Adf.Proofs.Json.Reading

/-!
# A text is written for one value

The reader forgets the order of the members of an object. The text does not: where the numbers of a value are
unsigned integers, no other value has the same text, members in another order included (`text_inj`). A value
can be told from its first characters on, whatever stands behind it, if that does not go on with a number.
-/

namespace Adf.Json

/-! ## Numbers -/

/-- The characters of numbers. -/
def isNumeric (c : Char) : Bool :=
  c.isDigit || c = '.' || c = '-'

/-- What follows does not go on with a number. -/
def Ends (rest : List Char) : Prop :=
  ∀ c ∈ rest.head?, isNumeric c = false

theorem ends_cons {c : Char} {rest : List Char} (h : isNumeric c = false) : Ends (c :: rest) := by
  rintro _ ⟨⟩
  exact h

theorem isNumeric_of_mem_toDigits {n : Nat} : ∀ c ∈ Nat.toDigits 10 n, isNumeric c = true := by
  intro c hc
  rw [isNumeric, Nat.isDigit_of_mem_toDigits (by decide) (by decide) hc]
  rfl

theorem isNumeric_of_mem_toString {n : Nat} : ∀ c ∈ (toString n).toList, isNumeric c = true := by
  rw [Nat.toString_eq_repr, Nat.toList_repr]
  exact isNumeric_of_mem_toDigits

theorem isNumeric_of_mem_zeros (n : Nat) : ∀ c ∈ ("".pushn '0' n).toList, isNumeric c = true := by
  induction n with
  | zero => exact List.forall_mem_nil _
  | succ n ih =>
    rw [String.pushn_eq_repeat_push, Nat.repeat, String.toList_push, ← String.pushn_eq_repeat_push]
    exact List.forall_mem_append.mpr ⟨ih, List.forall_mem_singleton.mpr rfl⟩

theorem isNumeric_of_mem_positional (digits : Nat) (k : Int) :
    ∀ c ∈ (Decimal.positional digits k).toList, isNumeric c = true := by
  rw [Decimal.positional]
  split
  · exact isNumeric_of_mem_toString
  · simp only [String.toList_append, List.forall_mem_append]
    exact ⟨⟨⟨isNumeric_of_mem_toString, List.all_eq_true.mp rfl⟩, isNumeric_of_mem_zeros _⟩,
      isNumeric_of_mem_toString⟩

theorem isNumeric_of_mem_text (x : Float) : ∀ c ∈ (Decimal.text x).toList, isNumeric c = true := by
  have hbody : ∀ m : Decimal.Magnitude, ∀ c ∈ (if m.significand = 0 then "0"
      else Decimal.positional m.shortest.1 m.shortest.2).toList, isNumeric c = true := by
    intro m
    split
    · exact List.all_eq_true.mp rfl
    · exact isNumeric_of_mem_positional _ _
  rw [Decimal.text]
  dsimp only
  split
  · rw [String.toList_append]
    exact List.forall_mem_append.mpr ⟨List.all_eq_true.mp rfl, hbody _⟩
  · exact hbody _

theorem isNumeric_of_mem_numberChars (n : Number) : ∀ c ∈ numberChars n, isNumeric c = true := by
  cases n with
  | int z =>
    rw [numberChars, Int.toString_eq_repr, Int.repr_eq_if]
    split
    · rw [Nat.toList_repr]
      exact isNumeric_of_mem_toDigits
    · rw [String.toList_append, Nat.toList_repr]
      exact List.forall_mem_append.mpr ⟨List.all_eq_true.mp rfl, isNumeric_of_mem_toDigits⟩
  | float x =>
    rw [numberChars]
    split
    · exact isNumeric_of_mem_text x
    · exact List.forall_mem_append.mpr ⟨isNumeric_of_mem_text x, List.all_eq_true.mp rfl⟩

/-- Only a natural number is written with digits alone. -/
theorem eq_of_numberChars {n : Number} {k : Nat} (h : numberChars n = Nat.toDigits 10 k) : n = .int k := by
  have hdigit : ∀ c ∈ numberChars n, c.isDigit = true := by
    rw [h]
    exact fun c hc => Nat.isDigit_of_mem_toDigits (by decide) (by decide) hc
  cases n with
  | int z =>
    rw [numberChars, Int.toString_eq_repr, Int.repr_eq_if] at h hdigit
    split at h
    · rename_i hz
      rw [Nat.toList_repr] at h
      have hvalue : z.toNat = k := by
        rw [← @Nat.ofDigitChars_ten_toDigits z.toNat, h, Nat.ofDigitChars_ten_toDigits]
      rw [← hvalue, Int.toNat_of_nonneg hz]
    · rename_i hz
      rw [if_neg hz, String.toList_append] at hdigit
      have hminus := hdigit '-' (List.mem_append_left _ List.mem_cons_self)
      contradiction
  | float x =>
    have hpoint : '.' ∈ numberChars (.float x) := by
      rw [numberChars]
      split
      · rename_i hcontains
        exact List.contains_iff_mem.mp hcontains
      · exact List.mem_append_right _ List.mem_cons_self
    have hdot := hdigit '.' hpoint
    contradiction

/-- Two runs of numeric characters are one if what follows them ends a number. -/
theorem append_inj_of_numeric {a b r s : List Char} (ha : ∀ c ∈ a, isNumeric c = true)
    (hb : ∀ c ∈ b, isNumeric c = true) (hr : Ends r) (hs : Ends s) (h : a ++ r = b ++ s) : a = b ∧ r = s := by
  have htake : ∀ {run rest : List Char}, (∀ c ∈ run, isNumeric c = true) → Ends rest →
      (run ++ rest).takeWhile isNumeric = run := by
    intro run rest hrun hrest
    rw [List.takeWhile_append_of_pos hrun]
    cases rest with
    | nil => rw [List.takeWhile_nil, List.append_nil]
    | cons c rest => rw [List.takeWhile_cons_of_neg (by simp [hrest c rfl]), List.append_nil]
  have hrun : a = b := by rw [← htake ha hr, h, htake hb hs]
  subst hrun
  exact ⟨rfl, List.append_cancel_left h⟩

/-! ## Strings -/

/-- The value of a hexadecimal digit. -/
def hexDigitValue (c : Char) : Nat := (ReadState.hexValue? c.toUInt8).getD 0

/-- Takes back the written form of one character. No character is written as a quote alone. -/
def unescape? : List Char → Option (Char × List Char)
  | '"' :: _ => none
  | '\\' :: '"' :: rest => some ('"', rest)
  | '\\' :: '\\' :: rest => some ('\\', rest)
  | '\\' :: 'b' :: rest => some ('\x08', rest)
  | '\\' :: 't' :: rest => some ('\t', rest)
  | '\\' :: 'n' :: rest => some ('\n', rest)
  | '\\' :: 'f' :: rest => some ('\x0c', rest)
  | '\\' :: 'r' :: rest => some ('\r', rest)
  | '\\' :: 'u' :: '0' :: '0' :: high :: low :: rest =>
    some (Char.ofNat (hexDigitValue high * 16 + hexDigitValue low), rest)
  | c :: rest => some (c, rest)
  | [] => none

theorem unescape?_escape (c : Char) (rest : List Char) : unescape? (escape c ++ rest) = some (c, rest) := by
  cases escaped c with
  | letter hc => obtain rfl | rfl | rfl | rfl | rfl | rfl | rfl := hc <;> rfl
  | plain hlow hquote hslash hc =>
    rw [hc, List.singleton_append]
    unfold unescape?
    split <;> simp_all
  | control hlow hc =>
    have hvalue : ∀ n < 16, hexDigitValue (hexDigit n) = n := by decide
    have hsum : c.toNat / 16 * 16 + c.toNat % 16 = c.toNat := by omega
    have hcode : unescape? (escape c ++ rest) = some (Char.ofNat (hexDigitValue (hexDigit (c.toNat / 16)) * 16 +
        hexDigitValue (hexDigit (c.toNat % 16))), rest) := by
      rw [hc]
      rfl
    rw [hcode, hvalue _ (by omega), hvalue _ (by omega), hsum, Char.ofNat_toNat]

theorem escapes_append_inj {cs ds r s : List Char}
    (h : cs.flatMap escape ++ '"' :: r = ds.flatMap escape ++ '"' :: s) : cs = ds ∧ r = s := by
  have hfirst := congrArg unescape? h
  induction cs generalizing ds with
  | nil =>
    cases ds with
    | nil => exact ⟨rfl, (List.cons.inj h).2⟩
    | cons d ds =>
      rw [List.flatMap_cons, List.append_assoc, unescape?_escape] at hfirst
      contradiction
  | cons c cs ih =>
    rw [List.flatMap_cons, List.append_assoc, unescape?_escape] at hfirst
    cases ds with
    | nil => contradiction
    | cons d ds =>
      rw [List.flatMap_cons, List.append_assoc, unescape?_escape] at hfirst
      obtain ⟨rfl, hrest⟩ := Prod.mk.inj (Option.some.inj hfirst)
      obtain ⟨rfl, rfl⟩ := ih hrest (congrArg unescape? hrest)
      exact ⟨rfl, rfl⟩

theorem quoted_append_inj {a b : String} {r s : List Char} (h : quoted a ++ r = quoted b ++ s) :
    a = b ∧ r = s := by
  rw [quoted, quoted, List.append_assoc, List.append_assoc] at h
  obtain ⟨hchars, hrest⟩ := escapes_append_inj (List.cons.inj h).2
  exact ⟨String.toList_inj.mp hchars, hrest⟩

/-! ## The first character of a value -/

/-- The type of the values that begin with the character. -/
def typeNameFrom? (c : Char) : Option String :=
  if c = 'n' then some "null"
  else if c = 't' ∨ c = 'f' then some "boolean"
  else if c = '"' then some "string"
  else if c = '[' then some "array"
  else if c = '\x7b' then some "object"
  else if isNumeric c then some "number"
  else none

theorem typeNameFrom?_of_isNumeric {c : Char} (h : isNumeric c = true) : typeNameFrom? c = some "number" := by
  have hother : ∀ d ∈ ['n', 't', 'f', '"', '[', '\x7b'], (!isNumeric d) = true := List.all_eq_true.mp rfl
  have hne : ∀ d ∈ ['n', 't', 'f', '"', '[', '\x7b'], c ≠ d := by
    rintro d hd rfl
    have hnot := hother c hd
    rw [h] at hnot
    exact Bool.false_ne_true hnot
  simp_all [typeNameFrom?]

theorem numberChars_ne_nil (n : Number) : numberChars n ≠ [] := by
  cases n with
  | int z =>
    rw [numberChars, Int.toString_eq_repr, Int.repr_eq_if]
    split
    · rw [Nat.toList_repr]
      exact Nat.toDigits_ne_nil
    · rw [String.toList_append]
      exact List.append_ne_nil_of_left_ne_nil (by decide) _
  | float x =>
    rw [numberChars]
    split
    · rename_i hcontains
      exact List.ne_nil_of_mem (List.contains_iff_mem.mp hcontains)
    · exact List.append_ne_nil_of_right_ne_nil _ (List.cons_ne_nil _ _)

theorem exists_chars_eq_cons (style : Style) (level : Nat) (v : Json) :
    ∃ c rest, chars style level v = c :: rest ∧ typeNameFrom? c = some v.typeName := by
  match v with
  | .null | .bool true | .bool false | .str _ | .arr [] | .arr (_ :: _) | .obj [] | .obj ((_, _) :: _) =>
    exact ⟨_, _, rfl, rfl⟩
  | .num n =>
    obtain ⟨c, rest, hn⟩ := List.exists_cons_of_ne_nil (numberChars_ne_nil n)
    have hc : isNumeric c = true := isNumeric_of_mem_numberChars n c (by rw [hn]; exact List.mem_cons_self)
    exact ⟨c, rest, by rw [chars, hn], typeNameFrom?_of_isNumeric hc⟩

/-! ## Lines -/

section

variable {style : Style} (hstyle : style.Blank) {level : Nat} {c d : Char} {r s : List Char}

include hstyle

theorem isWhitespace_of_mem_line : ∀ c ∈ style.line level, c.isWhitespace = true := by
  intro c hc
  obtain ⟨b, hb⟩ := List.exists_mem_of_ne_nil _ (@String.utf8EncodeChar_ne_nil c)
  have hblank : ReadState.isBlank b = true := hstyle.line level b (List.mem_flatMap.mpr ⟨c, hc, hb⟩)
  by_cases hascii : c.val.toNat ≤ 0x7f
  · rw [utf8EncodeChar_of_ascii hascii, List.mem_singleton] at hb
    have hall : ∀ n ≤ 0x7f, ReadState.isBlank (UInt8.ofNat n) = true → (Char.ofNat n).isWhitespace = true := by
      decide
    have hc := hall c.val.toNat hascii (hb ▸ hblank)
    rwa [show Char.ofNat c.val.toNat = c from Char.ofNat_toNat c] at hc
  · have hhigh := le_of_mem_utf8EncodeChar (Nat.lt_of_not_le hascii) b hb
    have hlow : ∀ b : UInt8, ReadState.isBlank b = true → b.toNat < 0x80 := by
      intro b hb
      simp only [ReadState.isBlank, Bool.or_eq_true, decide_eq_true_eq] at hb
      obtain ((rfl | rfl) | rfl) | rfl := hb <;> decide
    exact absurd (hlow b hblank) (Nat.not_lt.mpr hhigh)

/-- Behind a line there is a blank or what stands after it. -/
theorem isWhitespace_or_eq (h : d :: s = style.line level ++ c :: r) : d.isWhitespace = true ∨ d = c := by
  cases hline : style.line level with
  | nil =>
    rw [hline] at h
    exact Or.inr (List.cons.inj h).1
  | cons blank rest =>
    rw [hline] at h
    rw [(List.cons.inj h).1]
    exact Or.inl (isWhitespace_of_mem_line hstyle blank (hline ▸ List.mem_cons_self))

theorem ends_line (hc : isNumeric c = false) : Ends (style.line level ++ c :: r) := by
  intro d hd
  obtain ⟨s, hs⟩ := List.head?_eq_some_iff.mp hd
  obtain hblank | rfl := isWhitespace_or_eq hstyle hs.symm
  · simp only [Char.isWhitespace, Bool.or_eq_true, decide_eq_true_eq] at hblank
    obtain ((rfl | rfl) | rfl) | rfl := hblank <;> rfl
  · exact hc

end

/-! ## Lists and objects -/

section

variable (style : Style) (level : Nat) (rest : List Json) (members : List (String × Json)) (tail : List Char)

theorem chars_list (item : Json) : chars style level (.arr (item :: rest)) ++ tail =
    '[' :: (style.line (level + 1) ++ (chars style (level + 1) item ++
      (itemChars style (level + 1) rest ++ (style.line level ++ ']' :: tail)))) := by
  simp [chars]

theorem itemChars_cons (item : Json) : itemChars style level (item :: rest) ++ tail =
    ',' :: (style.line level ++ (chars style level item ++ (itemChars style level rest ++ tail))) := by
  simp [itemChars]

theorem chars_object (name : String) (value : Json) :
    chars style level (.obj ((name, value) :: members)) ++ tail =
      '\x7b' :: (style.line (level + 1) ++ (quoted name ++ (style.colon ++ (chars style (level + 1) value ++
        (memberChars style (level + 1) members ++ (style.line level ++ '\x7d' :: tail)))))) := by
  simp [chars]

theorem memberChars_cons (name : String) (value : Json) :
    memberChars style level ((name, value) :: members) ++ tail =
      ',' :: (style.line level ++ (quoted name ++ (style.colon ++ (chars style level value ++
        (memberChars style level members ++ tail))))) := by
  simp [memberChars]

end

section

variable {style : Style} (hstyle : style.Blank) {inner level : Nat} {r s : List Char}

include hstyle

theorem ends_items {close : Char} (hclose : isNumeric close = false) (rest : List Json) :
    Ends (itemChars style inner rest ++ (style.line level ++ close :: r)) := by
  cases rest with
  | nil => exact ends_line hstyle hclose
  | cons item rest => exact ends_cons rfl

theorem ends_members {close : Char} (hclose : isNumeric close = false) (rest : List (String × Json)) :
    Ends (memberChars style inner rest ++ (style.line level ++ close :: r)) := by
  cases rest with
  | nil => exact ends_line hstyle hclose
  | cons member rest => exact ends_cons rfl

/-- No list that has elements begins like the empty one. -/
theorem ne_line_chars (v : Json) : ']' :: r ≠ style.line level ++ (chars style level v ++ s) := by
  intro h
  obtain ⟨c, rest, hv, hc⟩ := exists_chars_eq_cons style level v
  rw [hv] at h
  obtain hblank | rfl := isWhitespace_or_eq hstyle h
  · contradiction
  · contradiction

theorem ne_line_quoted (name : String) : '\x7d' :: r ≠ style.line level ++ (quoted name ++ s) := by
  intro h
  obtain hblank | hquote := isWhitespace_or_eq hstyle h <;> contradiction

/-- What closes a container is not taken for a comma. -/
theorem comma_ne_line {close : Char} (hclose : ',' ≠ close) : ',' :: s ≠ style.line level ++ close :: r := by
  intro h
  obtain hblank | hcomma := isWhitespace_or_eq hstyle h <;> contradiction

end

/-! ## Values -/

theorem typeName_eq_of_chars {style : Style} {level : Nat} {v w : Json} {r s : List Char}
    (h : chars style level v ++ r = chars style level w ++ s) : v.typeName = w.typeName := by
  obtain ⟨c, rest, hv, hc⟩ := exists_chars_eq_cons style level v
  obtain ⟨d, rest', hw, hd⟩ := exists_chars_eq_cons style level w
  rw [hv, hw] at h
  rw [(List.cons.inj h).1, hd] at hc
  exact (Option.some.inj hc).symm

theorem number_append_inj {m n : Number} (hn : n.toUInt64?.isSome = true) {r s : List Char} (hr : Ends r)
    (hs : Ends s) (h : numberChars m ++ r = numberChars n ++ s) : m = n ∧ r = s := by
  obtain ⟨hchars, hrest⟩ :=
    append_inj_of_numeric (isNumeric_of_mem_numberChars m) (isNumeric_of_mem_numberChars n) hr hs h
  obtain ⟨k, -, rfl⟩ := ReadState.toUInt64?_isSome hn
  exact ⟨eq_of_numberChars (hchars.trans Nat.toList_repr), hrest⟩

section

variable {style : Style}

mutual

/-- A value and what stands behind it can be told from the text of both. -/
theorem chars_append_inj (hstyle : style.Blank) (level : Nat) {v w : Json} (hw : w.unsigned = true)
    {r s : List Char} (hr : Ends r) (hs : Ends s)
    (h : chars style level v ++ r = chars style level w ++ s) : v = w ∧ r = s := by
  have htype := typeName_eq_of_chars h
  -- values of different types are apart already
  cases v <;> cases w <;> try simp [typeName] at htype
  case null.null => exact ⟨rfl, List.append_cancel_left h⟩
  case bool.bool a b => cases a <;> cases b <;> simp_all [chars]
  case num.num m n =>
    obtain ⟨rfl, hrest⟩ := number_append_inj hw hr hs h
    exact ⟨rfl, hrest⟩
  case str.str a b =>
    obtain ⟨rfl, hrest⟩ := quoted_append_inj h
    exact ⟨rfl, hrest⟩
  case arr.arr xs ys =>
    obtain ⟨rfl, hrest⟩ := list_append_inj hstyle level hw h
    exact ⟨rfl, hrest⟩
  case obj.obj xs ys =>
    obtain ⟨rfl, hrest⟩ := object_append_inj hstyle level hw h
    exact ⟨rfl, hrest⟩
termination_by structural v

theorem list_append_inj (hstyle : style.Blank) (level : Nat) {xs ys : List Json}
    (hys : unsignedItems ys = true) {r s : List Char}
    (h : chars style level (.arr xs) ++ r = chars style level (.arr ys) ++ s) : xs = ys ∧ r = s := by
  match xs, ys, hys with
  | [], [], _ => exact ⟨rfl, List.append_cancel_left h⟩
  | [], y :: ys, _ =>
    rw [chars_list] at h
    exact absurd (List.cons.inj h).2 (ne_line_chars hstyle y)
  | x :: xs, [], _ =>
    rw [chars_list] at h
    exact absurd (List.cons.inj h).2.symm (ne_line_chars hstyle x)
  | x :: xs, y :: ys, hys =>
    obtain ⟨hy, hrest⟩ := Bool.and_eq_true_iff.mp hys
    rw [chars_list, chars_list] at h
    obtain ⟨rfl, hitems⟩ := chars_append_inj hstyle (level + 1) hy (ends_items hstyle rfl xs)
      (ends_items hstyle rfl ys) (List.append_cancel_left (List.cons.inj h).2)
    obtain ⟨rfl, htail⟩ := itemChars_append_inj hstyle (level + 1) level hrest hitems
    exact ⟨rfl, htail⟩
termination_by structural xs

theorem itemChars_append_inj (hstyle : style.Blank) (inner level : Nat) {xs ys : List Json}
    (hys : unsignedItems ys = true) {r s : List Char}
    (h : itemChars style inner xs ++ (style.line level ++ ']' :: r) =
      itemChars style inner ys ++ (style.line level ++ ']' :: s)) : xs = ys ∧ r = s := by
  match xs, ys, hys with
  | [], [], _ => exact ⟨rfl, (List.cons.inj (List.append_cancel_left h)).2⟩
  | [], y :: ys, _ =>
    rw [itemChars_cons] at h
    exact absurd h.symm (comma_ne_line hstyle (by decide))
  | x :: xs, [], _ =>
    rw [itemChars_cons] at h
    exact absurd h (comma_ne_line hstyle (by decide))
  | x :: xs, y :: ys, hys =>
    obtain ⟨hy, hrest⟩ := Bool.and_eq_true_iff.mp hys
    rw [itemChars_cons, itemChars_cons] at h
    obtain ⟨rfl, hitems⟩ := chars_append_inj hstyle inner hy (ends_items hstyle rfl xs)
      (ends_items hstyle rfl ys) (List.append_cancel_left (List.cons.inj h).2)
    obtain ⟨rfl, htail⟩ := itemChars_append_inj hstyle inner level hrest hitems
    exact ⟨rfl, htail⟩
termination_by structural xs

theorem object_append_inj (hstyle : style.Blank) (level : Nat) {xs ys : List (String × Json)}
    (hys : unsignedMembers ys = true) {r s : List Char}
    (h : chars style level (.obj xs) ++ r = chars style level (.obj ys) ++ s) :
    xs = ys ∧ r = s := by
  match xs, ys, hys with
  | [], [], _ => exact ⟨rfl, List.append_cancel_left h⟩
  | [], (name, value) :: ys, _ =>
    rw [chars_object] at h
    exact absurd (List.cons.inj h).2 (ne_line_quoted hstyle name)
  | (name, value) :: xs, [], _ =>
    rw [chars_object] at h
    exact absurd (List.cons.inj h).2.symm (ne_line_quoted hstyle name)
  | (name, value) :: xs, (name', value') :: ys, hys =>
    obtain ⟨hvalue, hrest⟩ := Bool.and_eq_true_iff.mp hys
    rw [chars_object, chars_object] at h
    obtain ⟨rfl, hmember⟩ := quoted_append_inj (List.append_cancel_left (List.cons.inj h).2)
    obtain ⟨rfl, hmembers⟩ := chars_append_inj hstyle (level + 1) hvalue (ends_members hstyle rfl xs)
      (ends_members hstyle rfl ys) (List.append_cancel_left hmember)
    obtain ⟨rfl, htail⟩ := memberChars_append_inj hstyle (level + 1) level hrest hmembers
    exact ⟨rfl, htail⟩
termination_by structural xs

theorem memberChars_append_inj (hstyle : style.Blank) (inner level : Nat) {xs ys : List (String × Json)}
    (hys : unsignedMembers ys = true) {r s : List Char}
    (h : memberChars style inner xs ++ (style.line level ++ '\x7d' :: r) =
      memberChars style inner ys ++ (style.line level ++ '\x7d' :: s)) : xs = ys ∧ r = s := by
  match xs, ys, hys with
  | [], [], _ => exact ⟨rfl, (List.cons.inj (List.append_cancel_left h)).2⟩
  | [], (name, value) :: ys, _ =>
    rw [memberChars_cons] at h
    exact absurd h.symm (comma_ne_line hstyle (by decide))
  | (name, value) :: xs, [], _ =>
    rw [memberChars_cons] at h
    exact absurd h (comma_ne_line hstyle (by decide))
  | (name, value) :: xs, (name', value') :: ys, hys =>
    obtain ⟨hvalue, hrest⟩ := Bool.and_eq_true_iff.mp hys
    rw [memberChars_cons, memberChars_cons] at h
    obtain ⟨rfl, hmember⟩ := quoted_append_inj (List.append_cancel_left (List.cons.inj h).2)
    obtain ⟨rfl, hmembers⟩ := chars_append_inj hstyle inner hvalue (ends_members hstyle rfl xs)
      (ends_members hstyle rfl ys) (List.append_cancel_left hmember)
    obtain ⟨rfl, htail⟩ := memberChars_append_inj hstyle inner level hrest hmembers
    exact ⟨rfl, htail⟩
termination_by structural xs

end

/-- **A text is written for one value**, the order of its members included. -/
theorem text_inj (hstyle : style.Blank) {v w : Json} (hw : w.unsigned = true)
    (h : v.text style = w.text style) : v = w := by
  have hchars : chars style 0 v ++ [] = chars style 0 w ++ [] := by
    rw [List.append_nil, List.append_nil]
    exact String.ofList_inj.mp h
  have hends : Ends [] := nofun
  exact (chars_append_inj hstyle 0 hw hends hends hchars).1

end

end Adf.Json

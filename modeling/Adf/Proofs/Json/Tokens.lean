import Adf.Json.Writer
import Adf.Proofs.Json.Bytes
import Mathlib.Data.Nat.Digits.Defs

/-!
# Reading back the written tokens

`reads` is what becomes of a reader's state on the rest of a text. Each lemma takes a token off the front of
that rest: blanks leave the state as it is, a written string gives the string back, and the digits of an
unsigned 64-bit integer give that integer. A numeral ends only where the next byte does not go on with it, so
what follows it has to be `Delimited`.
-/

namespace Adf.Json

/-! ## Escapes -/

/-- How a character of a string is written. -/
inductive Escaped (c : Char) : Prop
  /-- As a backslash and a letter. -/
  | letter (hc : c = '"' ∨ c = '\\' ∨ c = '\x08' ∨ c = '\t' ∨ c = '\n' ∨ c = '\x0c' ∨ c = '\r')
  | plain (hlow : 0x20 ≤ c.toNat) (hquote : c ≠ '"') (hslash : c ≠ '\\') (hc : escape c = [c])
  | control (hlow : c.toNat < 0x20)
      (hc : escape c = ['\\', 'u', '0', '0', hexDigit (c.toNat / 16), hexDigit (c.toNat % 16)])

theorem escaped (c : Char) : Escaped c := by
  by_cases hletter : c = '"' ∨ c = '\\' ∨ c = '\x08' ∨ c = '\t' ∨ c = '\n' ∨ c = '\x0c' ∨ c = '\r'
  · exact .letter hletter
  simp only [not_or] at hletter
  obtain ⟨hquote, hslash, hb, ht, hn, hf, hr⟩ := hletter
  by_cases hlow : 0x20 ≤ c.toNat
  · exact .plain hlow hquote hslash (by simp only [escape, if_neg hquote, if_neg hslash, if_pos hlow])
  · refine .control (Nat.lt_of_not_le hlow) ?_
    simp only [escape, if_neg hquote, if_neg hslash, if_neg hlow, if_neg hb, if_neg ht, if_neg hn, if_neg hf,
      if_neg hr]

end Adf.Json

namespace Adf.Json.ReadState

/-- What is read of the rest of a text. -/
def reads (limit : Nat) (s : ReadState) (bytes : List UInt8) : Except ReadError Json := do
  (← bytes.foldlM (step limit) s).finish

variable {limit : Nat} {s next : ReadState} {frames : List Frame} {tail : List UInt8}

theorem read_eq_reads (limit : Nat) (bytes : List UInt8) : read limit bytes = start.reads limit bytes := rfl

theorem reads_cons_ok {b : UInt8} (h : s.step limit b = .ok next) (tail : List UInt8) :
    s.reads limit (b :: tail) = next.reads limit tail := by
  rw [reads, List.foldlM_cons, h]
  rfl

theorem reads_cons_error {b : UInt8} {e : ReadError} (h : s.step limit b = .error e) (tail : List UInt8) :
    s.reads limit (b :: tail) = .error e := by
  rw [reads, List.foldlM_cons, h]
  rfl

/-! ## Blanks -/

/-- A state that blanks do not change. -/
def Idle (limit : Nat) (s : ReadState) : Prop :=
  ∀ b, isBlank b = true → s.step limit b = .ok s

theorem idle_value : Idle limit ⟨.value, frames⟩ := fun _ hb => if_pos hb

theorem idle_item {items : List Json} : Idle limit ⟨.item items, frames⟩ := fun _ hb => if_pos hb

theorem idle_itemEnd {items : List Json} : Idle limit ⟨.itemEnd items, frames⟩ := fun _ hb => if_pos hb

theorem idle_firstKey : Idle limit ⟨.firstKey, frames⟩ := fun _ hb => if_pos hb

theorem idle_nextKey {members : List (String × Json)} : Idle limit ⟨.nextKey members, frames⟩ :=
  fun _ hb => if_pos hb

theorem idle_memberEnd {members : List (String × Json)} : Idle limit ⟨.memberEnd members, frames⟩ :=
  fun _ hb => if_pos hb

theorem reads_blanks (hs : Idle limit s) {blanks : List UInt8} (h : ∀ b ∈ blanks, isBlank b = true)
    (tail : List UInt8) : s.reads limit (blanks ++ tail) = s.reads limit tail := by
  induction blanks with
  | nil => rfl
  | cons b rest ih =>
    obtain ⟨hb, hrest⟩ := List.forall_mem_cons.mp h
    rw [List.cons_append, reads_cons_ok (hs b hb), ih hrest]

/-! ## Values -/

/-- A state that takes the first byte of a value inside these containers. -/
def Expects (limit : Nat) (s : ReadState) (frames : List Frame) : Prop :=
  ∀ b, isBlank b = false → b ≠ 0x5d → s.step limit b = beginValue limit frames b

theorem expects_value (frames : List Frame) : Expects limit ⟨.value, frames⟩ frames := by
  intro b hblank _
  simp [step, hblank]

theorem expects_item (items : List Json) (frames : List Frame) :
    Expects limit ⟨.item items, frames⟩ (.list items :: frames) := by
  intro b hblank hclose
  simp [step, hblank, hclose]

/-! ## Strings -/

variable {key : Option (List (String × Json))}

theorem step_string_plain {b : UInt8} (h : isPlain b = true) (bytes : List UInt8) :
    step limit ⟨.string key bytes .none, frames⟩ b = .ok ⟨.string key (b :: bytes) .none, frames⟩ := by
  simp only [isPlain, Bool.and_eq_true, decide_eq_true_eq, bne_iff_ne] at h
  obtain ⟨⟨hlow, hquote⟩, hslash⟩ := h
  simp only [step, stepString, stepText, if_neg hquote, if_neg hslash, if_neg (UInt8.not_lt.mpr hlow)]

theorem reads_plain {plain : List UInt8} (h : ∀ b ∈ plain, isPlain b = true) (bytes tail : List UInt8) :
    reads limit ⟨.string key bytes .none, frames⟩ (plain ++ tail) =
      reads limit ⟨.string key (plain.reverse ++ bytes) .none, frames⟩ tail := by
  induction plain generalizing bytes with
  | nil => rfl
  | cons b rest ih =>
    obtain ⟨hb, hrest⟩ := List.forall_mem_cons.mp h
    rw [List.cons_append, reads_cons_ok (step_string_plain hb bytes), ih hrest, List.reverse_cons,
      List.append_assoc]
    rfl

theorem hexDigit_byte : ∀ n < 16, String.utf8EncodeChar (hexDigit n) = [(hexDigit n).toUInt8] ∧
    hexValue? (hexDigit n).toUInt8 = some n := by
  decide

/-- Four digits of which the first two are zeros stand for a control character. -/
theorem stepHex_control {n : Nat} (hn : n < 0x20) (bytes : List UInt8) :
    stepHex bytes none [(hexDigit (n % 16)).toUInt8, (hexDigit (n / 16)).toUInt8, 0x30, 0x30] =
      .ok (pushChar bytes n, .none) := by
  have hlow := (hexDigit_byte (n % 16) (by omega)).2
  have hhigh := (hexDigit_byte (n / 16) (by omega)).2
  have hzero : hexValue? 0x30 = some 0 := rfl
  have hnumber : hexNumber? [(hexDigit (n % 16)).toUInt8, (hexDigit (n / 16)).toUInt8, 0x30, 0x30] =
      some n := by
    have hsum : n / 16 * 16 + n % 16 = n := by omega
    simp [hexNumber?, hlow, hhigh, hzero, hsum]
  have hsecond : ¬(0xdc00 ≤ n ∧ n ≤ 0xdfff) := by omega
  have hfirst : ¬(0xd800 ≤ n ∧ n ≤ 0xdbff) := by omega
  simp only [stepHex, hnumber, if_neg hsecond, if_neg hfirst]

theorem reads_unicodeEscape {c : Char} (hc : c.toNat < 0x20) (bytes tail : List UInt8) :
    reads limit ⟨.string key bytes .none, frames⟩
        (encode ['\\', 'u', '0', '0', hexDigit (c.toNat / 16), hexDigit (c.toNat % 16)] ++ tail) =
      reads limit ⟨.string key ((String.utf8EncodeChar c).reverse ++ bytes) .none, frames⟩ tail := by
  have hbytes : encode ['\\', 'u', '0', '0', hexDigit (c.toNat / 16), hexDigit (c.toNat % 16)] =
      [0x5c, 0x75, 0x30, 0x30, (hexDigit (c.toNat / 16)).toUInt8, (hexDigit (c.toNat % 16)).toUInt8] := by
    have hprefix : encode ['\\', 'u', '0', '0'] = [0x5c, 0x75, 0x30, 0x30] := rfl
    rw [show ['\\', 'u', '0', '0', hexDigit (c.toNat / 16), hexDigit (c.toNat % 16)] =
      ['\\', 'u', '0', '0'] ++ [hexDigit (c.toNat / 16), hexDigit (c.toNat % 16)] from rfl, encode_append,
      hprefix, encode_cons, encode_cons, (hexDigit_byte _ (by omega)).1, (hexDigit_byte _ (by omega)).1]
    rfl
  have hstep : step limit
      ⟨.string key bytes (.hex none [(hexDigit (c.toNat / 16)).toUInt8, 0x30, 0x30]), frames⟩
      (hexDigit (c.toNat % 16)).toUInt8 = .ok ⟨.string key (pushChar bytes c.toNat) .none, frames⟩ := by
    simp [step, stepString, stepHex_control hc]
  have hchar : pushChar bytes c.toNat = (String.utf8EncodeChar c).reverse ++ bytes := by
    rw [pushChar, Char.ofNat_toNat]
  rw [hbytes, ← hchar, ← reads_cons_ok hstep tail]
  rfl

/-- What is written for a character is read as that character. -/
theorem reads_escape (c : Char) (bytes tail : List UInt8) :
    reads limit ⟨.string key bytes .none, frames⟩ (encode (escape c) ++ tail) =
      reads limit ⟨.string key ((String.utf8EncodeChar c).reverse ++ bytes) .none, frames⟩ tail := by
  cases escaped c with
  | letter hc => obtain rfl | rfl | rfl | rfl | rfl | rfl | rfl := hc <;> rfl
  | plain hlow hquote hslash hc =>
    have hplain := isPlain_of_mem_utf8EncodeChar hlow hquote hslash
    rw [hc, encode_cons, encode_nil, List.append_nil, reads_plain hplain]
  | control hlow hc =>
    rw [hc]
    exact reads_unicodeEscape hlow bytes tail

theorem reads_escapes (cs : List Char) (bytes tail : List UInt8) :
    reads limit ⟨.string key bytes .none, frames⟩ (encode (cs.flatMap escape) ++ tail) =
      reads limit ⟨.string key ((encode cs).reverse ++ bytes) .none, frames⟩ tail := by
  induction cs generalizing bytes with
  | nil => rfl
  | cons c rest ih =>
    rw [List.flatMap_cons, encode_append, List.append_assoc, reads_escape, ih, encode_cons,
      List.reverse_append, List.append_assoc]

/-- The state behind a string, which is a name if it has the members before it. -/
def deliverString (key : Option (List (String × Json))) (text : String) (frames : List Frame) : ReadState :=
  match key with
  | none => deliver (.str text) frames
  | some members => ⟨.colon members text, frames⟩

theorem step_closing_quote (key : Option (List (String × Json))) (cs : List Char) (frames : List Frame) :
    step limit ⟨.string key (encode cs).reverse .none, frames⟩ 0x22 =
      .ok (deliverString key (String.ofList cs) frames) := by
  show stepText key (encode cs).reverse frames 0x22 = _
  rw [stepText, if_pos rfl, List.reverse_reverse, fromUTF8?_encode]
  cases key <;> rfl

theorem reads_quoted (key : Option (List (String × Json))) (text : String)
    (hopen : s.step limit 0x22 = .ok ⟨.string key [] .none, frames⟩) (tail : List UInt8) :
    s.reads limit (encode (quoted text) ++ tail) = (deliverString key text frames).reads limit tail := by
  have hbytes : encode (quoted text) ++ tail =
      0x22 :: (encode (text.toList.flatMap escape) ++ 0x22 :: tail) := by
    rw [quoted, encode_append, List.append_assoc]
    rfl
  rw [hbytes, reads_cons_ok hopen, reads_escapes, List.append_nil,
    reads_cons_ok (step_closing_quote key text.toList frames), String.ofList_toList]

/-! ## Numerals -/

/-- The byte of a digit. -/
def digitByte (d : Nat) : UInt8 := UInt8.ofNat (0x30 + d)

theorem digitChar_byte : ∀ d < 10, String.utf8EncodeChar (Nat.digitChar d) = [digitByte d] ∧
    digit? (digitByte d) = some d := by
  decide

/-- What follows does not go on with an integer. -/
def Delimited (tail : List UInt8) : Prop :=
  ∀ b ∈ tail.head?, digit? b = none ∧ b ≠ 0x2e ∧ b ≠ 0x65 ∧ b ≠ 0x45

theorem finish_deliver (value : Json) (frames : List Frame) :
    (deliver value frames).finish = finishEnd (deliver value frames) := by
  match frames with
  | [] | .list _ :: _ | .object _ _ :: _ => rfl

theorem step_deliver (value : Json) (frames : List Frame) (b : UInt8) :
    (deliver value frames).step limit b = stepEnd (deliver value frames) b := by
  match frames with
  | [] | .list _ :: _ | .object _ _ :: _ => rfl

/-- A numeral ends where the text ends or where a byte does not go on with it. -/
theorem reads_number {negative : Bool} {digits : Digits} {n : Numeral} {value : Number}
    (hn : numeral? negative digits = some n) (hvalue : n.value? = some value)
    (htail : ∀ b ∈ tail.head?, digit? b = none ∧ extend? digits b = none) :
    reads limit ⟨.number negative digits, frames⟩ tail = reads limit (deliver (.num value) frames) tail := by
  have hend : ∀ e, endNumber negative digits frames e = .ok (deliver (.num value) frames) := by
    intro e
    simp only [endNumber, hn, hvalue]
  cases tail with
  | nil =>
    -- the end of the text sees the state that the numeral leaves behind, as a next byte does
    have hfinish : finish ⟨.number negative digits, frames⟩ = finishEnd (deliver (.num value) frames) := by
      simp only [finish, hend]
      rfl
    exact hfinish.trans (finish_deliver _ _).symm
  | cons b rest =>
    obtain ⟨hdigit, hextend⟩ := htail b rfl
    have hstep : step limit ⟨.number negative digits, frames⟩ b =
        (deliver (.num value) frames).step limit b := by
      rw [step_deliver]
      simp only [step, stepNumber, hextend, hdigit, hend]
      cases digits <;> rfl
    rw [reads, reads, List.foldlM_cons, List.foldlM_cons, hstep]

theorem step_whole {b : UInt8} {d : Nat} (h : digit? b = some d) (negative : Bool) (digits : List Nat) :
    step limit ⟨.number negative (.whole digits), frames⟩ b =
      .ok ⟨.number negative (.whole (d :: digits)), frames⟩ := by
  simp only [step, stepNumber, extend?, h]

theorem Expects.step_digit (hs : s.Expects limit frames) {d : Nat} (hpos : 0 < d) (hd : d < 10) :
    s.step limit (digitByte d) = .ok ⟨.number false (.whole [d]), frames⟩ := by
  obtain rfl | rfl | rfl | rfl | rfl | rfl | rfl | rfl | rfl :
      d = 1 ∨ d = 2 ∨ d = 3 ∨ d = 4 ∨ d = 5 ∨ d = 6 ∨ d = 7 ∨ d = 8 ∨ d = 9 := by omega
  all_goals exact hs _ rfl (by decide)

/-- Behind its digits, a positive integer has been read with its last digit first. -/
theorem Expects.reads_digits (hs : s.Expects limit frames) {n : Nat} (hn : 0 < n) (tail : List UInt8) :
    s.reads limit (encode (Nat.toDigits 10 n) ++ tail) =
      reads limit ⟨.number false (.whole (Nat.digits 10 n)), frames⟩ tail := by
  induction n using Nat.strong_induction_on generalizing tail with
  | h n ih =>
    rcases Nat.lt_or_ge n 10 with hlt | hge
    · rw [Nat.toDigits_of_lt_base hlt, encode_cons, (digitChar_byte n hlt).1,
        Nat.digits_of_lt 10 n (Nat.ne_of_gt hn) hlt]
      exact reads_cons_ok (hs.step_digit hn hlt) tail
    · -- the last digit is written behind the others and read onto the front of them
      have hmod : n % 10 < 10 := Nat.mod_lt n (by omega)
      obtain ⟨hbyte, hdigit⟩ := digitChar_byte (n % 10) hmod
      rw [Nat.toDigits_of_base_le (by omega) hge, encode_append, List.append_assoc,
        ih (n / 10) (by omega) (by omega), encode_cons, hbyte, Nat.digits_def' (by omega) hn]
      exact reads_cons_ok (step_whole hdigit false _) tail

theorem takeWhole_eq {significand : Nat} {digits : List Nat}
    (h : digits.foldl (fun n d => n * 10 + d) significand < 0x10000000000000000) :
    Numeral.takeWhole significand digits = (digits.foldl (fun n d => n * 10 + d) significand, 0) := by
  -- the significand only grows, so it stays in 64 bits all along if it ends there
  have hgrow : ∀ (ds : List Nat) (n : Nat), n ≤ ds.foldl (fun n d => n * 10 + d) n := by
    intro ds
    induction ds with
    | nil => exact fun n => Nat.le_refl n
    | cons d rest ih => exact fun n => Nat.le_trans (by omega) (ih (n * 10 + d))
  induction digits generalizing significand with
  | nil => rfl
  | cons d rest ih =>
    have hnext : significand * 10 + d < 0x10000000000000000 := Nat.lt_of_le_of_lt (hgrow rest _) h
    rw [Numeral.takeWhole, Numeral.push?, if_pos hnext]
    exact ih h

theorem foldl_reverse_digits (n : Nat) :
    (Nat.digits 10 n).reverse.foldl (fun n d => n * 10 + d) 0 = n := by
  rw [List.foldl_reverse]
  conv_rhs => rw [← Nat.ofDigits_digits 10 n, Nat.ofDigits_eq_foldr]
  congr 1
  funext d m
  rw [Nat.cast_id, Nat.mul_comm, Nat.add_comm]

/-- The digits of an unsigned 64-bit integer are read as that integer. -/
theorem Expects.reads_toDigits (hs : s.Expects limit frames) {n : Nat} (hn : n < 0x10000000000000000)
    (htail : Delimited tail) :
    s.reads limit (encode (Nat.toDigits 10 n) ++ tail) = reads limit (deliver (.nat n) frames) tail := by
  have hextend : ∀ b ∈ tail.head?, ∀ digits, (digits = .zero ∨ ∃ ds, digits = .whole ds) →
      digit? b = none ∧ extend? digits b = none := by
    intro b hb digits hdigits
    obtain ⟨hdigit, hpoint, hmark, hMark⟩ := htail b hb
    refine ⟨hdigit, ?_⟩
    rcases hdigits with rfl | ⟨ds, rfl⟩ <;> simp [extend?, hdigit, hpoint, hmark, hMark]
  rcases Nat.eq_zero_or_pos n with rfl | hpos
  · have hzero : encode (Nat.toDigits 10 0) ++ tail = 0x30 :: tail := rfl
    have hstep : s.step limit 0x30 = .ok ⟨.number false .zero, frames⟩ := hs _ rfl (by decide)
    rw [hzero, reads_cons_ok hstep]
    exact reads_number rfl rfl fun b hb => hextend b hb _ (.inl rfl)
  · rw [hs.reads_digits hpos]
    refine reads_number rfl ?_ fun b hb => hextend b hb _ (.inr ⟨_, rfl⟩)
    have hwhole : Numeral.takeWhole 0 (Nat.digits 10 n).reverse = (n, 0) := by
      rw [takeWhole_eq, foldl_reverse_digits]
      rwa [foldl_reverse_digits]
    rw [Numeral.value?, hwhole]
    rfl

end Adf.Json.ReadState

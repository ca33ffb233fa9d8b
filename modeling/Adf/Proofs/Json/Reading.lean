import Adf.Proofs.Json.Tokens

/-!
# Reading back a written value

A value is written with blanks between its tokens or without, and read back with the members of its objects
sorted. The one thing that can go wrong is its depth: as soon as more containers are open at once than the
reader allows, the text is refused. Both directions are one equation, `Json.read_text`.
-/

namespace Adf.Json

/-! ## Depth and numbers of a value -/

mutual

/-- How many containers of the value are open at once. -/
def depth : Json → Nat
  | .arr items => itemsDepth items + 1
  | .obj members => membersDepth members + 1
  | .null | .bool _ | .num _ | .str _ => 0

def itemsDepth : List Json → Nat
  | [] => 0
  | item :: rest => max (depth item) (itemsDepth rest)

def membersDepth : List (String × Json) → Nat
  | [] => 0
  | (_, value) :: rest => max (depth value) (membersDepth rest)

end

mutual

/-- Every number in the value is an unsigned 64-bit integer. -/
def unsigned : Json → Bool
  | .num n => n.toUInt64?.isSome
  | .arr items => unsignedItems items
  | .obj members => unsignedMembers members
  | .null | .bool _ | .str _ => true

def unsignedItems : List Json → Bool
  | [] => true
  | item :: rest => unsigned item && unsignedItems rest

def unsignedMembers : List (String × Json) → Bool
  | [] => true
  | (_, value) :: rest => unsigned value && unsignedMembers rest

end

/-! ## Styles -/

/-- A style that puts nothing but blanks between the tokens. -/
structure Style.Blank (style : Style) : Prop where
  line : ∀ level, ∀ b ∈ encode (style.line level), ReadState.isBlank b = true
  colon : ∃ blanks, style.colon = ':' :: blanks ∧ ∀ b ∈ encode blanks, ReadState.isBlank b = true

theorem Style.blank_compact : Style.compact.Blank where
  line _ _ hb := absurd hb List.not_mem_nil
  colon := ⟨[], rfl, fun _ hb => absurd hb List.not_mem_nil⟩

theorem isBlank_of_mem_encode {blanks : List Char} (h : ∀ c ∈ blanks, c = ' ' ∨ c = '\n') :
    ∀ b ∈ encode blanks, ReadState.isBlank b = true := by
  intro b hb
  obtain ⟨c, hc, hbc⟩ := List.mem_flatMap.mp hb
  rcases h c hc with rfl | rfl
  · rw [List.mem_singleton.mp hbc]
    rfl
  · rw [List.mem_singleton.mp hbc]
    rfl

theorem Style.blank_pretty : Style.pretty.Blank where
  line level := by
    refine isBlank_of_mem_encode fun c hc => ?_
    rcases List.mem_cons.mp hc with hc | hc
    · exact .inr hc
    · exact .inl (List.eq_of_mem_replicate hc)
  colon := ⟨[' '], rfl, isBlank_of_mem_encode fun _ hc => .inl (List.mem_singleton.mp hc)⟩

/-! ## The limit -/

/-- What is read where so many containers are open at once. -/
def within (limit opened : Nat) (result : Except ReadError Json) : Except ReadError Json :=
  if opened ≤ limit then result else .error .tooDeep

theorem within_of_le {limit opened : Nat} (h : opened ≤ limit) (result : Except ReadError Json) :
    within limit opened result = result :=
  if_pos h

theorem within_of_lt {limit opened : Nat} (h : limit < opened) (result : Except ReadError Json) :
    within limit opened result = .error .tooDeep :=
  if_neg (Nat.not_le.mpr h)

theorem within_congr {limit opened : Nat} {result result' : Except ReadError Json}
    (h : opened ≤ limit → result = result') : within limit opened result = within limit opened result' := by
  rcases Nat.lt_or_ge limit opened with hlt | hge
  · rw [within_of_lt hlt, within_of_lt hlt]
  · rw [h hge]

theorem within_within (limit m n : Nat) (result : Except ReadError Json) :
    within limit m (within limit n result) = within limit (max m n) result := by
  rcases Nat.lt_or_ge limit m with hm | hm
  · have hmax : limit < max m n := Nat.lt_of_lt_of_le hm (Nat.le_max_left m n)
    rw [within_of_lt hm, within_of_lt hmax]
  rcases Nat.lt_or_ge limit n with hn | hn
  · have hmax : limit < max m n := Nat.lt_of_lt_of_le hn (Nat.le_max_right m n)
    rw [within_of_le hm, within_of_lt hn, within_of_lt hmax]
  · rw [within_of_le hm, within_of_le hn, within_of_le (Nat.max_le.mpr ⟨hm, hn⟩)]

namespace ReadState

variable {limit level : Nat} {style : Style} {s : ReadState} {frames : List Frame} {tail : List UInt8}

/-! ## The bytes of containers -/

/-- The end of a container: the blanks before the closing bracket, the bracket and what follows. -/
def closing (style : Style) (level : Nat) (bracket : UInt8) (tail : List UInt8) : List UInt8 :=
  encode (style.line level) ++ bracket :: tail

section

variable (style : Style) (level : Nat) (tail : List UInt8)

theorem encode_list (item : Json) (rest : List Json) :
    encode (chars style level (.arr (item :: rest))) ++ tail =
      0x5b :: (encode (style.line (level + 1)) ++ (encode (chars style (level + 1) item) ++
        (encode (itemChars style (level + 1) rest) ++ closing style level 0x5d tail))) := by
  simp only [chars, encode_append, encode_cons, List.append_assoc, closing]
  rfl

theorem encode_item (item : Json) (rest : List Json) :
    encode (itemChars style level (item :: rest)) ++ tail =
      0x2c :: (encode (style.line level) ++ (encode (chars style level item) ++
        (encode (itemChars style level rest) ++ tail))) := by
  simp only [itemChars, encode_append, encode_cons, List.append_assoc]
  rfl

theorem encode_object (name : String) (value : Json) (rest : List (String × Json)) :
    encode (chars style level (.obj ((name, value) :: rest))) ++ tail =
      0x7b :: (encode (style.line (level + 1)) ++ (encode (quoted name) ++ (encode style.colon ++
        (encode (chars style (level + 1) value) ++
          (encode (memberChars style (level + 1) rest) ++ closing style level 0x7d tail))))) := by
  simp only [chars, encode_append, encode_cons, List.append_assoc, closing]
  rfl

theorem encode_member (name : String) (value : Json) (rest : List (String × Json)) :
    encode (memberChars style level ((name, value) :: rest)) ++ tail =
      0x2c :: (encode (style.line level) ++ (encode (quoted name) ++ (encode style.colon ++
        (encode (chars style level value) ++ (encode (memberChars style level rest) ++ tail))))) := by
  simp only [memberChars, encode_append, encode_cons, List.append_assoc]
  rfl

end

/-! ## What may follow a numeral -/

theorem delimited_cons {b : UInt8} (h : digit? b = none ∧ b ≠ 0x2e ∧ b ≠ 0x65 ∧ b ≠ 0x45) :
    Delimited (b :: tail) := by
  intro c hc
  rw [← Option.some_inj.mp hc]
  exact h

theorem delimited_blanks {blanks : List UInt8} (h : ∀ b ∈ blanks, isBlank b = true)
    (htail : Delimited tail) : Delimited (blanks ++ tail) := by
  cases blanks with
  | nil => exact htail
  | cons b rest =>
    have hb := h b List.mem_cons_self
    simp only [isBlank, Bool.or_eq_true, decide_eq_true_eq] at hb
    obtain ((rfl | rfl) | rfl) | rfl := hb <;> exact delimited_cons (by decide)

theorem delimited_closing (hstyle : style.Blank) {bracket : UInt8}
    (h : digit? bracket = none ∧ bracket ≠ 0x2e ∧ bracket ≠ 0x65 ∧ bracket ≠ 0x45) :
    Delimited (closing style level bracket tail) :=
  delimited_blanks (hstyle.line level) (delimited_cons h)

theorem delimited_itemChars (hstyle : style.Blank) (inner : Nat) (rest : List Json) :
    Delimited (encode (itemChars style inner rest) ++ closing style level 0x5d tail) := by
  cases rest with
  | nil => exact delimited_closing hstyle (by decide)
  | cons item rest => exact delimited_cons (b := 0x2c) (by decide)

theorem delimited_memberChars (hstyle : style.Blank) (inner : Nat) (rest : List (String × Json)) :
    Delimited (encode (memberChars style inner rest) ++ closing style level 0x7d tail) := by
  cases rest with
  | nil => exact delimited_closing hstyle (by decide)
  | cons member rest => exact delimited_cons (b := 0x2c) (by decide)

/-! ## Opening and closing containers -/

theorem reads_closing (hstyle : style.Blank) {next : ReadState} {bracket : UInt8} (hidle : s.Idle limit)
    (hclose : s.step limit bracket = .ok next) :
    s.reads limit (closing style level bracket tail) = next.reads limit tail := by
  rw [closing, reads_blanks hidle (hstyle.line level), reads_cons_ok hclose]

/-- A bracket opens a container if the limit lets it. -/
theorem reads_open {bracket : UInt8} {next : ReadState}
    (hstep : s.step limit bracket = if frames.length < limit then .ok next else .error .tooDeep) :
    s.reads limit (bracket :: tail) = within limit (frames.length + 1) (next.reads limit tail) := by
  rcases Nat.lt_or_ge frames.length limit with hlt | hge
  · rw [if_pos hlt] at hstep
    rw [reads_cons_ok hstep, within_of_le hlt]
  · rw [if_neg (Nat.not_lt.mpr hge)] at hstep
    rw [reads_cons_error hstep, within_of_lt (Nat.lt_succ_of_le hge)]

/-- A container with something in it: the limit is asked once for its bracket and then for what is inside,
where one container more is open. -/
theorem reads_container {bracket : UInt8} {next : ReadState} {m n : Nat} {result : Except ReadError Json}
    (hstep : s.step limit bracket = if frames.length < limit then .ok next else .error .tooDeep)
    (hinside : frames.length + 1 ≤ limit → next.reads limit tail =
      within limit (frames.length + 1 + m) (within limit (frames.length + 1 + n) result)) :
    s.reads limit (bracket :: tail) = within limit (frames.length + (max m n + 1)) result := by
  have hdepth : max (max (frames.length + 1) (frames.length + 1 + m)) (frames.length + 1 + n) =
      frames.length + (max m n + 1) := by omega
  rw [reads_open hstep, within_congr hinside, within_within, within_within, hdepth]

/-- A name and the colon behind it. -/
theorem reads_name (hstyle : style.Blank) (members : List (String × Json)) (name : String)
    (hopen : s.step limit 0x22 = .ok ⟨.string (some members) [] .none, frames⟩) :
    s.reads limit (encode (quoted name) ++ (encode style.colon ++ tail)) =
      reads limit ⟨.value, .object members name :: frames⟩ tail := by
  obtain ⟨blanks, hcolon, hblanks⟩ := hstyle.colon
  have hbytes : encode style.colon ++ tail = 0x3a :: (encode blanks ++ tail) := by
    rw [hcolon]
    rfl
  have hstep : step limit ⟨.colon members name, frames⟩ 0x3a =
      .ok ⟨.value, .object members name :: frames⟩ := rfl
  rw [reads_quoted _ name hopen, hbytes]
  exact (reads_cons_ok hstep _).trans (reads_blanks idle_value hblanks tail)

/-! ## Values -/

theorem toUInt64?_isSome {n : Number} (h : n.toUInt64?.isSome = true) :
    ∃ k : Nat, k < 0x10000000000000000 ∧ n = .int k := by
  match n with
  | .int (.ofNat k) =>
    rw [Number.toUInt64?] at h
    by_cases hk : k < 0x10000000000000000
    · exact ⟨k, hk, rfl⟩
    · rw [if_neg hk] at h
      cases h

mutual

/-- A written value is read as its sorted form, if the limit allows its depth. -/
theorem reads_chars (hstyle : style.Blank) (level : Nat) (v : Json) (hv : v.unsigned = true)
    {s : ReadState} {frames : List Frame} {tail : List UInt8} (hs : s.Expects limit frames)
    (hframes : frames.length ≤ limit) (htail : Delimited tail) :
    s.reads limit (encode (chars style level v) ++ tail) =
      within limit (frames.length + v.depth) ((deliver v.sorted frames).reads limit tail) := by
  have hscalar : ∀ result, within limit (frames.length + 0) result = result := within_of_le hframes
  match v, hv with
  | .null, _ =>
    rw [depth, hscalar]
    exact reads_cons_ok (hs 0x6e rfl (by decide)) _
  | .bool true, _ =>
    rw [depth, hscalar]
    exact reads_cons_ok (hs 0x74 rfl (by decide)) _
  | .bool false, _ =>
    rw [depth, hscalar]
    exact reads_cons_ok (hs 0x66 rfl (by decide)) _
  | .num n, hv =>
    obtain ⟨k, hk, rfl⟩ := toUInt64?_isSome hv
    have hchars : chars style level (.num (.int k)) = Nat.toDigits 10 k := Nat.toList_repr
    rw [depth, hscalar, hchars]
    exact hs.reads_toDigits hk htail
  | .str text, _ =>
    rw [depth, hscalar]
    exact reads_quoted none text (hs 0x22 rfl (by decide)) tail
  | .arr [], _ =>
    have hempty : s.reads limit (0x5b :: 0x5d :: tail) = _ := reads_open (hs 0x5b rfl (by decide))
    exact hempty
  | .arr (item :: rest), hv =>
    obtain ⟨hitem, hrest⟩ := Bool.and_eq_true_iff.mp hv
    rw [encode_list, depth, itemsDepth, sorted]
    -- what is inside is only read where the list may be opened, with one container more around it
    refine reads_container (hs 0x5b rfl (by decide)) fun hlt => ?_
    rw [reads_blanks idle_item (hstyle.line (level + 1)),
      reads_chars hstyle (level + 1) item hitem (expects_item [] frames) hlt
        (delimited_itemChars hstyle (level + 1) rest),
      deliver, reads_itemChars hstyle (level + 1) level rest hrest [item.sorted] hlt]
    rfl
  | .obj [], _ =>
    have hempty : s.reads limit (0x7b :: 0x7d :: tail) = _ := reads_open (hs 0x7b rfl (by decide))
    exact hempty
  | .obj ((name, value) :: rest), hv =>
    obtain ⟨hvalue, hrest⟩ := Bool.and_eq_true_iff.mp hv
    rw [encode_object, depth, membersDepth, sorted]
    refine reads_container (hs 0x7b rfl (by decide)) fun hlt => ?_
    rw [reads_blanks idle_firstKey (hstyle.line (level + 1)), reads_name hstyle [] name rfl,
      reads_chars hstyle (level + 1) value hvalue (expects_value (.object [] name :: frames)) hlt
        (delimited_memberChars hstyle (level + 1) rest),
      deliver, reads_memberChars hstyle (level + 1) level rest hrest _ hlt]
    rfl

/-- The elements behind the first and the end of their list. -/
theorem reads_itemChars (hstyle : style.Blank) (inner level : Nat) (rest : List Json)
    (hrest : unsignedItems rest = true) (done : List Json) {frames : List Frame} {tail : List UInt8}
    (hframes : frames.length < limit) :
    reads limit ⟨.itemEnd done, frames⟩
        (encode (itemChars style inner rest) ++ closing style level 0x5d tail) =
      within limit (frames.length + 1 + itemsDepth rest)
        ((deliver (.arr (done.reverse ++ sortedItems rest)) frames).reads limit tail) := by
  -- the recursion is on the elements that are left; those before them are in the state
  match rest, hrest with
  | [], _ =>
    rw [itemsDepth, within_of_le hframes, sortedItems, List.append_nil]
    exact reads_closing hstyle idle_itemEnd rfl
  | item :: rest, hrest =>
    obtain ⟨hitem, hrest⟩ := Bool.and_eq_true_iff.mp hrest
    have hcomma : step limit ⟨.itemEnd done, frames⟩ 0x2c = .ok ⟨.item done, frames⟩ := rfl
    have hdone : done.reverse ++ sortedItems (item :: rest) =
        (item.sorted :: done).reverse ++ sortedItems rest := by
      rw [sortedItems, List.reverse_cons, List.append_assoc]
      rfl
    rw [encode_item, reads_cons_ok hcomma, reads_blanks idle_item (hstyle.line inner),
      reads_chars hstyle inner item hitem (expects_item done frames) hframes
        (delimited_itemChars hstyle inner rest),
      deliver, reads_itemChars hstyle inner level rest hrest _ hframes, within_within, hdone]
    congr 1
    rw [itemsDepth, List.length_cons, Nat.add_max_add_left]

/-- The members behind the first and the end of their object. -/
theorem reads_memberChars (hstyle : style.Blank) (inner level : Nat) (rest : List (String × Json))
    (hrest : unsignedMembers rest = true) (done : List (String × Json)) {frames : List Frame}
    {tail : List UInt8} (hframes : frames.length < limit) :
    reads limit ⟨.memberEnd done, frames⟩
        (encode (memberChars style inner rest) ++ closing style level 0x7d tail) =
      within limit (frames.length + 1 + membersDepth rest)
        ((deliver (.obj (sortedMembers done rest)) frames).reads limit tail) := by
  match rest, hrest with
  | [], _ =>
    rw [membersDepth, within_of_le hframes, sortedMembers]
    exact reads_closing hstyle idle_memberEnd rfl
  | (name, value) :: rest, hrest =>
    obtain ⟨hvalue, hrest⟩ := Bool.and_eq_true_iff.mp hrest
    have hcomma : step limit ⟨.memberEnd done, frames⟩ 0x2c = .ok ⟨.nextKey done, frames⟩ := rfl
    rw [encode_member, reads_cons_ok hcomma, reads_blanks idle_nextKey (hstyle.line inner),
      reads_name hstyle done name rfl,
      reads_chars hstyle inner value hvalue (expects_value (.object done name :: frames)) hframes
        (delimited_memberChars hstyle inner rest),
      deliver, reads_memberChars hstyle inner level rest hrest _ hframes, within_within, sortedMembers]
    congr 1
    rw [membersDepth, List.length_cons, Nat.add_max_add_left]

end

end ReadState

/-- **Reading a written value.** The text of a value whose numbers are unsigned 64-bit integers is read as
the value with sorted members, and refused exactly if its depth is beyond the limit. -/
theorem read_text {style : Style} (hstyle : style.Blank) (limit : Nat) {v : Json} (hv : v.unsigned = true) :
    read limit (v.text style).toByteArray.toList = within limit v.depth (.ok v.sorted) := by
  have hdelimited : ReadState.Delimited [] := fun b hb => by cases hb
  have hreads : ReadState.reads limit ⟨.value, []⟩ (encode (chars style 0 v) ++ []) = _ :=
    ReadState.reads_chars hstyle 0 v hv (ReadState.expects_value []) (Nat.zero_le limit) hdelimited
  rw [List.append_nil, List.length_nil, Nat.zero_add] at hreads
  rw [text, toList_toByteArray_ofList, ReadState.read_eq_reads, ReadState.start, hreads]
  rfl

end Adf.Json

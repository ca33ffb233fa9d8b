import Adf.Schema.Context

/-!
# Checks that report into a context

The checks of `Adf.Schema.Check` are given the path to a value and list its issues. Here they are done with
nothing but a context: a check enters a segment, reports at the current path, leaves again, and goes on with
the context that the checks before it have left behind. `writes_document` says that both ways come to the
same issues, and that these move along with the path at which a check starts.
-/

namespace Adf.Schema

/-- A check that has a context to report into. -/
abbrev Reporter := StateM Context

namespace Reporter

/-! ## Operations -/

def report (problem : Problem) : Reporter Unit := modify (Context.report problem)

/-- Does `body` one segment further in. -/
def within {α : Type} (s : Segment) (body : Reporter α) : Reporter α := do
  modify (Context.enter s)
  let result ← body
  modify Context.leave
  return result

def mismatch (expected : String) (got : Json) : Reporter Unit :=
  report (.typeMismatch expected got.typeName)

def missing (property : String) : Reporter Unit := report (.missingProperty property)

/-! ## Single values -/

def string : Json → Reporter Unit
  | .str _ => return
  | value => mismatch "string" value

def boolean : Json → Reporter Unit
  | .bool _ => return
  | value => mismatch "boolean" value

def integer (least most : Option Int) (value : Json) : Reporter Unit :=
  match integer? value with
  | none => mismatch "integer" value
  | some z =>
    if least.any (z < ·) || most.any (· < z) then
      report (.numberOutOfRange (.ofInt z) (least.map .ofInt) (most.map .ofInt))
    else return

def choice (allowed : List String) : Json → Reporter Unit
  | .str s => if s ∈ allowed then return else report (.notAllowedValue s allowed)
  | value => mismatch "string" value

def color : Json → Reporter Unit
  | .str s => if isColor s then return else report (.patternMismatch s colorPattern)
  | value => mismatch "string" value

/-! ## Attributes -/

/-- The attributes, which are reported and passed over if they are no object. -/
def attrs (members : Members) : Reporter (Option Members) :=
  match members.lookup "attrs" with
  | none => return none
  | some (.obj attrs) => return some attrs
  | some other => do
    within (.key "attrs") (mismatch "object" other)
    return none

def withinAttr (name : String) (body : Reporter Unit) : Reporter Unit :=
  within (.key "attrs") (within (.key name) body)

/-- An attribute, which is reported if it is not there. -/
def required? (attrs : Option Members) (name : String) : Reporter (Option Json) :=
  match attrs with
  | none => do
    missing "attrs"
    return none
  | some members =>
    match members.lookup name with
    | some value => return some value
    | none => do
      within (.key "attrs") (missing name)
      return none

def required (attrs : Option Members) (name : String) (check : Json → Reporter Unit) : Reporter Unit := do
  match ← required? attrs name with
  | some value => withinAttr name (check value)
  | none => return

def optional (attrs : Option Members) (name : String) (check : Json → Reporter Unit) : Reporter Unit :=
  match attrs.bind (List.lookup name) with
  | some value => withinAttr name (check value)
  | none => return

def media (attrs : Option Members) : Reporter Unit := do
  match ← required? attrs "type" with
  | none => return
  | some type => do
    withinAttr "type" (choice mediaTypes type)
    (mediaKeys type).forM fun name => required attrs name string
    optional attrs "alt" string

def nodeAttrs (type : NodeType) (attrs : Option Members) : Reporter Unit :=
  match type with
  | .heading => required attrs "level" (integer (some 1) (some 6))
  | .codeBlock => optional attrs "language" string
  | .orderedList => optional attrs "order" (integer (some 0) none)
  | .table => do
    optional attrs "isNumberColumnEnabled" boolean
    optional attrs "layout" (choice tableLayouts)
  | .mediaSingle => optional attrs "layout" (choice mediaLayouts)
  | .media => media attrs
  | _ => return

def markAttrs (type : MarkType) (attrs : Option Members) : Reporter Unit :=
  match type with
  | .link => do
    required attrs "href" string
    optional attrs "title" string
  | .subsup => required attrs "type" (choice scripts)
  | .textColor => required attrs "color" color
  | _ => return

/-! ## Marks and texts -/

/-- The attributes of a mark are not checked if they are no object. -/
def attrsOfMark (type : MarkType) (members : Members) : Reporter Unit :=
  match members.lookup "attrs" with
  | none => markAttrs type none
  | some (.obj attrs) => markAttrs type (some attrs)
  | some other => within (.key "attrs") (mismatch "object" other)

/-- Gives the type of the mark, if it is a known one. -/
def mark : Json → Reporter (Option MarkType)
  | .obj members =>
    match members.lookup "type" with
    | none => do
      missing "type"
      return none
    | some (.str name) =>
      match knownMark? name with
      | none => do
        within (.key "type") (report (.unknownMark name))
        return none
      | some type => do
        attrsOfMark type members
        return some type
    | some other => do
      within (.key "type") (mismatch "string" other)
      return none
  | value => do
    mismatch "object" value
    return none

def exclusion : Option MarkType × Nat → Reporter Unit
  | (some type, i) =>
    if type ∈ besideCode then return
    else within (.index i) (report (.incompatibleMarks "code" type.name))
  | (none, _) => return

/-- Which marks exclude each other is told from the types that their checks have given. -/
def markList : Json → Reporter Unit
  | .arr marks => do
    let types ← marks.zipIdx.mapM fun (m, i) => within (.index i) (mark m)
    if types.any (· = some .code) then types.zipIdx.forM exclusion else return
  | value => mismatch "array" value

def textValue (members : Members) : Reporter Unit :=
  match members.lookup "text" with
  | some (.str s) => if s.isEmpty then within (.key "text") (report (.stringTooShort 0 1)) else return
  | some other => within (.key "text") (mismatch "string" other)
  | none => missing "text"

def textMarks (parent : String) (members : Members) : Reporter Unit :=
  match members.lookup "marks" with
  | none => return
  | some marks => within (.key "marks") do
    if parent = "codeBlock" ∧ ¬unmarked members then
      report (.marksNotAllowed "text")
    else markList marks

def text (parent : String) (members : Members) : Reporter Unit := do
  textValue members
  textMarks parent members

def markPlace (type : NodeType) (members : Members) : Reporter Unit :=
  if unmarked members then return else within (.key "marks") (report (.marksNotAllowed type.name))

/-! ## Nodes and documents -/

def place (type : NodeType) (allowed : List NodeType) (parent : String) : Reporter Unit :=
  if type ∈ allowed then return else report (.nodeNotAllowed type.name parent)

def length (least : Nat) (most : Option Nat) (n : Nat) : Reporter Unit :=
  if n < least || most.any (· < n) then
    report (.badArrayLength n (if least = 0 then none else some least) most)
  else return

def absence : ContentRule → Reporter Unit
  | .children _ (_ + 1) _ => missing "content"
  | _ => return

mutual

def node (parent : String) (allowed : List NodeType) : Json → Reporter Unit
  | .obj members =>
    match members.lookup "type" with
    | none => missing "type"
    | some (.str name) =>
      match knownNode? name with
      | none => within (.key "type") (report (.unknownNode name))
      | some type => do
        place type allowed parent
        let attrs ← attrs members
        nodeAttrs type attrs
        content type.name (contentRule type) members
        if type = .text then text parent members else markPlace type members
    | some other => within (.key "type") (mismatch "string" other)
  | value => mismatch "object" value

def content (parent : String) (rule : ContentRule) : Members → Reporter Unit
  | [] => absence rule
  | (name, value) :: rest =>
    if name = "content" then within (.key "content") (children parent rule value)
    else content parent rule rest

def children (parent : String) (rule : ContentRule) : Json → Reporter Unit
  | .arr values =>
    match rule with
    | .ignored => return
    | .empty => length 0 (some 0) values.length
    | .children allowed least most => do
      length least most values.length
      items parent allowed 0 values
  | value =>
    match rule with
    | .ignored => return
    | _ => mismatch "array" value

/-- The children from the `i`-th on. -/
def items (parent : String) (allowed : Nat → List NodeType) (i : Nat) : List Json → Reporter Unit
  | [] => return
  | value :: rest => do
    within (.index i) (node parent (allowed i) value)
    items parent allowed (i + 1) rest

end

/-- Checks a member that must be there. -/
def member (members : Members) (name : String) (check : Json → Reporter Unit) : Reporter Unit :=
  match members.lookup name with
  | some value => within (.key name) (check value)
  | none => missing name

def document : Json → Reporter Unit
  | .obj members => do
    member members "version" (integer (some 1) (some 1))
    member members "type" (choice ["doc"])
    member members "content" (children "doc" (.any topLevel))
  | value => mismatch "object" value

end Reporter

/-! ## What a check writes -/

/-- Wherever the check starts, it gives `result`, is back at its path at the end, and has added the issues
for that path. These are the same anywhere, with the path to that place in front. -/
structure Writes {α : Type} (check : Reporter α) (result : α) (issues : Path → List Issue) : Prop where
  run : ∀ c, check.run c = (result, ⟨c.path, c.issues ++ issues c.path⟩)
  relocates : ∀ p q, issues (p ++ q) = (issues q).map (Issue.below p)

section

variable {α β : Type} {check : Reporter α} {a : α} {f g : Path → List Issue}

theorem Writes.congr (h : Writes check a f) (heq : ∀ p, g p = f p) : Writes check a g := by
  obtain rfl : g = f := funext heq
  exact h

theorem writes_pure (a : α) : Writes (pure a) a fun _ => [] where
  run c := by
    rw [List.append_nil]
    rfl
  relocates _ _ := rfl

theorem writes_report (problem : Problem) :
    Writes (Reporter.report problem) () fun path => [⟨problem, path⟩] where
  run _ := rfl
  relocates _ _ := rfl

theorem Writes.bind {next : α → Reporter β} {b : β} (h : Writes check a f) (hnext : Writes (next a) b g) :
    Writes (check >>= next) b fun path => f path ++ g path where
  run c := by
    rw [StateT.run_bind, h.run c]
    show (next a).run _ = _
    rw [hnext.run, List.append_assoc]
  relocates p q := by rw [h.relocates, hnext.relocates, List.map_append]

theorem Writes.map (h : Writes check a f) (k : α → β) :
    Writes (do let x ← check; return k x) (k a) f := by
  refine (h.bind ?_).congr fun path => (List.append_nil _).symm
  exact writes_pure (k a)

theorem Writes.within (h : Writes check a f) (s : Segment) :
    Writes (Reporter.within s check) a fun path => f (path.push s) where
  run c := by
    have hbody : check.run (c.enter s) = (a, Context.enter s ⟨c.path, c.issues ++ f (c.path.push s)⟩) :=
      h.run (c.enter s)
    show ((check.run (c.enter s)).1, (check.run (c.enter s)).2.leave) = _
    rw [hbody, Context.leave_enter]
  relocates p q := by rw [← Path.append_push, h.relocates]

theorem Writes.ite {c : Prop} [Decidable c] {check' : Reporter α} (h : Writes check a f)
    (h' : Writes check' a g) :
    Writes (if c then check else check') a fun path => if c then f path else g path := by
  by_cases hc : c
  · simpa only [if_pos hc] using h
  · simpa only [if_neg hc] using h'

theorem writes_mapM {xs : List β} {check : β → Reporter α} {result : β → α} {issues : Path → β → List Issue}
    (h : ∀ x, Writes (check x) (result x) (issues · x)) :
    Writes (xs.mapM check) (xs.map result) fun path => xs.flatMap (issues path) := by
  induction xs with
  | nil => exact writes_pure []
  | cons x xs ih =>
    rw [List.mapM_cons]
    exact (h x).bind (ih.map (result x :: ·))

theorem writes_forM {xs : List β} {check : β → Reporter Unit} {issues : Path → β → List Issue}
    (h : ∀ x, Writes (check x) () (issues · x)) :
    Writes (xs.forM check) () fun path => xs.flatMap (issues path) := by
  induction xs with
  | nil => exact writes_pure ()
  | cons x xs ih => exact (h x).bind ih

end

open Reporter

/-! ## Single values -/

theorem writes_mismatch (expected : String) (got : Json) :
    Writes (Reporter.mismatch expected got) () fun path => [Schema.mismatch path expected got] :=
  writes_report _

theorem writes_missing (property : String) :
    Writes (Reporter.missing property) () fun path => [Schema.missing path property] :=
  writes_report _

theorem writes_string (v : Json) : Writes (string v) () (stringIssues · v) := by
  cases v with
  | str s => exact writes_pure ()
  | _ => exact writes_mismatch _ _

theorem writes_boolean (v : Json) : Writes (boolean v) () (booleanIssues · v) := by
  cases v with
  | bool b => exact writes_pure ()
  | _ => exact writes_mismatch _ _

theorem writes_integer (least most : Option Int) (v : Json) :
    Writes (integer least most v) () (integerIssues least most · v) := by
  unfold integer integerIssues
  cases integer? v with
  | none => exact writes_mismatch _ _
  | some z => exact (writes_report _).ite (writes_pure ())

theorem writes_choice (allowed : List String) (v : Json) :
    Writes (choice allowed v) () (choiceIssues allowed · v) := by
  cases v with
  | str s => exact (writes_pure ()).ite (writes_report _)
  | _ => exact writes_mismatch _ _

theorem writes_color (v : Json) : Writes (color v) () (colorIssues · v) := by
  cases v with
  | str s => exact (writes_pure ()).ite (writes_report _)
  | _ => exact writes_mismatch _ _

/-! ## Attributes -/

theorem writes_attrs (members : Members) :
    Writes (Reporter.attrs members) (attrs? members) (attrsIssues · members) := by
  unfold Reporter.attrs attrs? attrsIssues
  cases members.lookup "attrs" with
  | none => exact writes_pure none
  | some v =>
    cases v with
    | obj attrs => exact writes_pure (some attrs)
    | _ => exact ((writes_mismatch _ _).within _).map fun _ => none

section

variable {check : Json → Reporter Unit} {issues : Path → Json → List Issue}

theorem Writes.withinAttr {body : Reporter Unit} {f : Path → List Issue} (h : Writes body () f)
    (name : String) : Writes (withinAttr name body) () fun path => f ((path.key "attrs").key name) :=
  (h.within (.key name)).within (.key "attrs")

theorem writes_required? (attrs : Option Members) (name : String) :
    Writes (required? attrs name) (attrs.bind (List.lookup name)) fun path =>
      Schema.required attrs name path fun _ _ => [] := by
  unfold required? Schema.required
  cases attrs with
  | none => exact (writes_missing "attrs").map fun _ => none
  | some members =>
    show Writes _ (members.lookup name) _
    dsimp only
    cases members.lookup name with
    | none => exact ((writes_missing name).within _).map fun _ => none
    | some value => exact writes_pure (some value)

/-- An attribute that must be there is checked like any other, apart from being there. -/
theorem required_eq_append (attrs : Option Members) (name : String) (path : Path) :
    Schema.required attrs name path issues =
      (Schema.required attrs name path fun _ _ => []) ++ Schema.optional attrs name path issues := by
  unfold Schema.required Schema.optional
  cases attrs with
  | none => rfl
  | some members => cases h : members.lookup name <;> simp [h]

theorem writes_optional (attrs : Option Members) (name : String)
    (hcheck : ∀ v, Writes (check v) () (issues · v)) :
    Writes (Reporter.optional attrs name check) () fun path => Schema.optional attrs name path issues := by
  unfold Reporter.optional Schema.optional
  cases attrs.bind (List.lookup name) with
  | none => exact writes_pure ()
  | some value => exact (hcheck value).withinAttr name

theorem writes_required (attrs : Option Members) (name : String)
    (hcheck : ∀ v, Writes (check v) () (issues · v)) :
    Writes (Reporter.required attrs name check) () fun path => Schema.required attrs name path issues := by
  refine ((writes_required? attrs name).bind ?_).congr (required_eq_append attrs name)
  exact writes_optional attrs name hcheck

end

theorem writes_media (attrs : Option Members) : Writes (media attrs) () (mediaIssues attrs) := by
  have hissues (path : Path) : mediaIssues attrs path =
      (Schema.required attrs "type" path fun _ _ => []) ++
        match attrs.bind (List.lookup "type") with
        | none => []
        | some type => choiceIssues mediaTypes ((path.key "attrs").key "type") type ++
            ((mediaKeys type).flatMap (fun name => Schema.required attrs name path stringIssues) ++
              Schema.optional attrs "alt" path stringIssues) := by
    rw [mediaIssues, required_eq_append, List.append_assoc, Schema.optional]
    cases attrs.bind (List.lookup "type") <;> rfl
  refine ((writes_required? attrs "type").bind ?_).congr hissues
  cases attrs.bind (List.lookup "type") with
  | none => exact writes_pure ()
  | some type =>
    exact ((writes_choice mediaTypes type).withinAttr "type").bind
      ((writes_forM fun name => writes_required attrs name writes_string).bind
        (writes_optional attrs "alt" writes_string))

theorem writes_nodeAttrs (type : NodeType) (attrs : Option Members) :
    Writes (nodeAttrs type attrs) () (nodeAttrIssues type attrs) := by
  cases type with
  | heading => exact writes_required attrs _ (writes_integer _ _)
  | codeBlock => exact writes_optional attrs _ writes_string
  | orderedList => exact writes_optional attrs _ (writes_integer _ _)
  | table => exact (writes_optional attrs _ writes_boolean).bind (writes_optional attrs _ (writes_choice _))
  | mediaSingle => exact writes_optional attrs _ (writes_choice _)
  | media => exact writes_media attrs
  | _ => exact writes_pure ()

theorem writes_markAttrs (type : MarkType) (attrs : Option Members) :
    Writes (markAttrs type attrs) () (markAttrIssues type attrs) := by
  cases type with
  | link => exact (writes_required attrs _ writes_string).bind (writes_optional attrs _ writes_string)
  | subsup => exact writes_required attrs _ (writes_choice _)
  | textColor => exact writes_required attrs _ writes_color
  | _ => exact writes_pure ()

/-! ## Marks and texts -/

theorem writes_attrsOfMark (type : MarkType) (members : Members) :
    Writes (attrsOfMark type members) () fun path =>
      match attrsIssues path members with
      | [] => markAttrIssues type (attrs? members) path
      | issues => issues := by
  unfold attrsOfMark attrsIssues attrs?
  cases members.lookup "attrs" with
  | none => exact writes_markAttrs type none
  | some v =>
    cases v with
    | obj attrs => exact writes_markAttrs type (some attrs)
    | _ => exact (writes_mismatch _ _).within _

theorem writes_mark (v : Json) : Writes (mark v) (markType? v) (markIssues · v) := by
  cases v with
  | obj members =>
    simp only [mark, markType?, Json.get?, markIssues]
    cases members.lookup "type" with
    | none => exact (writes_missing "type").map fun _ => none
    | some v =>
      cases v with
      | str name =>
        dsimp only
        cases knownMark? name with
        | none => exact ((writes_report _).within _).map fun _ => none
        | some type => exact (writes_attrsOfMark type members).map fun _ => some type
      | _ => exact ((writes_mismatch _ _).within _).map fun _ => none
  | _ => exact (writes_mismatch _ _).map fun _ => none

theorem writes_exclusion (typed : Option MarkType × Nat) :
    Writes (exclusion typed) () fun path =>
      match typed.1 with
      | some type =>
        if type ∈ besideCode then []
        else [⟨.incompatibleMarks "code" type.name, path.index typed.2⟩]
      | none => [] := by
  obtain ⟨type?, i⟩ := typed
  cases type? with
  | none => exact writes_pure ()
  | some type => exact (writes_pure ()).ite ((writes_report _).within _)

/-- The checks of the marks of a list give their types. -/
theorem writes_marks (marks : List Json) :
    Writes (marks.zipIdx.mapM fun (m, i) => Reporter.within (.index i) (mark m)) (marks.map markType?)
      fun path => marks.zipIdx.flatMap fun (m, i) => markIssues (path.index i) m := by
  have htypes : (marks.zipIdx.map fun (m, _) => markType? m) = marks.map markType? :=
    List.ext_getElem (by simp) fun i _ _ => by simp
  rw [← htypes]
  exact writes_mapM fun (m, i) => (writes_mark m).within (.index i)

theorem writes_exclusions (marks : List Json) :
    Writes
      (if (marks.map markType?).any (· = some .code) then
        (marks.map markType?).zipIdx.forM exclusion
      else return)
      () (exclusionIssues · marks) := by
  have hany : (marks.map markType?).any (· = some .code) = marks.any (markType? · = some .code) :=
    List.any_map
  unfold exclusionIssues
  rw [hany]
  refine Writes.ite ?_ (writes_pure ())
  refine (writes_forM writes_exclusion).congr fun path => ?_
  rw [List.zipIdx_map, List.flatMap_map]
  rfl

theorem writes_markList (v : Json) : Writes (markList v) () (markListIssues · v) := by
  cases v with
  | arr marks => exact (writes_marks marks).bind (writes_exclusions marks)
  | _ => exact writes_mismatch _ _

theorem writes_textValue (members : Members) :
    Writes (textValue members) () fun path =>
      match members.lookup "text" with
      | some (.str s) => if s.isEmpty then [⟨.stringTooShort 0 1, path.key "text"⟩] else []
      | some other => [Schema.mismatch (path.key "text") "string" other]
      | none => [Schema.missing path "text"] := by
  unfold textValue
  cases members.lookup "text" with
  | none => exact writes_missing "text"
  | some v =>
    cases v with
    | str s => exact ((writes_report _).within _).ite (writes_pure ())
    | _ => exact (writes_mismatch _ _).within _

theorem writes_textMarks (parent : String) (members : Members) :
    Writes (textMarks parent members) () fun path =>
      match members.lookup "marks" with
      | none => []
      | some marks =>
        if parent = "codeBlock" ∧ ¬unmarked members then
          [⟨.marksNotAllowed "text", path.key "marks"⟩]
        else markListIssues (path.key "marks") marks := by
  unfold textMarks
  cases members.lookup "marks" with
  | none => exact writes_pure ()
  | some marks => exact ((writes_report _).ite (writes_markList marks)).within (.key "marks")

theorem writes_text (parent : String) (members : Members) :
    Writes (text parent members) () (textIssues · parent members) :=
  (writes_textValue members).bind (writes_textMarks parent members)

theorem writes_markPlace (type : NodeType) (members : Members) :
    Writes (markPlace type members) () (markPlaceIssues type · members) :=
  (writes_pure ()).ite ((writes_report _).within _)

/-! ## Nodes and documents -/

theorem writes_place (type : NodeType) (allowed : List NodeType) (parent : String) :
    Writes (place type allowed parent) () (placeIssues type allowed parent) :=
  (writes_pure ()).ite (writes_report _)

theorem writes_length (least : Nat) (most : Option Nat) (n : Nat) :
    Writes (Reporter.length least most n) () (lengthIssues least most · n) :=
  (writes_report _).ite (writes_pure ())

theorem writes_absence (rule : ContentRule) : Writes (absence rule) () (absenceIssues rule) := by
  cases rule with
  | ignored | empty => exact writes_pure ()
  | children allowed least most =>
    cases least with
    | zero => exact writes_pure ()
    | succ n => exact writes_missing "content"

mutual

theorem writes_node (parent : String) (allowed : List NodeType) :
    ∀ v : Json, Writes (node parent allowed v) () (nodeIssues · parent allowed v)
  | .obj members => by
    unfold node nodeIssues
    cases members.lookup "type" with
    | none => exact writes_missing "type"
    | some v =>
      cases v with
      | str name =>
        dsimp only
        cases knownNode? name with
        | none => exact (writes_report _).within _
        | some type =>
          refine ((writes_place type allowed parent).bind ((writes_attrs members).bind
            ((writes_nodeAttrs type _).bind ((writes_content type.name (contentRule type) members).bind
              ((writes_text parent members).ite (writes_markPlace type members)))))).congr fun path => ?_
          simp only [List.append_assoc]
      | _ => exact (writes_mismatch _ _).within _
  | .null | .bool _ | .num _ | .str _ | .arr _ => writes_mismatch _ _

theorem writes_content (parent : String) (rule : ContentRule) :
    ∀ members : Members, Writes (content parent rule members) () (contentIssues · parent rule members)
  | [] => writes_absence rule
  | (name, value) :: rest => by
    unfold content contentIssues
    exact ((writes_children parent rule value).within _).ite (writes_content parent rule rest)

theorem writes_children (parent : String) (rule : ContentRule) :
    ∀ v : Json, Writes (children parent rule v) () (childrenIssues · parent rule v)
  | .arr values => by
    cases rule with
    | ignored => exact writes_pure ()
    | empty => exact writes_length 0 (some 0) values.length
    | children allowed least most =>
      exact (writes_length least most values.length).bind (writes_items parent allowed 0 values)
  | .null | .bool _ | .num _ | .str _ | .obj _ => by
    cases rule with
    | ignored => exact writes_pure ()
    | empty | children => exact writes_mismatch _ _

theorem writes_items (parent : String) (allowed : Nat → List NodeType) (i : Nat) :
    ∀ values : List Json, Writes (items parent allowed i values) () (itemIssues · parent allowed i values)
  | [] => writes_pure ()
  | value :: rest =>
    ((writes_node parent (allowed i) value).within _).bind (writes_items parent allowed (i + 1) rest)

end

theorem writes_member (members : Members) (name : String) {check : Json → Reporter Unit}
    {issues : Path → Json → List Issue} (hcheck : ∀ v, Writes (check v) () (issues · v)) :
    Writes (member members name check) () fun path =>
      match members.lookup name with
      | some value => issues (path.key name) value
      | none => [Schema.missing path name] := by
  unfold member
  cases members.lookup name with
  | none => exact writes_missing name
  | some value => exact (hcheck value).within (.key name)

/-- **The checks of a document**, done on a context, write the issues of the document. -/
theorem writes_document (v : Json) : Writes (document v) () (documentIssues · v) := by
  cases v with
  | obj members =>
    refine ((writes_member members "version" (writes_integer (some 1) (some 1))).bind
      ((writes_member members "type" (writes_choice ["doc"])).bind
        (writes_member members "content" (writes_children "doc" (.any topLevel))))).congr fun path => ?_
    exact List.append_assoc _ _ _
  | _ => exact writes_mismatch _ _

end Adf.Schema

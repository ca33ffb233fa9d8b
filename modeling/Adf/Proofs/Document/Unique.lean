import Adf.Proofs.Document.Text
import Adf.Proofs.Schema.Parts

/-!
# A text belongs to one document

Much of a document is left out when it is written: what is empty, and the number of a list that starts at 1.
Still nothing is lost. A text can be read back as a value whatever its depth, and `eq_of_toValue_eq` says
that documents with one value are one document, since what has been left out can be told from the rest.
-/

namespace Adf

namespace Json

/-! ## What has been left out -/

/-- A list that is not there is an empty one. -/
theorem map_sorted_eq_of_present? {xs ys : List Json}
    (h : (present? (.arr xs)).map sorted = (present? (.arr ys)).map sorted) : xs.map sorted = ys.map sorted := by
  cases xs <;> cases ys <;> simp_all [present?, sorted, sortedItems_eq_map]

/-- A text that is not there is an empty one. -/
theorem eq_of_present?_str {s t : String}
    (h : (present? (.str s)).map sorted = (present? (.str t)).map sorted) : s = t := by
  by_cases hs : s.isEmpty <;> by_cases ht : t.isEmpty <;>
    simp_all [present?, sorted]

/-- Two lists of attributes that read back the same. -/
def SameAttrs (attrs attrs' : List (String × Json)) : Prop :=
  ∀ name, (attrs.reverse.lookup name).map sorted = (attrs'.reverse.lookup name).map sorted

theorem sameAttrs_of_present? {attrs attrs' : List (String × Json)}
    (h : (present? (.obj attrs)).map sorted = (present? (.obj attrs')).map sorted) : SameAttrs attrs attrs' := by
  intro name
  rw [← get?_present?, h, get?_present?]

theorem eq_of_map_str {s? t? : Option String} (h : s?.map Json.str = t?.map Json.str) : s? = t? := by
  cases s? <;> cases t? <;> simp_all

theorem eq_of_some_nat {m n : Nat} (h : some (nat m) = some (nat n)) : m = n := by
  simpa [nat] using h

end Json

/-! ## Names -/

theorem Named.eq_of_str_name {α : Type} [Named α] (hfind : ∀ a : α, Named.find? (Named.name a) = some a)
    {a b : α} (h : some (Json.str (Named.name a)) = some (Json.str (Named.name b))) : a = b :=
  (Named.name_inj hfind).mp (Json.str.inj (Option.some.inj h))

/-! ## Attributes -/

open Json

/-- A mark is given by its type and its attributes. -/
theorem Mark.eq_of_attrs {a b : Mark} (htype : a.type = b.type) (hattrs : SameAttrs a.attrs b.attrs) :
    a = b := by
  cases a with
  | link href title =>
    cases b with
    | link href' title' =>
      have hread (href : String) (title : Option String) :
          ((Mark.link href title).attrs.reverse.lookup "href").map sorted = some (.str href) ∧
            ((Mark.link href title).attrs.reverse.lookup "title").map sorted = title.map .str := by
        cases title <;> exact ⟨rfl, rfl⟩
      have hhref := hattrs "href"
      have htitle := hattrs "title"
      rw [(hread href title).1, (hread href' title').1] at hhref
      rw [(hread href title).2, (hread href' title').2] at htitle
      rw [Json.str.inj (Option.some.inj hhref), eq_of_map_str htitle]
    | _ => contradiction
  | subsup script =>
    cases b with
    | subsup script' => exact congrArg Mark.subsup (Named.eq_of_str_name Script.find?_name (hattrs "type"))
    | _ => contradiction
  | textColor color =>
    cases b with
    | textColor color' => exact congrArg Mark.textColor (Json.str.inj (Option.some.inj (hattrs "color")))
    | _ => contradiction
  | _ =>
    cases b <;> cases htype
    rfl

theorem Media.eq_of_attrs {a b : Media} (hattrs : SameAttrs a.attrs b.attrs) : a = b := by
  obtain ⟨atype, aid, acollection, aurl, aalt⟩ := a.lookup_attrs
  obtain ⟨btype, bid, bcollection, burl, balt⟩ := b.lookup_attrs
  have hboth {name : String} {v w : Option Json} (ha : (a.attrs.reverse.lookup name).map sorted = v)
      (hb : (b.attrs.reverse.lookup name).map sorted = w) : v = w :=
    ha.symm.trans ((hattrs name).trans hb)
  have htype : a.type = b.type := Named.eq_of_str_name MediaType.find?_name (hboth atype btype)
  have hid : a.id = b.id := eq_of_map_str (hboth aid bid)
  have hcollection : a.collection = b.collection := eq_of_map_str (hboth acollection bcollection)
  have hurl : a.url = b.url := eq_of_map_str (hboth aurl burl)
  have halt : a.alt = b.alt := eq_of_map_str (hboth aalt balt)
  cases a
  cases b
  simp only [Media.mk.injEq]
  exact ⟨htype, hid, hcollection, hurl, halt⟩

/-- The number 1 is not written. No other one is read as if it were not there. -/
theorem eq_of_order {m n : UInt64}
    (h : (if m = 1 then none else some (nat m.toNat)) = if n = 1 then none else some (nat n.toNat)) :
    m = n := by
  by_cases hm : m = 1
  · by_cases hn : n = 1
    · rw [hm, hn]
    · rw [if_pos hm, if_neg hn] at h
      contradiction
  · by_cases hn : n = 1
    · rw [if_neg hm, if_pos hn] at h
      contradiction
    · rw [if_neg hm, if_neg hn] at h
      exact UInt64.toNat_inj.mp (eq_of_some_nat h)

/-- A container is given by its type and its attributes. -/
theorem Container.eq_of_attrs {c d : Container} (htype : c.type = d.type)
    (hattrs : SameAttrs c.attrs d.attrs) : c = d := by
  cases c with
  | heading level =>
    cases d with
    | heading level' =>
      have hlevel : level.toNat = level'.toNat := eq_of_some_nat (hattrs "level")
      rw [UInt8.toNat_inj.mp hlevel]
    | _ => contradiction
  | codeBlock language =>
    cases d with
    | codeBlock language' =>
      have hread (language : Option String) :
          ((Container.codeBlock language).attrs.reverse.lookup "language").map sorted =
            language.map .str := by
        cases language <;> rfl
      have hlanguage := hattrs "language"
      rw [hread, hread] at hlanguage
      rw [eq_of_map_str hlanguage]
    | _ => contradiction
  | orderedList order =>
    cases d with
    | orderedList order' =>
      have hread (order : UInt64) :
          ((Container.orderedList order).attrs.reverse.lookup "order").map sorted =
            if order = 1 then none else some (.nat order.toNat) := by
        by_cases h : order = 1 <;> simp [Container.attrs, h, sorted, Json.nat]
      have horder := hattrs "order"
      rw [hread, hread] at horder
      rw [eq_of_order horder]
    | _ => contradiction
  | table numbered layout =>
    cases d with
    | table numbered' layout' =>
      have hnumbered : some (Json.bool numbered) = some (Json.bool numbered') :=
        hattrs "isNumberColumnEnabled"
      have hlayout : layout = layout' := Named.eq_of_str_name TableLayout.find?_name (hattrs "layout")
      rw [Json.bool.inj (Option.some.inj hnumbered), hlayout]
    | _ => contradiction
  | mediaSingle layout =>
    cases d with
    | mediaSingle layout' =>
      exact congrArg Container.mediaSingle (Named.eq_of_str_name MediaLayout.find?_name (hattrs "layout"))
    | _ => contradiction
  | _ =>
    cases d <;> cases htype
    rfl

/-! ## Marks and nodes -/

theorem Mark.eq_of_sorted_toJson {a b : Mark} (h : a.toJson.sorted = b.toJson.sorted) : a = b := by
  have hmembers : a.members = b.members := by
    rw [a.sorted_toJson, b.sorted_toJson] at h
    exact Json.obj.inj h
  have htype : a.type = b.type := by
    have hname := a.lookup_type
    rw [hmembers, b.lookup_type] at hname
    exact (MarkType.name_inj.mp (Json.str.inj (Option.some.inj hname))).symm
  have hattrs : (present? (.obj a.attrs)).map sorted = (present? (.obj b.attrs)).map sorted := by
    have ha : a.members.lookup "attrs" = _ := a.lookup_members "attrs"
    rw [hmembers] at ha
    exact ha.symm.trans (b.lookup_members "attrs")
  exact Mark.eq_of_attrs htype (sameAttrs_of_present? hattrs)

namespace Node

/-- What two nodes with the same value have in common. -/
structure Alike (a b : Node) : Prop where
  type : a.type = b.type
  attrs : SameAttrs a.attrs b.attrs
  content : sortedItems (listToJson a.content) = sortedItems (listToJson b.content)
  marks : a.marks = b.marks
  text : a.text?.getD "" = b.text?.getD ""

theorem alike_of_sorted_toJson {a b : Node} (h : a.toJson.sorted = b.toJson.sorted) : a.Alike b := by
  have hmembers : a.members = b.members := by
    rw [a.sorted_toJson, b.sorted_toJson] at h
    exact Json.obj.inj h
  have hfield (name : String) : ((a.fields.lookup name).bind present?).map sorted =
      ((b.fields.lookup name).bind present?).map sorted := by
    rw [← a.lookup_members, hmembers, b.lookup_members]
  have hname := a.lookup_type
  rw [hmembers, b.lookup_type] at hname
  have hmarks : (a.marks.map Mark.toJson).map sorted = (b.marks.map Mark.toJson).map sorted :=
    map_sorted_eq_of_present? (hfield "marks")
  have hcontent : (listToJson a.content).map sorted = (listToJson b.content).map sorted :=
    map_sorted_eq_of_present? (hfield "content")
  refine ⟨?_, sameAttrs_of_present? (hfield "attrs"), ?_, ?_, eq_of_present?_str (hfield "text")⟩
  · exact (NodeType.name_inj.mp (Json.str.inj (Option.some.inj hname))).symm
  · rw [sortedItems_eq_map, sortedItems_eq_map, hcontent]
  · rw [List.map_map, List.map_map] at hmarks
    exact (List.map_inj_right fun _ _ => Mark.eq_of_sorted_toJson).mp hmarks

theorem Alike.leaf_eq {l m : Leaf} (h : (Node.leaf l).Alike (.leaf m)) : l = m := by
  have htype : l.type = m.type := h.type
  cases l with
  | media media =>
    cases m with
    | media media' => exact congrArg Leaf.media (Media.eq_of_attrs h.attrs)
    | _ => contradiction
  | text s marks =>
    cases m with
    | text s' marks' =>
      have hs : s = s' := h.text
      have hmarks : marks = marks' := h.marks
      rw [hs, hmarks]
    | _ => contradiction
  | rule | hardBreak =>
    cases m <;> cases htype
    rfl

/-- No leaf has the type of a container. -/
theorem leaf_type_ne (l : Leaf) (c : Container) : l.type ≠ c.type := by
  cases l <;> cases c <;> simp [Leaf.type, Container.type]

mutual

/-- A node is given by its value. -/
theorem eq_of_sorted_toJson : ∀ {a b : Node}, a.toJson.sorted = b.toJson.sorted → a = b
  | .leaf l, .leaf m, h => congrArg Node.leaf (alike_of_sorted_toJson h).leaf_eq
  | .container c xs, .container d ys, h => by
    have halike := alike_of_sorted_toJson h
    have hc : c = d := Container.eq_of_attrs halike.type halike.attrs
    have hcontent : xs = ys := eq_of_sortedItems halike.content
    rw [hc, hcontent]
  | .leaf l, .container d _, h => absurd (alike_of_sorted_toJson h).type (leaf_type_ne l d)
  | .container c _, .leaf m, h => absurd (alike_of_sorted_toJson h).type.symm (leaf_type_ne m c)

theorem eq_of_sortedItems : ∀ {xs ys : List Node},
    sortedItems (listToJson xs) = sortedItems (listToJson ys) → xs = ys
  | [], [], _ => rfl
  | x :: xs, y :: ys, h => by
    obtain ⟨hfirst, hrest⟩ := List.cons.inj h
    rw [eq_of_sorted_toJson hfirst, eq_of_sortedItems hrest]

end

end Node

/-! ## Documents -/

namespace Document

/-- A document is given by its value. -/
theorem eq_of_toValue {a b : Document} (h : a.toValue = b.toValue) : a = b := by
  have hcontent (d : Document) : d.toValue.get? "content" = some (.arr (sortedItems (Node.listToJson d.content))) := by
    show (sortedMembers [] _).lookup "content" = _
    rw [lookup_sortedMembers]
    rfl
  have hitems := hcontent a
  rw [h, hcontent b] at hitems
  have hnodes : a.content = b.content := (Node.eq_of_sortedItems (Json.arr.inj (Option.some.inj hitems))).symm
  cases a
  cases b
  exact congrArg Document.mk hnodes

/-- Texts that are written in the same style and are equal are read as one value. -/
theorem toValue_eq_of_text {style : Style} (hstyle : style.Blank) {a b : Document}
    (h : a.text style = b.text style) : a.toValue = b.toValue := by
  -- whatever the depth of the documents, some limit allows for both
  let limit := max a.toJson.depth b.toJson.depth
  have hread (d : Document) (hd : d.toJson.depth ≤ limit) :
      read limit (d.text style).toByteArray.toList = .ok d.toValue :=
    (Json.read_text hstyle limit d.unsigned_toJson).trans (within_of_le hd _)
  have ha := hread a (Nat.le_max_left _ _)
  rw [h, hread b (Nat.le_max_right _ _)] at ha
  exact (Except.ok.inj ha).symm

/-- **A text belongs to one document.** -/
theorem text_eq_iff (a b : Document) : (a.compact = b.compact ↔ a = b) ∧ (a.pretty = b.pretty ↔ a = b) := by
  constructor
  · exact ⟨fun h => eq_of_toValue (toValue_eq_of_text Style.blank_compact h), congrArg compact⟩
  · exact ⟨fun h => eq_of_toValue (toValue_eq_of_text Style.blank_pretty h), congrArg pretty⟩

end Document

end Adf

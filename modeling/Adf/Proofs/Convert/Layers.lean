import Adf.CommandLine.Run
import Adf.Proofs.Vocabulary
import Mathlib.Data.List.Induction

/-!
# Options in layers

A document without a fault is a layer: a value for some of the options. The layers of several documents, and
that of the command line, lie over a configuration, and of each option the last value counts. A document with
a fault is no layer at all.
-/

namespace Adf

/-! ## Results that may be errors -/

theorem toOption_bind {ε α β : Type} (x : Except ε α) (f : α → Except ε β) :
    (x >>= f).toOption = x.toOption.bind fun a => (f a).toOption := by
  cases x <;> rfl

theorem toOption_mapError {ε ε' α : Type} (g : ε → ε') (x : Except ε α) :
    (x.mapError g).toOption = x.toOption := by
  cases x <;> rfl

theorem bind_eq_error_iff {ε α β : Type} {x : Except ε α} {f : α → Except ε β} {e : ε} :
    x >>= f = .error e ↔ x = .error e ∨ ∃ a, x = .ok a ∧ f a = .error e := by
  cases x <;> simp [bind, Except.bind]

theorem mapError_eq_ok_iff {ε ε' α : Type} {g : ε → ε'} {x : Except ε α} {a : α} :
    x.mapError g = .ok a ↔ x = .ok a := by
  cases x <;> simp [Except.mapError]

theorem mapError_eq_error_iff {ε ε' α : Type} {g : ε → ε'} {x : Except ε α} {e' : ε'} :
    x.mapError g = .error e' ↔ ∃ e, x = .error e ∧ e' = g e := by
  cases x <;> simp [Except.mapError, eq_comm]

theorem toOption_eq_some_iff {ε α : Type} {x : Except ε α} {a : α} : x.toOption = some a ↔ x = .ok a := by
  cases x <;> simp [Except.toOption]

theorem toOption_eq_none_iff {ε α : Type} {x : Except ε α} : x.toOption = none ↔ ∃ e, x = .error e := by
  cases x <;> simp [Except.toOption]

namespace Convert

/-! ## Layers -/

/-- Some of the options, those that have a value. -/
structure Layer where
  tableLayout : Option TableLayout
  externalMedia : Option Bool
  imageLayout : Option MediaLayout

/-- The last value that any of the sources gives. -/
def lastGiven {α β : Type} (given : β → Option α) (sources : List β) : Option α :=
  (sources.filterMap given).getLast?

theorem lastGiven_append {α β : Type} (given : β → Option α) (sources later : List β) :
    lastGiven given (sources ++ later) = (lastGiven given later).or (lastGiven given sources) := by
  unfold lastGiven
  rw [List.filterMap_append, List.getLast?_append]

theorem lastGiven_singleton {α β : Type} (given : β → Option α) (source : β) :
    lastGiven given [source] = given source := by
  cases h : given source <;> simp [lastGiven, h]

/-- The configuration under layers: of each option the last value given, and the one in the configuration if
there is none. -/
def Config.under (layers : List Layer) (config : Config) : Config :=
  { config with
    tableLayout := (lastGiven Layer.tableLayout layers).getD config.tableLayout
    externalMedia := (lastGiven Layer.externalMedia layers).getD config.externalMedia
    imageLayout := (lastGiven Layer.imageLayout layers).getD config.imageLayout }

theorem Config.under_append (layers later : List Layer) (config : Config) :
    config.under (layers ++ later) = (config.under layers).under later := by
  simp only [under, lastGiven_append, Option.getD_or]

/-! ## What a document says -/

/-- The value of an option whose values are written by name: none if there is no name, and no result if the
name is not one of them. -/
def named? {α : Type} [Named α] : Option String → Option (Option α)
  | none => some none
  | some text => (Named.find? text).map some

theorem named?_eq_some_iff {α : Type} [Named α] (hfind : ∀ a : α, Named.find? (Named.name a) = some a)
    {name : Option String} {value : Option α} : named? name = some value ↔ name = value.map Named.name := by
  cases name with
  | none => cases value <;> simp [named?]
  | some text =>
    cases value with
    | none => simp [named?]
    | some value =>
      rw [named?, Option.map_some, Option.map_eq_some_iff]
      simp [Named.find?_eq_some_iff hfind, eq_comm]

/-- What a file says, as a layer. -/
def ConfigFile.layer? (file : ConfigFile) : Option Layer := do
  let tableLayout ← named? file.tableLayout
  let imageLayout ← named? file.imageLayout
  return { tableLayout, imageLayout, externalMedia := file.externalMedia }

/-- What a document says, as a layer. -/
def layer? (text : String) : Option Layer := do
  (← (ConfigFile.read text).toOption).layer?

theorem ConfigFile.layer?_eq_some_iff {file : ConfigFile} {layer : Layer} :
    file.layer? = some layer ↔
      file.tableLayout = layer.tableLayout.map TableLayout.name ∧
      file.externalMedia = layer.externalMedia ∧
      file.imageLayout = layer.imageLayout.map MediaLayout.name := by
  simp only [layer?, Option.bind_eq_bind, Option.bind_eq_some_iff, Option.pure_def, Option.some.injEq]
  constructor
  · rintro ⟨tableLayout, htable, imageLayout, himage, rfl⟩
    exact ⟨(named?_eq_some_iff TableLayout.find?_name).mp htable, rfl,
      (named?_eq_some_iff MediaLayout.find?_name).mp himage⟩
  · rintro ⟨htable, hmedia, himage⟩
    exact ⟨_, (named?_eq_some_iff TableLayout.find?_name).mpr htable,
      _, (named?_eq_some_iff MediaLayout.find?_name).mpr himage, by rw [hmedia]⟩

/-! ## Entries of a document -/

/-- The entries that a document may have. -/
inductive Conforms : String × Toml.Value → Prop
  | tableLayout (name : String) : Conforms ("table-layout", .string name)
  | externalMedia (value : Bool) : Conforms ("external-media", .boolean value)
  | imageLayout (name : String) : Conforms ("image-layout", .string name)

/-- The text that an entry gives to an option. -/
def textGiven (key : String) : String × Toml.Value → Option String
  | (other, .string text) => if other = key then some text else none
  | _ => none

/-- The truth value that an entry gives to an option. -/
def truthGiven (key : String) : String × Toml.Value → Option Bool
  | (other, .boolean value) => if other = key then some value else none
  | _ => none

/-- The options as they are given by the entries of a document. -/
def ConfigFile.ofEntries (entries : List (String × Toml.Value)) : ConfigFile where
  tableLayout := lastGiven (textGiven "table-layout") entries
  externalMedia := lastGiven (truthGiven "external-media") entries
  imageLayout := lastGiven (textGiven "image-layout") entries

/-- An entry is taken in if and only if it is one of those that a document may have. -/
theorem ConfigFile.add_eq_ok_iff {entries : List (String × Toml.Value)} {entry : String × Toml.Value}
    {file : ConfigFile} :
    (ofEntries entries).add entry.1 entry.2 = .ok file ↔
      Conforms entry ∧ file = ofEntries (entries ++ [entry]) := by
  obtain ⟨key, value⟩ := entry
  simp only [ofEntries, lastGiven_append, lastGiven_singleton]
  constructor
  · intro h
    unfold add at h
    split at h
    · cases value with
      | string name =>
        cases h
        exact ⟨.tableLayout name, by simp [textGiven, truthGiven]⟩
      | _ => contradiction
    · cases value with
      | boolean value =>
        cases h
        exact ⟨.externalMedia value, by simp [textGiven, truthGiven]⟩
      | _ => contradiction
    · cases value with
      | string name =>
        cases h
        exact ⟨.imageLayout name, by simp [textGiven, truthGiven]⟩
      | _ => contradiction
    · contradiction
  · rintro ⟨hconforms, rfl⟩
    cases hconforms <;> simp only [textGiven, truthGiven, if_pos, Option.none_or, Option.some_or] <;> rfl

theorem ConfigFile.foldlM_add_eq_ok_iff (entries : List (String × Toml.Value)) {file : ConfigFile} :
    entries.foldlM (fun file (key, value) => file.add key value) (ofEntries []) = .ok file ↔
      (∀ entry ∈ entries, Conforms entry) ∧ file = ofEntries entries := by
  induction entries using List.reverseRecOn generalizing file with
  | nil =>
    show Except.ok (ofEntries []) = .ok file ↔ _
    simp [eq_comm]
  | append_singleton entries entry ih =>
    rw [List.foldlM_append, ← toOption_eq_some_iff, toOption_bind, Option.bind_eq_some_iff]
    simp only [List.foldlM_cons, List.foldlM_nil, bind_pure, toOption_eq_some_iff, ih, List.mem_append,
      List.mem_singleton]
    constructor
    · rintro ⟨file', ⟨hentries, rfl⟩, hadd⟩
      obtain ⟨hentry, rfl⟩ := add_eq_ok_iff.mp hadd
      refine ⟨?_, rfl⟩
      rintro e (he | rfl)
      · exact hentries e he
      · exact hentry
    · rintro ⟨hentries, rfl⟩
      exact ⟨ofEntries entries, ⟨fun e he => hentries e (.inl he), rfl⟩,
        add_eq_ok_iff.mpr ⟨hentries entry (.inr rfl), rfl⟩⟩

theorem ConfigFile.read_eq_ok_iff {text : String} {file : ConfigFile} :
    read text = .ok file ↔
      ∃ entries, Toml.read? text = some entries ∧ (∀ entry ∈ entries, Conforms entry) ∧
        file = ofEntries entries := by
  unfold read
  cases h : Toml.read? text with
  | none => simp
  | some entries =>
    refine (foldlM_add_eq_ok_iff entries).trans ?_
    simp

/-- A document is a layer if it is TOML, has none but the keys of the options, each with a value of its type,
and names layouts that exist. -/
def Gives (text : String) (layer : Layer) : Prop :=
  ∃ entries, Toml.read? text = some entries ∧ (∀ entry ∈ entries, Conforms entry) ∧
    lastGiven (textGiven "table-layout") entries = layer.tableLayout.map TableLayout.name ∧
    lastGiven (truthGiven "external-media") entries = layer.externalMedia ∧
    lastGiven (textGiven "image-layout") entries = layer.imageLayout.map MediaLayout.name

theorem layer?_eq_some_iff {text : String} {layer : Layer} : layer? text = some layer ↔ Gives text layer := by
  simp only [layer?, Option.bind_eq_bind, Option.bind_eq_some_iff, toOption_eq_some_iff,
    ConfigFile.read_eq_ok_iff, ConfigFile.layer?_eq_some_iff]
  constructor
  · rintro ⟨_, ⟨entries, hread, hconforms, rfl⟩, hlayer⟩
    exact ⟨entries, hread, hconforms, hlayer⟩
  · rintro ⟨entries, hread, hconforms, hlayer⟩
    exact ⟨_, ⟨entries, hread, hconforms, rfl⟩, hlayer⟩

/-! ## Merging -/

theorem Config.layout_toOption {α : Type} [Named α] (kind : String) (present : α) (name : Option String) :
    (layout (Named.parse kind) present name).toOption = (named? name).map fun value => value.getD present := by
  cases name with
  | none => rfl
  | some text =>
    rw [layout, toOption_mapError, Named.parse, named?]
    cases Named.find? (α := α) text <;> rfl

theorem Config.override_toOption (file : ConfigFile) (config : Config) :
    (override file config).toOption = file.layer?.map fun layer => config.under [layer] := by
  simp only [override, TableLayout.parse, MediaLayout.parse, toOption_bind, layout_toOption, ConfigFile.layer?]
  cases named? (α := TableLayout) file.tableLayout with
  | none => rfl
  | some tableLayout =>
    cases named? (α := MediaLayout) file.imageLayout with
    | none => rfl
    | some imageLayout =>
      simp only [under, lastGiven_singleton]
      rfl

theorem Config.merge_toOption (text : String) (config : Config) :
    (merge text config).toOption = (layer? text).map fun layer => config.under [layer] := by
  simp only [merge, layer?, toOption_bind, override_toOption, Option.bind_eq_bind, Option.map_bind]
  rfl

/-- A document that is a layer comes to lie over the configuration, and any other leaves it as it is. -/
theorem Config.mergeOrKeep_eq (config : Config) (text : String) :
    config.mergeOrKeep text = config.under (layer? text).toList := by
  have hmerge := merge_toOption text config
  unfold mergeOrKeep
  cases hlayer : layer? text with
  | none =>
    rw [hlayer] at hmerge
    obtain ⟨e, he⟩ := toOption_eq_none_iff.mp hmerge
    rw [he]
    rfl
  | some layer =>
    rw [hlayer] at hmerge
    rw [toOption_eq_some_iff.mp hmerge]
    rfl

theorem Config.mergeEach_eq (texts : List String) (config : Config) :
    mergeEach texts config = config.under (texts.filterMap layer?) := by
  induction texts using List.reverseRecOn with
  | nil => rfl
  | append_singleton texts text ih =>
    have hlast : [text].filterMap layer? = (layer? text).toList := by
      cases h : layer? text <;> simp [h]
    calc mergeEach (texts ++ [text]) config
        = (mergeEach texts config).mergeOrKeep text := List.foldl_append
      _ = (config.under (texts.filterMap layer?)).under (layer? text).toList := by rw [ih, mergeOrKeep_eq]
      _ = config.under ((texts ++ [text]).filterMap layer?) := by
        rw [← under_append, List.filterMap_append, hlast]

end Convert

/-! ## The command line -/

namespace CommandLine

open Adf.Convert (Config Layer Gives lastGiven_singleton layer? layer?_eq_some_iff)

/-- The options of the command line; the flag for external media can only be set. -/
def Arguments.layer (a : Arguments) : Layer where
  tableLayout := a.tableLayout
  externalMedia := if a.externalMedia then some true else none
  imageLayout := a.imageLayout

theorem Arguments.override_eq (a : Arguments) (config : Config) :
    a.override config = config.under [a.layer] := by
  simp only [override, Config.under, lastGiven_singleton, layer]
  cases a.externalMedia <;> rfl

/-- The layers that the configuration file gives: none if there is no such file, else the one that its text is,
and no result if it cannot be read or is none. -/
def Arguments.fileLayers? (a : Arguments) (read : String → Except FileError ByteArray) : Option (List Layer) :=
  match a.config with
  | none => some []
  | some path => do
    let layer ← layer? (← (decode (read path)).toOption)
    return [layer]

theorem Arguments.configuration_toOption (a : Arguments) (read : String → Except FileError ByteArray) :
    (a.configuration read).toOption =
      (a.fileLayers? read).map fun layers => Config.under (layers ++ [a.layer]) {} := by
  simp only [Config.under_append, ← override_eq, configuration, fileLayers?]
  cases a.config with
  | none => rfl
  | some path =>
    simp only [toOption_bind, toOption_mapError, Config.merge_toOption]
    cases (decode (read path)).toOption with
    | none => rfl
    | some text =>
      simp only [Option.bind_some, Option.bind_eq_bind]
      cases layer? text <;> rfl

theorem Arguments.configuration_eq_error_iff (a : Arguments) {read : String → Except FileError ByteArray}
    {failure : Failure} :
    a.configuration read = .error failure ↔
      ∃ path, a.config = some path ∧
        ((∃ e, decode (read path) = .error e ∧ failure = .unreadableConfig path e) ∨
          ∃ text e, decode (read path) = .ok text ∧ Config.merge text {} = .error e ∧
            failure = .invalidConfig path e) := by
  rw [configuration]
  cases a.config with
  | none =>
    refine iff_of_false nofun ?_
    rintro ⟨path, hpath, -⟩
    contradiction
  | some path =>
    simp only [Option.some.injEq, exists_eq_left', bind_eq_error_iff, mapError_eq_error_iff,
      mapError_eq_ok_iff]
    constructor
    · rintro (hread | ⟨text, hread, ⟨e, hmerge, rfl⟩ | ⟨config, -, hdone⟩⟩)
      · exact .inl hread
      · exact .inr ⟨text, e, hread, hmerge, rfl⟩
      · contradiction
    · rintro (hread | ⟨text, e, hread, hmerge, rfl⟩)
      · exact .inl hread
      · exact .inr ⟨text, hread, .inl ⟨e, hmerge, rfl⟩⟩

theorem Arguments.readConfiguration_directory (a : Arguments) (d : Directory) :
    (a.readConfiguration Directory.host).run d = (a.configuration d.readFile, d) := by
  unfold readConfiguration
  cases h : a.config with
  | none =>
    show (a.configuration _, d) = _
    simp only [configuration, h]
  | some path =>
    show (a.configuration fun _ => d.readFile path, d) = _
    simp only [configuration, h]

/-- Documents merged in turn leave each option with the last value that any of those without a fault gives,
and with its initial value if none of them does. The configuration of a run is made in the same way from the
defaults, the configuration file and the command line, and fails if and only if the file cannot be read or
merged. -/
theorem mergeEach_and_configuration_eq_under :
    (∀ texts config, Config.mergeEach texts config = config.under (texts.filterMap layer?)) ∧
    (∀ text layer, layer? text = some layer ↔ Gives text layer) ∧
    (∀ text config, (∃ e, Config.merge text config = .error e) ↔ layer? text = none) ∧
    (∀ (a : Arguments) read config, a.configuration read = .ok config ↔
      ∃ layers, a.fileLayers? read = some layers ∧ config = Config.under (layers ++ [a.layer]) {}) ∧
    (∀ (a : Arguments) read failure, a.configuration read = .error failure ↔
      ∃ path, a.config = some path ∧
        ((∃ e, decode (read path) = .error e ∧ failure = .unreadableConfig path e) ∨
          ∃ text e, decode (read path) = .ok text ∧ Config.merge text {} = .error e ∧
            failure = .invalidConfig path e)) ∧
    ∀ (a : Arguments) (d : Directory),
      (a.readConfiguration Directory.host).run d = (a.configuration d.readFile, d) := by
  refine ⟨Config.mergeEach_eq, fun _ _ => layer?_eq_some_iff, ?_, ?_,
    fun a _ _ => a.configuration_eq_error_iff, Arguments.readConfiguration_directory⟩
  · intro text config
    rw [← toOption_eq_none_iff, Config.merge_toOption, Option.map_eq_none_iff]
  · intro a read config
    rw [← toOption_eq_some_iff, a.configuration_toOption, Option.map_eq_some_iff]
    simp only [eq_comm]

/-- A text that gives every option counts. One that names a key that does not exist gives nothing, though its
other keys are right, and fails a run. The flag of a run overrides what the text says. -/
example :
    let options (config : Config) := (config.tableLayout, config.externalMedia, config.imageLayout)
    let text := "table-layout = \"wide\"\nexternal-media = false\nimage-layout = \"wrap-left\""
    let faulty := "table-layout = \"center\"\nexternal-media = true\nwidth = 3"
    let flagged : Arguments := { config := some "c.toml", externalMedia := true }
    options (Config.mergeEach [text, faulty] {}) = (.wide, false, .wrapLeft) ∧
      ((flagged.configuration fun _ => .ok text.toByteArray).toOption.map options) =
        some (.wide, true, .wrapLeft) ∧
      ((flagged.configuration fun _ => .ok faulty.toByteArray).toOption.map options) = none := by
  decide +kernel

end CommandLine

end Adf

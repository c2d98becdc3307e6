import Reckoner.Proofs.Json.Soundness
import Reckoner.Settings

/-!
# Saved settings

Settings that have been saved are loaded as they were, over the defaults: a default keeps its place
and gives way to a saved value, and the other settings follow in their order
(`Reckoner.Settings.load_save`). The file holds the settings of any names and values, however deep,
so that nothing is lost on the way. Settings that have been loaded are complete, and stay so when
more of them are written over them.
-/

namespace Reckoner.Settings

open Json

/-! ## The file -/

/-- The text of the file is read back as the settings. -/
theorem load_fileText {settings : Settings} (distinct : (Entries.keys settings).Nodup)
    (storable : ∀ entry ∈ settings, entry.2.Storable) :
    load (.text settings.fileText) = .ok (complete settings) := by
  rw [load, fileText, read_indented (.object distinct storable)]

/-- Wherever a file can be written, settings are saved as they are. -/
theorem save_of_ne {file : SettingsFile} (writable : file ≠ .directory) (settings : Settings) :
    save settings file = (settings, .text settings.fileText) := by
  cases file with
  | directory => exact absurd rfl writable
  | absent => rfl
  | text content => rfl

/-! ## The defaults -/

theorem nodup_defaults : (Entries.keys defaults).Nodup := by
  decide

theorem storable_of_small {n : ℤ} (small : n.natAbs < 10 ^ 3) : (integer n).Storable :=
  .integer (Nat.lt_of_lt_of_le small (Nat.pow_le_pow_right (by decide) (by decide)))

/-- The defaults can be saved themselves. -/
theorem storable_defaults : ∀ entry ∈ defaults, entry.2.Storable := by
  have domain : (array [integer (-10), integer 10]).Storable := by
    refine .array (List.forall_mem_cons.mpr ⟨storable_of_small (by decide), ?_⟩)
    exact List.forall_mem_singleton.mpr (storable_of_small (by decide))
  intro entry member
  simp only [defaults, List.mem_cons, List.not_mem_nil, or_false] at member
  rcases member with rfl | rfl | rfl | rfl | rfl | rfl | rfl | rfl | rfl
  · exact storable_of_small (by decide)
  · exact .bool _
  · exact .bool _
  · exact .bool _
  · exact .bool _
  · exact .bool _
  · exact .bool _
  · exact domain
  · exact storable_of_small (by decide)

theorem nodup_complete (settings : Settings) : (Entries.keys (complete settings)).Nodup :=
  Entries.nodup_overlay nodup_defaults settings

theorem storable_complete {settings : Settings}
    (storable : ∀ entry ∈ settings, entry.2.Storable) :
    ∀ entry ∈ complete settings, entry.2.Storable :=
  Entries.forall_mem_overlay storable_defaults storable

/-! ## Saving and loading -/

/-- **Settings survive the file.** Saved settings are loaded as the defaults in their order, each
with the saved value if there is one, and then the other settings in theirs. A setting that is
looked up is the saved one, else the default, else zero. Saving what was loaded changes nothing. -/
theorem load_save {settings : Settings} (distinct : (Entries.keys settings).Nodup)
    (storable : ∀ entry ∈ settings, entry.2.Storable) {file : SettingsFile}
    (writable : file ≠ .directory) :
    ∃ loaded, load (save settings file).2 = .ok loaded ∧
      loaded = defaults.map (fun entry => (entry.1, (settings.get? entry.1).getD entry.2)) ++
        settings.filter (fun entry => decide (entry.1 ∉ Entries.keys defaults)) ∧
      (∀ name, loaded.value name =
        ((settings.get? name).or (defaults.get? name)).getD (.integer 0)) ∧
      load (save loaded (save settings file).2).2 = .ok loaded := by
  have saved := save_of_ne writable settings
  have again := @save_of_ne (.text settings.fileText) (fun is => by cases is) (complete settings)
  refine ⟨complete settings, ?_, ?_, fun name => ?_, ?_⟩
  · rw [saved]
    exact load_fileText distinct storable
  · exact Entries.overlay_eq nodup_defaults distinct
  · rw [value, complete, Entries.get?_overlay defaults distinct]
  · rw [saved, again, load_fileText (nodup_complete settings) (storable_complete storable)]
    exact congrArg Except.ok (Entries.overlay_overlay nodup_defaults _)

/-- A default with another value, and a new setting with a quote, a line break, a character of two
units and the non-number within it. -/
def sample : Settings :=
  [("motto", .object [("\"ℝ\"\n😀", .array [.double (Float.ofBits 0x7FF8000000000000), .array []])]),
    ("degree_mode", .integer (-3))]

theorem storable_sample : ∀ entry ∈ sample, entry.2.Storable := by
  have empty : (array []).Storable := .array fun item member => by cases member
  have number := Storable.double (Float.ofBits 0x7FF8000000000000)
  have items := Storable.array
    (List.forall_mem_cons.mpr ⟨number, List.forall_mem_singleton.mpr empty⟩)
  have small : (integer (-3)).Storable := storable_of_small (by decide)
  refine List.forall_mem_cons.mpr ⟨?_, List.forall_mem_singleton.mpr small⟩
  exact .object (by decide) (List.forall_mem_singleton.mpr items)

theorem load_save_sample : load (save sample .absent).2 =
    .ok [("decimal_places", .integer 6), ("fractions", .bool false), ("degree_mode", .integer (-3)),
      ("lenient_tokenizer", .bool false), ("debug", .bool false), ("show_steps", .bool true),
      ("copy_result", .bool false), ("graph_domain", .array [.integer (-10), .integer 10]),
      ("graph_samples", .integer 201), ("motto", .object
        [("\"ℝ\"\n😀", .array [.double (Float.ofBits 0x7FF8000000000000), .array []])])] := by
  have distinct : (Entries.keys sample).Nodup := by decide
  obtain ⟨loaded, read, is, -⟩ := @load_save _ distinct storable_sample .absent fun is => by
    cases is
  rw [read, is]
  rfl

/-! ## Loaded settings -/

/-- The members of the object that a file holds; none if it holds no object. -/
def fileMembers : SettingsFile → Settings
  | .text content =>
      match Json.read content with
      | .ok (.object members) => members
      | _ => []
  | _ => []

/-- The file can be written, and no integer in it is past the limit on digits. -/
structure IsUsable (file : SettingsFile) : Prop where
  writable : file ≠ .directory
  readable : ∀ content, file = .text content → Json.read content ≠ .error .tooManyDigits

/-- A usable file gives the members that it holds, over the defaults. -/
theorem load_of_isUsable {file : SettingsFile} (usable : IsUsable file) :
    load file = .ok (complete (fileMembers file)) := by
  cases file with
  | absent => rfl
  | directory => exact absurd rfl usable.writable
  | text content =>
      have readable := usable.readable content rfl
      rw [load, fileMembers]
      cases read : Json.read content with
      | error fault =>
          cases fault with
          | malformed => rfl
          | tooManyDigits => exact absurd read readable
      | ok value => cases value <;> rfl

/-- Settings as they are loaded: all defaults are among them, in front and in their order, no name
is there twice, and the values can be saved. -/
structure Loaded (settings : Settings) : Prop where
  isComplete : complete settings = settings
  distinct : (Entries.keys settings).Nodup
  storable : ∀ entry ∈ settings, entry.2.Storable

/-- A file holds no name twice, and values that can be saved. -/
theorem storable_fileMembers (file : SettingsFile) : (Entries.keys (fileMembers file)).Nodup ∧
    ∀ entry ∈ fileMembers file, entry.2.Storable := by
  have none : (Entries.keys ([] : Settings)).Nodup := List.nodup_nil
  unfold fileMembers
  split
  · split
    · rename_i members read
      cases storable_of_read read with
      | object distinct each => exact ⟨distinct, each⟩
    · exact ⟨none, List.forall_mem_nil _⟩
  · exact ⟨none, List.forall_mem_nil _⟩

/-- The members that a file holds make loaded settings. -/
theorem loaded_complete (file : SettingsFile) : Loaded (complete (fileMembers file)) := by
  obtain ⟨distinct, storable⟩ := storable_fileMembers file
  exact ⟨Entries.overlay_overlay nodup_defaults _, nodup_complete _,
    storable_complete storable⟩

/-- A setting is looked up in the file, and then among the defaults. -/
theorem get?_complete_fileMembers (file : SettingsFile) (name : String) :
    Entries.get? (complete (fileMembers file)) name =
      (Entries.get? (fileMembers file) name).or (Entries.get? defaults name) :=
  Entries.get?_overlay defaults (storable_fileMembers file).1 name

variable {settings : Settings}

/-- Settings stay loaded settings when others are written over them. -/
theorem Loaded.overlay (loaded : Loaded settings) {others : List (String × Json)}
    (storable : ∀ entry ∈ others, entry.2.Storable) : Loaded (Entries.overlay settings others) where
  isComplete := by rw [complete, Entries.overlay_assoc loaded.distinct, ← complete, loaded.isComplete]
  distinct := Entries.nodup_overlay loaded.distinct others
  storable := Entries.forall_mem_overlay loaded.storable storable

/-- The text of loaded settings is one of an object with them as its members. -/
theorem Loaded.read_fileText (loaded : Loaded settings) :
    Json.read settings.fileText = .ok (.object settings) :=
  read_indented (.object loaded.distinct loaded.storable)

theorem Loaded.fileMembers_fileText (loaded : Loaded settings) :
    fileMembers (.text settings.fileText) = settings := by
  rw [fileMembers, loaded.read_fileText]

theorem Loaded.isUsable_fileText (loaded : Loaded settings) :
    IsUsable (.text settings.fileText) := by
  refine ⟨nofun, fun content is => ?_⟩
  cases is
  rw [loaded.read_fileText]
  exact nofun

end Reckoner.Settings

import Reckoner.CommandLine.Session
import Reckoner.Proofs.Persistence

/-!
# Settings stored from the command line

A command line of assignments alone stores settings: those of the file stay, over the defaults, and
the assigned values are written over them. Storing assignments in groups, one session after the
other, leaves the same file as storing all of them at once
(`Reckoner.CommandLine.stores_groups`).
-/

namespace Reckoner.CommandLine

open Text

/-! ## Assignments -/

/-- The value that the text of a setting gives: the JSON value if it is the text of one, else the
text itself. -/
def givenValue (text : String) : Json :=
  match Json.read text with
  | .ok value => value
  | .error _ => .text text

/-- The setting that an argument assigns, and its value. -/
def given? (argument : String) : Option (String × Json) :=
  (assignment? argument).map fun (name, text) => (name, givenValue (String.ofList text))

/-- The value that the last assignment to a name gives. -/
def lastGiven (arguments : List String) (name : String) : Option Json :=
  Entries.get? (arguments.filterMap given?).reverse name

/-- The argument assigns a value to a setting: it has a sign of equality, it is no option, and the
value holds no integer past the limit on digits. -/
structure IsAssignment (argument : String) : Prop where
  assigns : '=' ∈ argument.toList
  plain : argument.toList.head? ≠ some '-'
  readable : ∀ name text, assignment? argument = some (name, text) →
    Json.read (String.ofList text) ≠ .error .tooManyDigits

/-- An assignment is read as the setting that it assigns. -/
theorem IsAssignment.exists_given? {argument : String} (is : IsAssignment argument) :
    ∃ setting, given? argument = some setting ∧ readSetting argument = .ok setting := by
  obtain ⟨name, text, cut⟩ := List.eq_append_cons_of_mem is.assigns
  have assigned : assignment? argument = some (String.ofList (strip name), text) := by
    rw [assignment?, cutAt?_eq_some.mpr cut]
    rfl
  have readable := is.readable _ _ assigned
  refine ⟨_, by rw [given?, assigned, Option.map_some], ?_⟩
  unfold readSetting givenValue
  rw [assigned]
  dsimp only
  cases read : Json.read (String.ofList text) with
  | ok value => rfl
  | error fault =>
      cases fault with
      | malformed => rfl
      | tooManyDigits => exact absurd read readable

/-- Whatever an assignment gives can be saved. -/
theorem storable_given (arguments : List String) :
    ∀ setting ∈ arguments.filterMap given?, setting.2.Storable := by
  intro setting member
  obtain ⟨argument, -, gives⟩ := List.mem_filterMap.mp member
  obtain ⟨⟨name, text⟩, -, rfl⟩ := Option.map_eq_some_iff.mp gives
  change (givenValue (String.ofList text)).Storable
  unfold givenValue
  split
  · exact Json.storable_of_read ‹_›
  · exact .text _

/-! ## The command line -/

/-- The command line that stores settings: every assignment behind an option of its own. -/
def setLine (assignments : List String) : List String :=
  assignments.flatMap fun assignment => ["--set", assignment]

variable {assignments : List String}

theorem ofArguments_set (rest : List String) : Piece.ofArguments ("--set" :: rest) =
    (Piece.ofArguments rest).map fun pieces => .option .set none :: pieces := by
  rw [Piece.ofArguments, if_neg (by decide)]
  change (Except.ok (Piece.option .set none) >>= fun piece => _) = _
  cases Piece.ofArguments rest <;> rfl

/-- A text that does not start with a minus is no option. -/
theorem ofArguments_plain {argument : String} (plain : argument.toList.head? ≠ some '-')
    (rest : List String) : Piece.ofArguments (argument :: rest) =
      (Piece.ofArguments rest).map fun pieces => .plain argument :: pieces := by
  have noSeparator : argument ≠ "--" := by
    rintro rfl
    exact plain rfl
  rw [Piece.ofArguments, if_neg noSeparator]
  split
  · rename_i text starts
    exact absurd (congrArg List.head? starts) plain
  · cases Piece.ofArguments rest <;> rfl

theorem ofArguments_setLine (each : ∀ assignment ∈ assignments, IsAssignment assignment) :
    Piece.ofArguments (setLine assignments) =
      .ok (assignments.flatMap fun assignment => [.option .set none, .plain assignment]) := by
  induction assignments with
  | nil => rfl
  | cons assignment rest ih =>
      obtain ⟨is, ofRest⟩ := List.forall_mem_cons.mp each
      change Piece.ofArguments ("--set" :: assignment :: setLine rest) = _
      rw [ofArguments_set, ofArguments_plain is.plain, ih ofRest]
      rfl

/-- The settings are read one by one, in their order. -/
theorem read_setLine (each : ∀ assignment ∈ assignments, IsAssignment assignment)
    (before : List (String × Json)) {fuel : ℕ} (enough : assignments.length < fuel) :
    Progress.read fuel ⟨{ newSettings := before }, false, []⟩
        (assignments.flatMap fun assignment => [.option .set none, .plain assignment]) =
      .ok ⟨{ newSettings := before ++ assignments.filterMap given? }, false, []⟩ := by
  induction assignments generalizing before fuel with
  | nil =>
      obtain ⟨fuel, rfl⟩ := Nat.exists_eq_add_one.mpr enough
      rw [List.filterMap_nil, List.append_nil]
      rfl
  | cons assignment rest ih =>
      obtain ⟨is, ofRest⟩ := List.forall_mem_cons.mp each
      obtain ⟨fuel, rfl⟩ := Nat.exists_eq_add_one.mpr (Nat.zero_lt_of_lt enough)
      obtain ⟨setting, gives, read⟩ := is.exists_given?
      have followed : Progress.follow { newSettings := before } .set [assignment] =
          .ok { newSettings := before ++ [setting] } := by
        rw [Progress.follow, read]
        rfl
      rw [List.filterMap_cons_some gives, List.append_cons]
      rw [← ih ofRest _ (Nat.lt_of_succ_lt_succ enough)]
      change (Progress.follow _ .set [assignment] >>= fun arguments =>
        if arguments.help then _ else _) = _
      rw [followed]
      rfl

/-- **The command line is read as the settings that it assigns.** -/
theorem parse_setLine (each : ∀ assignment ∈ assignments, IsAssignment assignment) :
    Arguments.parse (setLine assignments) =
      .ok { newSettings := assignments.filterMap given? } := by
  have enough : assignments.length <
      (assignments.flatMap fun assignment =>
        [Piece.option .set none, .plain assignment]).length + 1 := by
    rw [List.length_flatMap]
    simp
    omega
  rw [Arguments.parse, ofArguments_setLine each]
  change (Progress.read _ ⟨{ newSettings := [] }, false, []⟩ _ >>= _) = _
  rw [read_setLine each [] enough]
  rfl

/-! ## Sessions that store settings -/

/-- Runs a session with a command line, if there is nothing wrong with it. -/
def runLine (line : List String) (surroundings : Surroundings) : Except UsageError Session :=
  (Arguments.parse line).map fun arguments => run arguments surroundings

/-- Sessions that store one group of assignments each, one session after the other: each finds the
file that the one before left behind, prints and copies nothing, and ends with exit code zero,
whatever the clipboard and the input hold. -/
inductive Stores : SettingsFile → List (List String) → SettingsFile → Prop
  | nil {file : SettingsFile} : Stores file [] file
  | cons {file next last : SettingsFile} {group : List String} {groups : List (List String)}
      (stores : ∀ clipboard input,
        runLine (setLine group) ⟨file, clipboard, input⟩ = .ok ⟨Reply.done 0, next⟩)
      (further : Stores next groups last) : Stores file (group :: groups) last

/-- New settings are written over those of the file, which are complete afterwards. -/
theorem run_newSettings {file : SettingsFile} (usable : Settings.IsUsable file)
    {pairs : List (String × Json)} (some : pairs ≠ [])
    (storable : ∀ pair ∈ pairs, pair.2.Storable) (clipboard : String) (input : List String) :
    run { newSettings := pairs } ⟨file, clipboard, input⟩ =
      ⟨Reply.done 0,
        .text (Settings.fileText
          (Entries.overlay (Settings.complete (Settings.fileMembers file)) pairs))⟩ := by
  have loaded := (Settings.loaded_complete file).overlay storable
  have stored : Arguments.storeSettings { newSettings := pairs } file =
      .ok (.text (Settings.fileText
        (Entries.overlay (Settings.complete (Settings.fileMembers file)) pairs))) := by
    rw [Arguments.storeSettings, List.isEmpty_eq_false_iff.mpr some, Settings.load_of_isUsable usable,
      if_neg Bool.false_ne_true, Outcome.ok_bind, Entries.overlay_ofPairs,
      Settings.save_of_ne usable.writable]
    rfl
  have idle : Arguments.task { newSettings := pairs } clipboard = .nothing := by
    rw [Arguments.task, List.isEmpty_eq_false_iff.mpr some]
    rfl
  rw [run, if_neg Bool.false_ne_true]
  dsimp only
  rw [stored]
  dsimp only
  rw [Settings.load_of_isUsable loaded.isUsable_fileText]
  dsimp only
  rw [Arguments.perform, idle]
  rfl

variable {file : SettingsFile}

/-- One session stores one group. -/
theorem runLine_setLine (usable : Settings.IsUsable file) (some : assignments ≠ [])
    (each : ∀ assignment ∈ assignments, IsAssignment assignment) (clipboard : String)
    (input : List String) : runLine (setLine assignments) ⟨file, clipboard, input⟩ =
      .ok ⟨Reply.done 0, .text (Settings.fileText
        (Entries.overlay (Settings.complete (Settings.fileMembers file))
          (assignments.filterMap given?)))⟩ := by
  have gives : assignments.filterMap given? ≠ [] := by
    obtain ⟨assignment, rest, rfl⟩ := List.exists_cons_of_ne_nil some
    obtain ⟨setting, is, -⟩ := (each assignment List.mem_cons_self).exists_given?
    rw [List.filterMap_cons_some is]
    exact List.cons_ne_nil _ _
  rw [runLine, parse_setLine each, Except.map,
    run_newSettings usable gives (storable_given assignments)]

/-- Sessions keep what is stored complete, so that every group is written over what the groups
before it left behind. -/
theorem stores_overlay {groups : List (List String)} (some : ∀ group ∈ groups, group ≠ [])
    (each : ∀ assignment ∈ groups.flatten, IsAssignment assignment) {settings : Settings}
    (loaded : settings.Loaded) : Stores (.text settings.fileText) groups
      (.text (Settings.fileText (settings.overlay (groups.flatten.filterMap given?)))) := by
  induction groups generalizing settings with
  | nil => exact .nil
  | cons group groups ih =>
      obtain ⟨ofGroup, ofGroups⟩ := List.forall_mem_cons.mp some
      rw [List.flatten_cons] at each ⊢
      obtain ⟨here, later⟩ := List.forall_mem_append.mp each
      rw [List.filterMap_append, Entries.overlay_append]
      refine .cons (fun clipboard input => ?_) (ih ofGroups later (loaded.overlay (storable_given group)))
      rw [runLine_setLine loaded.isUsable_fileText ofGroup here, loaded.fileMembers_fileText,
        loaded.isComplete]

/-- **Storing settings composes.** However a list of assignments is cut into groups, sessions that
store one group each succeed and leave the same file as one session that stores all assignments. The
file is then the text of an object. Under every name it has the value of the last assignment to the
name, else what the file had there before, else the default; a file without an object counts as
empty. -/
theorem stores_groups (usable : Settings.IsUsable file) {groups : List (List String)}
    (nonempty : groups ≠ []) (some : ∀ group ∈ groups, group ≠ [])
    (each : ∀ assignment ∈ groups.flatten, IsAssignment assignment) :
    ∃ stored : Settings,
      Stores file groups (.text stored.fileText) ∧
        Stores file [groups.flatten] (.text stored.fileText) ∧
          Json.read stored.fileText = .ok (.object stored) ∧
            (∀ name, stored.get? name = (lastGiven groups.flatten name).or
              (((Settings.fileMembers file).get? name).or (Settings.defaults.get? name))) ∧
              ∀ name ∈ Entries.keys (Settings.fileMembers file), name ∈ Entries.keys stored := by
  have before := Settings.loaded_complete file
  have stored := before.overlay (storable_given groups.flatten)
  have get (name : String) := Entries.get?_overlay_pairs
    (Settings.complete (Settings.fileMembers file)) (groups.flatten.filterMap given?) name
  refine ⟨_, ?_, ?_, stored.read_fileText, fun name => ?_, fun name member => ?_⟩
  · obtain ⟨first, rest, rfl⟩ := List.exists_cons_of_ne_nil nonempty
    obtain ⟨ofFirst, ofRest⟩ := List.forall_mem_cons.mp some
    rw [List.flatten_cons] at each ⊢
    obtain ⟨here, later⟩ := List.forall_mem_append.mp each
    rw [List.filterMap_append, Entries.overlay_append]
    exact .cons (runLine_setLine usable ofFirst here)
      (stores_overlay ofRest later (before.overlay (storable_given first)))
  · have all : groups.flatten ≠ [] := by
      obtain ⟨first, rest, rfl⟩ := List.exists_cons_of_ne_nil nonempty
      exact List.append_ne_nil_of_left_ne_nil (some first List.mem_cons_self) _
    exact .cons (runLine_setLine usable all each) .nil
  · rw [get, Settings.get?_complete_fileMembers]
    rfl
  · rw [← Entries.isSome_get?, get, Settings.get?_complete_fileMembers, Option.isSome_or,
      Option.isSome_or, (Entries.isSome_get? _ _).mpr member, Bool.true_or, Bool.or_true]

/-- A value that is read holds no integer past the limit on digits. -/
theorem ne_tooManyDigits_of_isOk {text : String} (isOk : (Json.read text).isOk = true) :
    Json.read text ≠ .error .tooManyDigits := by
  intro failed
  rw [failed] at isOk
  cases isOk

/-- A name that is assigned twice and was in the file, a text that is no JSON value, and a default. -/
theorem stores_two_groups : ∃ stored : Settings,
    Stores (.text "\x7b\"a\": 1, \"fractions\": true\x7d") [["a=2", "b = x"], ["a=[1]"]]
        (.text stored.fileText) ∧
      stored.get? "a" = some (.array [.integer 1]) ∧ stored.get? "b" = some (.text " x") ∧
        stored.get? "fractions" = some (.bool true) ∧ stored.get? "debug" = some (.bool false) := by
  have usable : Settings.IsUsable (.text "\x7b\"a\": 1, \"fractions\": true\x7d") := by
    refine ⟨nofun, fun content is => ?_⟩
    cases is
    exact ne_tooManyDigits_of_isOk (by decide +kernel)
  have first : IsAssignment "a=2" := by
    refine ⟨by decide, by decide, fun name text is => ?_⟩
    cases is
    exact ne_tooManyDigits_of_isOk (by decide +kernel)
  have second : IsAssignment "b = x" := by
    refine ⟨by decide, by decide, fun name text is => ?_⟩
    cases is
    intro failed
    cases failed
  have third : IsAssignment "a=[1]" := by
    refine ⟨by decide, by decide, fun name text is => ?_⟩
    cases is
    exact ne_tooManyDigits_of_isOk (by decide +kernel)
  have each : ∀ assignment ∈ [["a=2", "b = x"], ["a=[1]"]].flatten, IsAssignment assignment :=
    List.forall_mem_cons.mpr ⟨first, List.forall_mem_cons.mpr
      ⟨second, List.forall_mem_singleton.mpr third⟩⟩
  obtain ⟨stored, stores, -, -, get, -⟩ :=
    stores_groups usable (List.cons_ne_nil _ _) (by decide) each
  refine ⟨stored, stores, ?_, ?_, ?_, ?_⟩
  · rw [get]
    cbv
  · rw [get]
    cbv
  · rw [get]
    cbv
  · rw [get]
    cbv

end Reckoner.CommandLine

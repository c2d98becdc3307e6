import Mathlib
import Reckoner.Proofs.Json.Numbers
import Reckoner.Proofs.Json.Strings
import Reckoner.Proofs.Outcome

/-!
# Values are read as they were written

The indented form of a value is read as the value, whatever its depth, if its integers keep to the
limit on digits and its objects have no key twice (`Reckoner.Json.read_indented`). Between the
parts of a form stand line breaks and blanks, which the reader skips, and no value starts with
them.
-/

namespace Reckoner.Json

open Text Decimal Outcome

/-- A value whose form is read back: no integer is past the limit on digits, and no object has a key
twice. -/
inductive Storable : Json → Prop
  | null : Storable null
  | bool (value : Bool) : Storable (bool value)
  | integer {value : ℤ} (short : value.natAbs < 10 ^ digitLimit) : Storable (integer value)
  | double (value : Float) : Storable (double value)
  | text (value : String) : Storable (text value)
  | array {items : List Json} (each : ∀ item ∈ items, Storable item) : Storable (array items)
  | object {members : List (String × Json)} (distinct : (Entries.keys members).Nodup)
      (each : ∀ member ∈ members, Storable member.2) : Storable (object members)

/-! ## White space -/

variable {rest : List Char}

theorem skipSpace_newLine (level : ℕ) (rest : List Char) :
    skipSpace ((newLine level).toList ++ rest) = skipSpace rest := by
  have spaces : ∀ c ∈ (newLine level).toList, isSpace c = true := by
    rw [newLine, String.toList_ofList]
    refine List.forall_mem_cons.mpr ⟨rfl, fun c member => ?_⟩
    rw [List.eq_of_mem_replicate member]
    rfl
  exact List.dropWhile_append_of_pos spaces

theorem length_newLine (level : ℕ) : (newLine level).toList.length = 4 * level + 1 := by
  rw [newLine, String.toList_ofList, List.length_cons, List.length_replicate]

theorem skipSpace_cons {c : Char} (visible : isSpace c = false) (rest : List Char) :
    skipSpace (c :: rest) = c :: rest :=
  List.dropWhile_cons_of_neg (Bool.not_eq_true _ ▸ visible)

theorem atCut_newLine (level : ℕ) (rest : List Char) : AtCut ((newLine level).toList ++ rest) := by
  intro c is
  rw [newLine, String.toList_ofList] at is
  cases is
  exact .inr rfl

theorem atCut_comma (rest : List Char) : AtCut (',' :: rest) := by
  intro c is
  cases is
  exact .inl rfl

/-- The text starts with a character that is neither a space nor closes an array or an object. -/
def StartsValue (text : List Char) : Prop :=
  ∃ c rest, text = c :: rest ∧ isSpace c = false ∧ c ≠ ']' ∧ c ≠ '\x7d'

theorem StartsValue.skipSpace_eq {text : List Char} (starts : StartsValue text) :
    skipSpace text = text := by
  obtain ⟨c, more, rfl, visible, -, -⟩ := starts
  exact skipSpace_cons visible _

theorem StartsValue.append {text : List Char} (starts : StartsValue text) (rest : List Char) :
    StartsValue (text ++ rest) := by
  obtain ⟨c, more, rfl, visible, other⟩ := starts
  exact ⟨c, more ++ rest, rfl, visible, other⟩

/-! ## Forms of values -/

/-- The text is read as the value wherever the writer may put it. -/
structure ReadsAs (text : List Char) (value : Json) : Prop where
  starts : StartsValue text
  read : ∀ {fuel : ℕ} {rest : List Char}, text.length ≤ fuel → AtCut rest →
    readValue fuel (text ++ rest) = .ok (value, rest)

/-- Some fuel is left for the first character. -/
theorem readsAs_of_succ {text : List Char} {value : Json} (starts : StartsValue text)
    (read : ∀ {fuel : ℕ} {rest : List Char}, text.length ≤ fuel + 1 → AtCut rest →
      readValue (fuel + 1) (text ++ rest) = .ok (value, rest)) : ReadsAs text value := by
  refine ⟨starts, fun {fuel rest} long cut => ?_⟩
  cases fuel with
  | zero =>
      obtain ⟨c, more, rfl, -⟩ := starts
      exact absurd long (Nat.not_succ_le_zero _)
  | succ fuel => exact read long cut

/-! ### Leaves -/

theorem isSpace_of_isDigit {c : Char} (isDigit : c.isDigit = true) : isSpace c = false := by
  by_contra space
  rw [Bool.not_eq_false, isSpace, Bool.or_eq_true, Bool.or_eq_true, Bool.or_eq_true, beq_iff_eq,
    beq_iff_eq, beq_iff_eq, beq_iff_eq] at space
  rcases space with ((rfl | rfl) | rfl) | rfl <;> cases isDigit

theorem StartsNumber.startsValue {text : List Char} (starts : StartsNumber text) :
    StartsValue text := by
  cases starts with
  | digit isDigit =>
      refine ⟨_, _, rfl, isSpace_of_isDigit isDigit, ?_, ?_⟩
      · rintro rfl
        cases isDigit
      · rintro rfl
        cases isDigit
  | minus => exact ⟨'-', _, rfl, rfl, by decide⟩

theorem StartsNumber.append {text : List Char} (starts : StartsNumber text) (rest : List Char) :
    StartsNumber (text ++ rest) := by
  cases starts with
  | digit isDigit => exact .digit isDigit _
  | minus isDigit => exact .minus isDigit _

theorem StartsNumber.readWord?_eq {text : List Char} (starts : StartsNumber text) :
    readWord? text = none := by
  unfold readWord?
  split <;> cases starts <;> first | rfl | contradiction

theorem StartsNumber.readValue_eq {text : List Char} (starts : StartsNumber text) (fuel : ℕ) :
    readValue (fuel + 1) text = readNumber text := by
  have noWord := starts.readWord?_eq
  cases starts with
  | digit isDigit =>
      rw [readValue, noWord]
      all_goals
        rintro _ is
        cases is
        cases isDigit
  | minus => 
      rw [readValue, noWord]
      all_goals
        rintro _ is
        cases is

theorem readsAs_integer {n : ℤ} (short : n.natAbs < 10 ^ digitLimit) :
    ReadsAs (toString n).toList (integer n) := by
  have starts := startsNumber_toString n
  refine readsAs_of_succ starts.startsValue fun _ cut => ?_
  rw [(starts.append _).readValue_eq, readNumber_integer short cut]

theorem writeDouble_of_isFinite {x : Float} (finite : x.isFinite = true) :
    writeDouble x = shortest x := by
  obtain ⟨unpacked, form, is⟩ := exists_form finite
  rw [writeDouble, is, isNaN_ofForm form, isInf_ofForm form]
  rfl

/-- A finite double is read from its shortest text, and the others from their words. -/
theorem readsAs_double (x : Float) : ReadsAs (writeDouble x).toList (double x) := by
  cases finite : x.isFinite with
  | true =>
      have starts := startsNumber_shortest finite
      rw [writeDouble_of_isFinite finite]
      refine readsAs_of_succ starts.startsValue fun _ cut => ?_
      rw [(starts.append _).readValue_eq, readNumber_shortest finite cut]
  | false =>
      rcases eq_special finite with rfl | rfl | rfl
      · exact readsAs_of_succ ⟨'N', _, rfl, rfl, by decide⟩ fun _ _ => rfl
      · exact readsAs_of_succ ⟨'I', _, rfl, rfl, by decide⟩ fun _ _ => rfl
      · exact readsAs_of_succ ⟨'-', _, rfl, rfl, by decide⟩ fun _ _ => rfl

theorem readsAs_text (s : String) : ReadsAs (writeText plainIndented s).toList (text s) := by
  obtain ⟨body, is, read⟩ := readText?_writeText le_toNat_of_plainIndented s
  rw [is]
  refine readsAs_of_succ ⟨'"', body, rfl, rfl, by decide⟩ fun _ _ => ?_
  rw [List.cons_append, readValue, read]
  dsimp only
  rw [String.ofList_toList]

theorem readsAs_null : ReadsAs "null".toList null :=
  readsAs_of_succ ⟨'n', _, rfl, rfl, by decide⟩ fun _ _ => rfl

theorem readsAs_bool (value : Bool) :
    ReadsAs (if value then "true" else "false").toList (bool value) := by
  cases value with
  | false => exact readsAs_of_succ ⟨'f', _, rfl, rfl, by decide⟩ fun _ _ => rfl
  | true => exact readsAs_of_succ ⟨'t', _, rfl, rfl, by decide⟩ fun _ _ => rfl

/-! ### Arrays -/

theorem indentedItems_eq_map (level : ℕ) (items : List Json) :
    indentedItems level items = items.map (indentedAt level) := by
  induction items with
  | nil => rfl
  | cons item items ih => rw [indentedItems, ih, List.map_cons]

/-- The form of a member: its key, and the form of its value after a colon. -/
def memberForm (form : Json → String) (member : String × Json) : String :=
  writeText plainIndented member.1 ++ ": " ++ form member.2

theorem indentedMembers_eq_map (level : ℕ) (members : List (String × Json)) :
    indentedMembers level members = members.map (memberForm (indentedAt level)) := by
  induction members with
  | nil => rfl
  | cons member members ih =>
      obtain ⟨key, value⟩ := member
      rw [indentedMembers, ih, List.map_cons]
      rfl

/-- The text between the parts of a block. -/
theorem toList_separator (level : ℕ) :
    ("," ++ newLine level).toList = ',' :: (newLine level).toList := by
  rw [String.toList_append]
  rfl

theorem startsValue_join (separator : String) {first : String} (rest : List String)
    (starts : StartsValue first.toList) :
    StartsValue (join separator (first :: rest)).toList := by
  cases rest with
  | nil => exact starts
  | cons second rest =>
      rw [toList_join_cons]
      exact starts.append _

section Items

variable {form : Json → String} {inner outer : ℕ}

/-- Items on lines of their own are read up to the bracket. -/
theorem readItems_join {items : List Json} (some : items ≠ [])
    (each : ∀ item ∈ items, ReadsAs (form item).toList item) {fuel : ℕ}
    (long : (join ("," ++ newLine inner) (items.map form)).toList.length < fuel) :
    readItems fuel ((join ("," ++ newLine inner) (items.map form)).toList ++
      ((newLine outer).toList ++ ']' :: rest)) = .ok (items, rest) := by
  induction items generalizing fuel with
  | nil => exact absurd rfl some
  | cons item items ih =>
      obtain ⟨ofItem, ofItems⟩ := List.forall_mem_cons.mp each
      cases fuel with
      | zero => exact absurd long (Nat.not_lt_zero _)
      | succ fuel =>
          cases items with
          | nil =>
              change (form item).toList.length < fuel + 1 at long
              change readItems _ ((form item).toList ++ _) = _
              rw [readItems, ofItem.read (Nat.le_of_lt_succ long) (atCut_newLine _ _), ok_bind]
              dsimp only
              rw [skipSpace_newLine]
              rfl
          | cons next items =>
              have read := @ih (List.cons_ne_nil _ _) ofItems fuel
              have starts : StartsValue (join ("," ++ newLine inner)
                  ((next :: items).map form)).toList :=
                startsValue_join _ _ (ofItems next List.mem_cons_self).starts
              rw [List.map_cons, List.map_cons, toList_join_cons, toList_separator,
                ← List.map_cons] at long ⊢
              rw [List.length_append, List.length_append, List.length_cons] at long
              rw [List.append_assoc, List.append_assoc, List.cons_append, readItems,
                ofItem.read (by omega) (atCut_comma _), ok_bind]
              dsimp only
              rw [skipSpace_cons rfl]
              change (readItems fuel (skipSpace _) >>= _) = _
              rw [skipSpace_newLine, (starts.append _).skipSpace_eq, read (by omega)]
              rfl

/-- A key is read with the colon and the blank behind it. -/
theorem readKey_append (key : String) {text : List Char} (starts : StartsValue text) :
    readKey ((writeText plainIndented key ++ ": ").toList ++ text) = .ok (key, text) := by
  obtain ⟨body, is, read⟩ := readText?_writeText le_toNat_of_plainIndented key
  have blank : skipSpace (' ' :: text) = text := starts.skipSpace_eq
  rw [String.toList_append, is, List.cons_append, List.cons_append, List.append_assoc, readKey,
    read]
  change Except.ok (String.ofList key.toList, skipSpace (' ' :: text)) = _
  rw [blank, String.ofList_toList]

theorem startsValue_memberForm (member : String × Json) :
    StartsValue (memberForm form member).toList := by
  obtain ⟨body, is, -⟩ := readText?_writeText le_toNat_of_plainIndented member.1
  rw [memberForm, String.toList_append, String.toList_append, is]
  exact ⟨'"', _, rfl, rfl, by decide⟩

/-- Members on lines of their own are read up to the brace. -/
theorem readMembers_join {members : List (String × Json)} (some : members ≠ [])
    (each : ∀ member ∈ members, ReadsAs (form member.2).toList member.2) {fuel : ℕ}
    (long : (join ("," ++ newLine inner) (members.map (memberForm form))).toList.length < fuel) :
    readMembers fuel ((join ("," ++ newLine inner) (members.map (memberForm form))).toList ++
      ((newLine outer).toList ++ '\x7d' :: rest)) = .ok (members, rest) := by
  induction members generalizing fuel with
  | nil => exact absurd rfl some
  | cons member members ih =>
      obtain ⟨ofMember, ofMembers⟩ := List.forall_mem_cons.mp each
      cases fuel with
      | zero => exact absurd long (Nat.not_lt_zero _)
      | succ fuel =>
          cases members with
          | nil =>
              change (memberForm form member).toList.length < fuel + 1 at long
              change readMembers _ ((memberForm form member).toList ++ _) = _
              rw [memberForm, String.toList_append, List.length_append] at long
              rw [memberForm, String.toList_append, List.append_assoc, readMembers,
                readKey_append member.1 (ofMember.starts.append _), ok_bind]
              dsimp only
              rw [ofMember.read (by omega) (atCut_newLine _ _), ok_bind]
              dsimp only
              rw [skipSpace_newLine]
              rfl
          | cons next members =>
              have read := @ih (List.cons_ne_nil _ _) ofMembers fuel
              have starts : StartsValue (join ("," ++ newLine inner)
                  ((next :: members).map (memberForm form))).toList :=
                startsValue_join _ _ (startsValue_memberForm next)
              rw [List.map_cons, List.map_cons, toList_join_cons, toList_separator,
                ← List.map_cons] at long ⊢
              rw [memberForm, String.toList_append, List.length_append, List.length_append,
                List.length_append, List.length_cons] at long
              rw [memberForm, String.toList_append, List.append_assoc, List.append_assoc,
                List.append_assoc, List.cons_append, readMembers,
                readKey_append member.1 (ofMember.starts.append _), ok_bind]
              dsimp only
              rw [ofMember.read (by omega) (atCut_comma _), ok_bind]
              dsimp only
              rw [skipSpace_cons rfl]
              change (readMembers fuel (skipSpace _) >>= _) = _
              rw [skipSpace_newLine, (starts.append _).skipSpace_eq, read (by omega)]
              rfl

end Items

/-! ### Values -/

section Block

variable {opening closing : String} {first last : Char} (opens : opening.toList = [first])
  (closes : closing.toList = [last])

include opens closes

theorem toList_block_nil (level : ℕ) :
    (block level opening closing []).toList = [first, last] := by
  change (opening ++ closing).toList = _
  rw [String.toList_append, opens, closes]
  rfl

theorem toList_block_cons (level : ℕ) (part : String) (parts : List String) :
    (block level opening closing (part :: parts)).toList =
      first :: ((newLine (level + 1)).toList ++
        ((join ("," ++ newLine (level + 1)) (part :: parts)).toList ++
          ((newLine level).toList ++ [last]))) := by
  change (opening ++ newLine (level + 1) ++ join ("," ++ newLine (level + 1)) (part :: parts) ++
    newLine level ++ closing).toList = _
  simp only [String.toList_append, List.append_assoc, opens, closes]
  rfl

end Block

theorem readValue_bracket {fuel : ℕ} {inside text : List Char} {items : List Json}
    (skipped : skipSpace inside = text) (starts : StartsValue text)
    (read : readItems fuel text = .ok (items, rest)) :
    readValue (fuel + 1) ('[' :: inside) = .ok (array items, rest) := by
  obtain ⟨c, more, rfl, -, other, -⟩ := starts
  rw [readValue, skipped]
  split
  · rename_i is
    exact absurd (List.cons.inj is).1 other
  · rw [read]
    rfl

theorem readValue_brace {fuel : ℕ} {inside text : List Char} {members : List (String × Json)}
    (skipped : skipSpace inside = text) (starts : StartsValue text)
    (distinct : (Entries.keys members).Nodup)
    (read : readMembers fuel text = .ok (members, rest)) :
    readValue (fuel + 1) ('\x7b' :: inside) = .ok (object members, rest) := by
  obtain ⟨c, more, rfl, -, -, other⟩ := starts
  rw [readValue, skipped]
  split
  · rename_i is
    exact absurd (List.cons.inj is).1 other
  · rw [read]
    change Except.ok (object (Entries.ofPairs members), rest) = _
    rw [Entries.ofPairs_of_nodup distinct]

theorem readsAs_array {level : ℕ} {items : List Json}
    (each : ∀ item ∈ items, ReadsAs (indentedAt (level + 1) item).toList item) :
    ReadsAs (indentedAt level (array items)).toList (array items) := by
  rw [indentedAt, indentedItems_eq_map]
  cases items with
  | nil =>
      rw [List.map_nil, @toList_block_nil "[" "]" '[' ']' rfl rfl]
      exact readsAs_of_succ ⟨'[', _, rfl, rfl, by decide⟩ fun _ _ => rfl
  | cons item items =>
      have starts : StartsValue (join ("," ++ newLine (level + 1))
          ((item :: items).map (indentedAt (level + 1)))).toList :=
        startsValue_join _ _ (each item List.mem_cons_self).starts
      rw [List.map_cons, @toList_block_cons "[" "]" '[' ']' rfl rfl, ← List.map_cons]
      refine readsAs_of_succ ⟨'[', _, rfl, rfl, by decide⟩ fun {fuel rest} long _ => ?_
      rw [List.length_cons, List.length_append, List.length_append, length_newLine] at long
      rw [List.cons_append, List.append_assoc, List.append_assoc, List.append_assoc]
      have read := @readItems_join rest _ (level + 1) level _ (List.cons_ne_nil item items) each
        fuel (by omega)
      refine readValue_bracket ?_ (starts.append _) read
      rw [skipSpace_newLine, (starts.append _).skipSpace_eq]
      rfl

theorem readsAs_object {level : ℕ} {members : List (String × Json)}
    (distinct : (Entries.keys members).Nodup)
    (each : ∀ member ∈ members, ReadsAs (indentedAt (level + 1) member.2).toList member.2) :
    ReadsAs (indentedAt level (object members)).toList (object members) := by
  rw [indentedAt, indentedMembers_eq_map]
  cases members with
  | nil =>
      rw [List.map_nil, @toList_block_nil "\x7b" "\x7d" '\x7b' '\x7d' rfl rfl]
      exact readsAs_of_succ ⟨'\x7b', _, rfl, rfl, by decide⟩ fun _ _ => rfl
  | cons member members =>
      have starts : StartsValue (join ("," ++ newLine (level + 1))
          ((member :: members).map (memberForm (indentedAt (level + 1))))).toList :=
        startsValue_join _ _ (startsValue_memberForm member)
      rw [List.map_cons, @toList_block_cons "\x7b" "\x7d" '\x7b' '\x7d' rfl rfl, ← List.map_cons]
      refine readsAs_of_succ ⟨'\x7b', _, rfl, rfl, by decide⟩ fun {fuel rest} long _ => ?_
      rw [List.length_cons, List.length_append, List.length_append, length_newLine] at long
      rw [List.cons_append, List.append_assoc, List.append_assoc, List.append_assoc]
      have read := @readMembers_join rest _ (level + 1) level _ (List.cons_ne_nil member members)
        each fuel (by omega)
      refine readValue_brace ?_ (starts.append _) distinct read
      rw [skipSpace_newLine, (starts.append _).skipSpace_eq]
      rfl

/-- A value is read from its form at any level. -/
theorem Storable.readsAs {value : Json} (storable : Storable value) (level : ℕ) :
    ReadsAs (indentedAt level value).toList value := by
  induction storable generalizing level with
  | null => exact readsAs_null
  | bool value => exact readsAs_bool value
  | integer short => exact readsAs_integer short
  | double value => exact readsAs_double value
  | text value => exact readsAs_text value
  | array _ ih => exact readsAs_array fun item member => ih item member (level + 1)
  | object distinct _ ih =>
      exact readsAs_object distinct fun member inside => ih member inside (level + 1)

/-- **Values are read back** from their indented forms. -/
theorem read_indented {value : Json} (storable : Storable value) :
    Json.read value.indented = .ok value := by
  obtain ⟨starts, read⟩ := storable.readsAs 0
  have cut : AtCut [] := fun c is => by cases is
  have back := read (Nat.le_succ _) cut
  rw [List.append_nil] at back
  rw [Json.read, indented, starts.skipSpace_eq, back]
  rfl

end Reckoner.Json

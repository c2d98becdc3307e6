import Reckoner.Binding
import Reckoner.Proofs.Outcome

/-!
# Checked bindings

Bindings are accepted if each of them is. Then all names are texts, and the bindings by texts are
all of them (`Reckoner.Bindings.map_texts_of_check`). A name that cannot be shown is neither
accepted nor refused: there the check itself fails.
-/

namespace Reckoner.Bindings

open Outcome

variable {bindings : Bindings} {value : BoundValue}

/-! ## Bindings by texts -/

theorem mem_texts {name : String} :
    (name, value) ∈ bindings.texts ↔ (↑name, value) ∈ bindings := by
  rw [texts, List.mem_filterMap]
  constructor
  · rintro ⟨⟨key, given⟩, member, is⟩
    cases key with
    | text name =>
        cases is
        exact member
    | integer _ | other _ => cases is
  · exact fun member => ⟨_, member, rfl⟩

theorem texts_nil : texts [] = [] := rfl

theorem texts_singleton (name : String) (value : BoundValue) :
    texts [(↑name, value)] = [(name, value)] := rfl

theorem texts_append (front back : Bindings) :
    texts (front ++ back) = front.texts ++ back.texts :=
  List.filterMap_append

theorem texts_append_cons (front back : Bindings) (name : String) (value : BoundValue) :
    texts (front ++ (↑name, value) :: back) = front.texts ++ (name, value) :: back.texts :=
  texts_append front _

theorem get?_texts (bindings : Bindings) (name : String) :
    bindings.texts.get? name = bindings.get? name := by
  induction bindings with
  | nil => rfl
  | cons binding rest ih =>
      obtain ⟨key, value⟩ := binding
      rw [Entries.get?]
      cases key with
      | text first =>
          change Entries.get? ((first, value) :: texts rest) name = _
          rw [Entries.get?, ih]
          simp only [BoundName.text.injEq]
      | integer _ | other _ =>
          simp only [reduceCtorEq, if_false]
          exact ih

theorem nodup_texts (distinct : bindings.keys.Nodup) : bindings.texts.keys.Nodup := by
  induction bindings with
  | nil => exact List.nodup_nil
  | cons binding rest ih =>
      obtain ⟨key, value⟩ := binding
      rw [Entries.keys_cons, List.nodup_cons] at distinct
      cases key with
      | text name =>
          refine List.nodup_cons.mpr ⟨fun inside => distinct.1 ?_, ih distinct.2⟩
          obtain ⟨⟨_, given⟩, member, rfl⟩ := List.mem_map.mp inside
          exact List.mem_map_of_mem (mem_texts.mp member)
      | integer _ | other _ => exact ih distinct.2

/-! ## The check -/

theorem checkOne_text {name : String} :
    checkOne name value = .ok () ↔ fault? name value = none := by
  rw [checkOne]
  cases fault? name value with
  | none => exact iff_of_true rfl rfl
  | some cause => exact iff_of_false nofun nofun

/-- Only names that are texts are accepted. -/
theorem exists_text_of_checkOne {name : BoundName} (accepted : checkOne name value = .ok ()) :
    ∃ text : String, name = text ∧ fault? text value = none := by
  cases name with
  | text text => exact ⟨text, rfl, checkOne_text.mp accepted⟩
  | integer _ | other _ =>
      unfold checkOne at accepted
      dsimp only at accepted
      split at accepted <;> cases accepted

theorem check_eq_ok_iff :
    bindings.check = .ok () ↔ ∀ binding ∈ bindings, checkOne binding.1 binding.2 = .ok () := by
  induction bindings with
  | nil => exact iff_of_true rfl (List.forall_mem_nil _)
  | cons binding rest ih =>
      rw [check, bind_eq_ok, List.forall_mem_cons, ← ih]
      exact ⟨fun ⟨⟨⟩, first, further⟩ => ⟨first, further⟩, fun both => ⟨(), both⟩⟩

theorem check_singleton {name : String} :
    check [(↑name, value)] = .ok () ↔ fault? name value = none := by
  rw [check_eq_ok_iff, List.forall_mem_singleton]
  exact checkOne_text

theorem fault?_of_check (checked : bindings.check = .ok ()) :
    ∀ binding ∈ bindings.texts, fault? binding.1 binding.2 = none := fun _ member =>
  checkOne_text.mp (check_eq_ok_iff.mp checked _ (mem_texts.mp member))

/-- Nothing is lost when checked bindings are taken by their texts. -/
theorem map_texts_of_check (checked : bindings.check = .ok ()) :
    bindings.texts.map (Prod.map BoundName.text id) = bindings := by
  induction bindings with
  | nil => rfl
  | cons binding rest ih =>
      obtain ⟨key, value⟩ := binding
      obtain ⟨⟨⟩, accepted, further⟩ := bind_eq_ok.mp checked
      obtain ⟨name, rfl, -⟩ := exists_text_of_checkOne accepted
      exact congrArg ((BoundName.text name, value) :: ·) (ih further)

theorem check_of_perm {other : Bindings} (same : other.Perm bindings)
    (checked : bindings.check = .ok ()) : other.check = .ok () :=
  check_eq_ok_iff.mpr fun _ member => check_eq_ok_iff.mp checked _ (same.mem_iff.mp member)

/-! ## Names that cannot be shown -/

theorem checkOne_of_unshown {name : BoundName} (unshown : name.shown? = none) :
    checkOne name value = .error .wrongValue := by
  cases name with
  | text name => cases unshown
  | integer _ | other _ =>
      unfold checkOne
      dsimp only
      rw [unshown]

/-- The check comes upon a name that cannot be shown. -/
inductive MeetUnshown : Bindings → Prop
  | here {name : BoundName} {value : BoundValue} {rest : Bindings} (unshown : name.shown? = none) :
      MeetUnshown ((name, value) :: rest)
  | later {name : BoundName} {value : BoundValue} {rest : Bindings}
      (accepted : checkOne name value = .ok ()) (meet : MeetUnshown rest) :
      MeetUnshown ((name, value) :: rest)

theorem not_meetUnshown_nil : ¬MeetUnshown [] :=
  nofun

/-- At a name that cannot be shown the check fails without a refusal. -/
theorem MeetUnshown.check (meet : bindings.MeetUnshown) : bindings.check = .error .wrongValue := by
  induction meet with
  | here unshown => rw [Bindings.check, checkOne_of_unshown unshown, error_bind]
  | later accepted _ ih => rw [Bindings.check, accepted, ok_bind, ih]

end Reckoner.Bindings

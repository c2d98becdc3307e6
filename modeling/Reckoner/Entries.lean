/-!
# Entries in order of arrival

Settings, variables and the members of a JSON object are values under distinct keys, kept in the
order in which the keys first arrived. Writing to a present key changes its value and not its
place. Keys are texts, unless another type is named.
-/

namespace Reckoner

/-- Values under keys, in order. -/
abbrev Entries (α : Type) (κ : Type := String) := List (κ × α)

namespace Entries

variable {α κ : Type}

/-- The keys in order. -/
def keys (entries : Entries α κ) : List κ :=
  entries.map Prod.fst

@[simp] theorem keys_nil : keys ([] : Entries α κ) = [] := rfl

@[simp] theorem keys_cons (key : κ) (value : α) (rest : Entries α κ) :
    keys ((key, value) :: rest) = key :: keys rest := rfl

variable [DecidableEq κ]

/-- The value under a key. -/
def get? : Entries α κ → κ → Option α
  | [], _ => none
  | (k, v) :: rest, key => if k = key then some v else get? rest key

/-- Writes a value under a key; a new key goes to the end. -/
def put : Entries α κ → κ → α → Entries α κ
  | [], key, value => [(key, value)]
  | (k, v) :: rest, key, value =>
      if k = key then (k, value) :: rest else (k, v) :: put rest key value

/-- Writes all entries of the second list, in order, over the first. -/
def overlay (base update : Entries α κ) : Entries α κ :=
  update.foldl (fun entries (key, value) => put entries key value) base

/-- Entries from pairs whose keys may repeat: the last value counts, in the place of the first. -/
def ofPairs (pairs : List (κ × α)) : Entries α κ :=
  overlay [] pairs

/-- Writing under one key leaves the values under all others. -/
theorem get?_put (entries : Entries α κ) (key other : κ) (value : α) :
    (entries.put key value).get? other = if key = other then some value else entries.get? other := by
  induction entries with
  | nil => rfl
  | cons entry rest ih =>
    obtain ⟨k, v⟩ := entry
    by_cases present : k = key
    · subst present
      by_cases same : k = other <;> simp [put, get?, same]
    · by_cases found : k = other
      · subst found
        simp [put, get?, present, Ne.symm present]
      · simp [put, get?, present, found, ih]

/-- A present key keeps its place, and a new one goes to the end. -/
theorem keys_put (entries : Entries α κ) (key : κ) (value : α) :
    (entries.put key value).keys =
      if key ∈ entries.keys then entries.keys else entries.keys ++ [key] := by
  induction entries with
  | nil => rfl
  | cons entry rest ih =>
    obtain ⟨k, v⟩ := entry
    by_cases present : k = key
    · simp [put, present]
    · by_cases member : key ∈ keys rest <;> simp [put, present, Ne.symm present, member, ih]

/-- A key has a value exactly if it is among the keys. -/
theorem isSome_get? (entries : Entries α κ) (key : κ) :
    (entries.get? key).isSome = true ↔ key ∈ entries.keys := by
  induction entries with
  | nil => simp [get?]
  | cons entry rest ih =>
    obtain ⟨k, v⟩ := entry
    by_cases present : k = key
    · simp [get?, present]
    · simp [get?, present, Ne.symm present, ih]

/-- A key is looked for in the first list and then in the second. -/
theorem get?_append (first second : Entries α κ) (key : κ) :
    get? (first ++ second) key = (first.get? key).or (second.get? key) := by
  induction first with
  | nil => rfl
  | cons entry rest ih =>
    obtain ⟨k, v⟩ := entry
    rw [List.cons_append, get?, get?, ih]
    split <;> rfl

/-- What is found is an entry. -/
theorem mem_of_get? {entries : Entries α κ} {key : κ} {value : α}
    (found : entries.get? key = some value) : (key, value) ∈ entries := by
  induction entries with
  | nil => cases found
  | cons entry rest ih =>
    obtain ⟨k, v⟩ := entry
    rw [get?] at found
    split at found
    · rename_i same
      cases found
      rw [same]
      exact List.mem_cons_self
    · exact List.mem_cons_of_mem _ (ih found)

/-- Where keys do not repeat, an entry is found. -/
theorem get?_eq_some_iff {entries : Entries α κ} (distinct : entries.keys.Nodup) {key : κ}
    {value : α} : entries.get? key = some value ↔ (key, value) ∈ entries := by
  refine ⟨mem_of_get?, fun member => ?_⟩
  induction entries with
  | nil => cases member
  | cons entry rest ih =>
    obtain ⟨k, v⟩ := entry
    rw [keys_cons, List.nodup_cons] at distinct
    rw [get?]
    rcases List.mem_cons.mp member with same | later
    · cases same
      rw [if_pos rfl]
    · have inside : key ∈ keys rest := List.mem_map_of_mem (f := Prod.fst) later
      have other : k ≠ key := by
        rintro rfl
        exact distinct.1 inside
      rw [if_neg other, ih distinct.2 later]

/-- Writing under a new key puts the entry at the end. -/
theorem put_of_not_mem {entries : Entries α κ} {key : κ} (new : key ∉ entries.keys)
    (value : α) : entries.put key value = entries ++ [(key, value)] := by
  induction entries with
  | nil => rfl
  | cons entry rest ih =>
    obtain ⟨k, v⟩ := entry
    rw [keys_cons, List.mem_cons, not_or] at new
    rw [put, if_neg (Ne.symm new.1), ih new.2, List.cons_append]

/-- The order of entries does not matter where keys do not repeat. -/
theorem get?_eq_of_perm {first second : Entries α κ} (same : first.Perm second)
    (distinct : second.keys.Nodup) (key : κ) : first.get? key = second.get? key := by
  have ofFirst : first.keys.Nodup := (same.map Prod.fst).nodup_iff.mpr distinct
  refine Option.ext fun value => ?_
  rw [get?_eq_some_iff ofFirst, get?_eq_some_iff distinct, same.mem_iff]

/-- A key that is not among the keys has no value. -/
theorem get?_eq_none {entries : Entries α κ} {key : κ} (absent : key ∉ entries.keys) :
    entries.get? key = none := by
  rw [← Option.not_isSome_iff_eq_none, isSome_get?]
  exact absent

/-- Writing under a present key changes the entry with it. -/
theorem put_of_mem {entries : Entries α κ} (distinct : entries.keys.Nodup) {key : κ}
    (present : key ∈ entries.keys) (value : α) : entries.put key value =
      entries.map fun entry => (entry.1, if entry.1 = key then value else entry.2) := by
  induction entries with
  | nil => cases present
  | cons entry rest ih =>
    obtain ⟨k, v⟩ := entry
    rw [keys_cons, List.nodup_cons] at distinct
    rw [List.map_cons, put]
    by_cases same : k = key
    · subst same
      have others : rest.map (fun entry => (entry.1, if entry.1 = k then value else entry.2)) =
          rest := by
        refine (List.map_congr_left fun entry member => ?_).trans (List.map_id rest)
        have other : entry.1 ≠ k := by
          rintro rfl
          exact distinct.1 (List.mem_map_of_mem member)
        rw [if_neg other]
        rfl
      rw [if_pos rfl, if_pos rfl, others]
    · have later : key ∈ keys rest := (List.mem_cons.mp present).resolve_left (Ne.symm same)
      rw [if_neg same, if_neg same, ih distinct.2 later]

/-- Writing under a key repeats none. -/
theorem nodup_put {entries : Entries α κ} (distinct : entries.keys.Nodup) (key : κ)
    (value : α) : (entries.put key value).keys.Nodup := by
  rw [keys_put]
  split
  · exact distinct
  · rename_i new
    have single : [key].Nodup := List.nodup_cons.mpr ⟨List.not_mem_nil, List.nodup_nil⟩
    refine List.nodup_append.mpr ⟨distinct, single, fun k member other is same => ?_⟩
    rw [List.mem_singleton.mp is] at same
    exact new (same ▸ member)

theorem nodup_overlay {base : Entries α κ} (distinct : base.keys.Nodup) (update : Entries α κ) :
    (overlay base update).keys.Nodup := by
  induction update generalizing base with
  | nil => exact distinct
  | cons entry rest ih => exact ih (nodup_put distinct entry.1 entry.2)

/-- What is written over entries: those stay in their places with the values that are written over
them, and the others follow. -/
theorem overlay_eq {base update : Entries α κ} (ofBase : base.keys.Nodup)
    (ofUpdate : update.keys.Nodup) : overlay base update =
      base.map (fun entry => (entry.1, (update.get? entry.1).getD entry.2)) ++
        update.filter fun entry => decide (entry.1 ∉ base.keys) := by
  induction update generalizing base with
  | nil => simp [overlay, get?]
  | cons entry rest ih =>
    obtain ⟨key, value⟩ := entry
    rw [keys_cons, List.nodup_cons] at ofUpdate
    have absent := get?_eq_none ofUpdate.1
    have step : overlay base ((key, value) :: rest) = overlay (base.put key value) rest := rfl
    rw [step]
    by_cases present : key ∈ base.keys
    · have sameKeys : (base.put key value).keys = base.keys := by
        rw [keys_put, if_pos present]
      rw [ih (nodup_put ofBase key value) ofUpdate.2, sameKeys, put_of_mem ofBase present,
        List.map_map, List.filter_cons_of_neg (by simp [present])]
      congr 1
      refine List.map_congr_left fun entry _ => ?_
      rw [Function.comp_apply, get?]
      by_cases same : entry.1 = key
      · rw [if_pos same, if_pos same.symm, same, absent]
        rfl
      · rw [if_neg same, if_neg (Ne.symm same)]
    · have new := put_of_not_mem present value
      have newKeys : (base.put key value).keys = base.keys ++ [key] := by
        rw [keys_put, if_neg present]
      rw [ih (nodup_put ofBase key value) ofUpdate.2, newKeys, new, List.map_append,
        List.filter_cons_of_pos (by simp [present]), List.append_assoc]
      congr 1
      · refine List.map_congr_left fun entry member => ?_
        have other : key ≠ entry.1 := by
          rintro rfl
          exact present (List.mem_map_of_mem member)
        rw [get?, if_neg other]
      · rw [List.map_singleton, absent, List.singleton_append]
        congr 1
        refine List.filter_congr fun entry member => ?_
        have other : entry.1 ≠ key := by
          rintro rfl
          exact ofUpdate.1 (List.mem_map_of_mem member)
        simp [other]

/-- A key has the last of the values that are written under it, else the one that it had. -/
theorem get?_overlay_pairs (base : Entries α κ) (pairs : List (κ × α)) (key : κ) :
    (overlay base pairs).get? key = (get? pairs.reverse key).or (base.get? key) := by
  induction pairs generalizing base with
  | nil => rfl
  | cons pair rest ih =>
    obtain ⟨k, v⟩ := pair
    change (overlay (base.put k v) rest).get? key = _
    rw [ih, get?_put, List.reverse_cons, get?_append, Option.or_assoc, get?]
    by_cases same : k = key
    · rw [if_pos same, if_pos same]
      rfl
    · rw [if_neg same, if_neg same]
      rfl

/-- A value is looked for in what is written over entries first. -/
theorem get?_overlay (base : Entries α κ) {update : Entries α κ} (distinct : update.keys.Nodup)
    (key : κ) : (overlay base update).get? key = (update.get? key).or (base.get? key) := by
  rw [get?_overlay_pairs, get?_eq_of_perm (List.reverse_perm update) distinct]

/-- Entries that are written over themselves stay as they are. -/
theorem overlay_self {entries : Entries α κ} (distinct : entries.keys.Nodup) :
    overlay entries entries = entries := by
  have values : entries.map (fun entry => (entry.1, (entries.get? entry.1).getD entry.2)) =
      entries := by
    refine (List.map_congr_left fun entry member => ?_).trans (List.map_id entries)
    rw [(get?_eq_some_iff distinct).mpr member]
    rfl
  have none : entries.filter (fun entry => decide (entry.1 ∉ entries.keys)) = [] := by
    refine List.filter_eq_nil_iff.mpr fun entry member => ?_
    have present : entry.1 ∈ entries.keys := List.mem_map_of_mem member
    simp [present]
  rw [overlay_eq distinct distinct, values, none, List.append_nil]

/-- The last of two values written under one key counts. -/
theorem put_put (entries : Entries α κ) (key : κ) (first second : α) :
    (entries.put key first).put key second = entries.put key second := by
  induction entries with
  | nil => simp [put]
  | cons entry rest ih =>
    obtain ⟨k, v⟩ := entry
    by_cases same : k = key <;> simp [put, same, ih]

/-- The order in which values are written under two keys does not matter, if one of the keys has its
place already. -/
theorem put_comm {entries : Entries α κ} {key other : κ} (present : key ∈ entries.keys)
    (differ : other ≠ key) (value another : α) :
    (entries.put other another).put key value = (entries.put key value).put other another := by
  induction entries with
  | nil => cases present
  | cons entry rest ih =>
    obtain ⟨k, v⟩ := entry
    by_cases first : k = key
    · subst first
      simp [put, differ.symm]
    · by_cases second : k = other
      · subst second
        simp [put, first]
      · have later : key ∈ keys rest := (List.mem_cons.mp present).resolve_left (Ne.symm first)
        simp [put, first, second, ih later]

/-- A value under a key that is there already may as well be written before others. -/
theorem overlay_put_comm {base update : Entries α κ} {key : κ} (present : key ∈ base.keys)
    (new : key ∉ update.keys) (value : α) :
    (overlay base update).put key value = overlay (base.put key value) update := by
  induction update generalizing base with
  | nil => rfl
  | cons entry rest ih =>
    obtain ⟨k, v⟩ := entry
    rw [keys_cons, List.mem_cons, not_or] at new
    have still : key ∈ (base.put k v).keys := by
      rw [keys_put]
      split
      · exact present
      · exact List.mem_append_left _ present
    change (overlay (base.put k v) rest).put key value = overlay ((base.put key value).put k v) rest
    rw [ih still new.2, put_comm present (Ne.symm new.1)]

/-- A value may be written before what it stands in is written over entries, or after. -/
theorem overlay_put {update : Entries α κ} (distinct : update.keys.Nodup) (base : Entries α κ)
    (key : κ) (value : α) :
    overlay base (update.put key value) = (overlay base update).put key value := by
  induction update generalizing base with
  | nil => rfl
  | cons entry rest ih =>
    obtain ⟨k, v⟩ := entry
    rw [keys_cons, List.nodup_cons] at distinct
    by_cases same : k = key
    · subst same
      have present : k ∈ (base.put k v).keys := by
        rw [← isSome_get?, get?_put, if_pos rfl]
        rfl
      change overlay base (put ((k, v) :: rest) k value) = (overlay (base.put k v) rest).put k value
      rw [overlay_put_comm present distinct.1, put_put, put, if_pos rfl]
      rfl
    · rw [put, if_neg same]
      exact ih distinct.2 (base.put k v)

/-- Pairs may be written one after the other over what has been written over entries. -/
theorem overlay_assoc {update : Entries α κ} (distinct : update.keys.Nodup) (base : Entries α κ)
    (pairs : List (κ × α)) :
    overlay base (overlay update pairs) = overlay (overlay base update) pairs := by
  induction pairs generalizing update with
  | nil => rfl
  | cons pair rest ih =>
    change overlay base (overlay (update.put pair.1 pair.2) rest) =
      overlay ((overlay base update).put pair.1 pair.2) rest
    rw [ih (nodup_put distinct pair.1 pair.2), overlay_put distinct]

/-- What has been written over entries and is written over them again changes nothing. -/
theorem overlay_overlay {base : Entries α κ} (distinct : base.keys.Nodup)
    (pairs : List (κ × α)) : overlay base (overlay base pairs) = overlay base pairs := by
  rw [overlay_assoc distinct, overlay_self distinct]

/-- Pairs are written over entries as the entries made of them are. -/
theorem overlay_ofPairs (base : Entries α κ) (pairs : List (κ × α)) :
    overlay base (ofPairs pairs) = overlay base pairs := by
  have distinct : keys ([] : Entries α κ) = [] := rfl
  exact overlay_assoc (distinct ▸ List.nodup_nil) base pairs

theorem overlay_append (base : Entries α κ) (first second : List (κ × α)) :
    overlay base (first ++ second) = overlay (overlay base first) second :=
  List.foldl_append

/-- What holds of all values holds of them after one has been written over them. -/
theorem forall_mem_put {p : α → Prop} {entries : Entries α κ} (each : ∀ entry ∈ entries, p entry.2)
    (key : κ) {value : α} (ofValue : p value) : ∀ entry ∈ entries.put key value, p entry.2 := by
  induction entries with
  | nil => exact List.forall_mem_cons.mpr ⟨ofValue, each⟩
  | cons entry rest ih =>
    obtain ⟨k, v⟩ := entry
    obtain ⟨ofFirst, ofRest⟩ := List.forall_mem_cons.mp each
    rw [put]
    split
    · exact List.forall_mem_cons.mpr ⟨ofValue, ofRest⟩
    · exact List.forall_mem_cons.mpr ⟨ofFirst, ih ofRest⟩

theorem forall_mem_overlay {p : α → Prop} {base update : Entries α κ}
    (ofBase : ∀ entry ∈ base, p entry.2) (ofUpdate : ∀ entry ∈ update, p entry.2) :
    ∀ entry ∈ overlay base update, p entry.2 := by
  induction update generalizing base with
  | nil => exact ofBase
  | cons entry rest ih =>
    obtain ⟨ofFirst, ofRest⟩ := List.forall_mem_cons.mp ofUpdate
    exact ih (forall_mem_put ofBase entry.1 ofFirst) ofRest

/-- Entries whose keys do not repeat are what they are as pairs. -/
theorem ofPairs_of_nodup {pairs : Entries α κ} (distinct : pairs.keys.Nodup) :
    ofPairs pairs = pairs := by
  have nothing : keys ([] : Entries α κ) = [] := rfl
  rw [ofPairs, overlay_eq (nothing ▸ List.nodup_nil) distinct]
  simp

end Entries

end Reckoner

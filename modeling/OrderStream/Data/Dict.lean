import Mathlib.Data.List.Basic
import Mathlib.Data.List.Nodup

/-! Python dictionaries: entries in insertion order, each key at most once. -/

structure PyDict (κ : Type u) (ν : Type v) where
  entries : List (κ × ν)
  nodup : (entries.map Prod.fst).Nodup

namespace PyDict

variable {κ : Type u} {ν : Type v} {μ : Type w}

theorem ext_entries {left right : PyDict κ ν}
    (equal : left.entries = right.entries) : left = right := by
  cases left
  cases right
  congr

instance [DecidableEq κ] [DecidableEq ν] : DecidableEq (PyDict κ ν) :=
  fun left right => decidable_of_iff (left.entries = right.entries)
    ⟨ext_entries, congrArg entries⟩

def empty : PyDict κ ν := ⟨[], List.nodup_nil⟩

instance : EmptyCollection (PyDict κ ν) := ⟨empty⟩

instance : Inhabited (PyDict κ ν) := ⟨empty⟩

def keys (dict : PyDict κ ν) : List κ := dict.entries.map Prod.fst

def values (dict : PyDict κ ν) : List ν := dict.entries.map Prod.snd

def filterKeys (test : κ → Bool) (dict : PyDict κ ν) : PyDict κ ν where
  entries := dict.entries.filter fun entry => test entry.1
  nodup := dict.nodup.sublist (List.filter_sublist.map Prod.fst)

def mapValues (f : ν → μ) (dict : PyDict κ ν) : PyDict κ μ where
  entries := dict.entries.map fun entry => (entry.1, f entry.2)
  nodup := by
    simpa only [List.map_map, Function.comp_def] using dict.nodup

variable [DecidableEq κ]

def get? (dict : PyDict κ ν) (key : κ) : Option ν := dict.entries.lookup key

def contains (dict : PyDict κ ν) (key : κ) : Bool := (dict.get? key).isSome

/-- `dict.pop(key, None)` -/
def erase (dict : PyDict κ ν) (key : κ) : PyDict κ ν :=
  dict.filterKeys fun other => decide (other ≠ key)

def setEntries (entries : List (κ × ν)) (key : κ) (value : ν) : List (κ × ν) :=
  match entries with
  | [] => [(key, value)]
  | entry :: rest =>
      if entry.1 = key then (key, value) :: rest
      else entry :: setEntries rest key value

theorem mem_keys_setEntries {entries : List (κ × ν)} {key other : κ} {value : ν} :
    other ∈ (setEntries entries key value).map Prod.fst ↔
      other = key ∨ other ∈ entries.map Prod.fst := by
  induction entries with
  | nil => simp [setEntries]
  | cons entry rest ih =>
      by_cases same : entry.1 = key
      · simp [setEntries, same]
      · rw [setEntries, if_neg same, List.map_cons, List.mem_cons, ih,
          List.map_cons, List.mem_cons]
        tauto

theorem nodup_setEntries {entries : List (κ × ν)} (key : κ) (value : ν)
    (nodup : (entries.map Prod.fst).Nodup) :
    ((setEntries entries key value).map Prod.fst).Nodup := by
  induction entries with
  | nil => simp [setEntries]
  | cons entry rest ih =>
      simp only [List.map_cons, List.nodup_cons] at nodup
      by_cases same : entry.1 = key
      · simpa [setEntries, same] using nodup
      · rw [setEntries, if_neg same, List.map_cons, List.nodup_cons,
          mem_keys_setEntries]
        refine ⟨?_, ih nodup.2⟩
        rintro (equal | member)
        · exact same equal
        · exact nodup.1 member

/-- `dict[key] = value`: an existing key keeps its place. -/
def set (dict : PyDict κ ν) (key : κ) (value : ν) : PyDict κ ν where
  entries := setEntries dict.entries key value
  nodup := nodup_setEntries key value dict.nodup

/-- `dict.update(pairs)`; also the reading of a dict display, where of two equal
keys the later value wins. -/
def update (dict : PyDict κ ν) (pairs : List (κ × ν)) : PyDict κ ν :=
  pairs.foldl (fun dict pair => dict.set pair.1 pair.2) dict

def ofList (pairs : List (κ × ν)) : PyDict κ ν := empty.update pairs

omit [DecidableEq κ] in
@[simp] theorem values_empty : (∅ : PyDict κ ν).values = [] := rfl

@[simp] theorem get?_empty (key : κ) : (∅ : PyDict κ ν).get? key = none := rfl

theorem lookup_cons_ite (entry : κ × ν) (rest : List (κ × ν)) (key : κ) :
    (entry :: rest).lookup key =
      if key = entry.1 then some entry.2 else rest.lookup key := by
  obtain ⟨name, value⟩ := entry
  by_cases same : key = name
  · simp [same]
  · simp [List.lookup_cons, same, beq_false_of_ne same]

theorem lookup_setEntries (entries : List (κ × ν)) (key other : κ) (value : ν) :
    (setEntries entries key value).lookup other =
      if other = key then some value else entries.lookup other := by
  induction entries with
  | nil => simp [setEntries, lookup_cons_ite]
  | cons entry rest ih =>
      by_cases hit : entry.1 = key
      · by_cases same : other = key <;>
          simp [setEntries, hit, lookup_cons_ite, same]
      · rw [setEntries, if_neg hit, lookup_cons_ite, lookup_cons_ite, ih]
        by_cases same : other = key
        · subst same
          simp [Ne.symm hit]
        · simp [same]

theorem get?_set (dict : PyDict κ ν) (key other : κ) (value : ν) :
    (dict.set key value).get? other =
      if other = key then some value else dict.get? other :=
  lookup_setEntries dict.entries key other value

@[simp] theorem get?_set_self (dict : PyDict κ ν) (key : κ) (value : ν) :
    (dict.set key value).get? key = some value := by
  simp [get?_set]

@[simp] theorem get?_set_of_ne (dict : PyDict κ ν) {key other : κ} (value : ν)
    (ne : other ≠ key) :
    (dict.set key value).get? other = dict.get? other := by
  simp [get?_set, ne]

theorem lookup_eq_none {entries : List (κ × ν)} {key : κ} :
    entries.lookup key = none ↔ key ∉ entries.map Prod.fst := by
  rw [List.lookup_eq_none_iff, List.mem_map, not_exists]
  refine forall_congr' fun entry => ?_
  rw [not_and, bne_iff_ne, ne_comm]

theorem update_append (dict : PyDict κ ν) (first second : List (κ × ν)) :
    dict.update (first ++ second) = (dict.update first).update second :=
  List.foldl_append

theorem get?_update (dict : PyDict κ ν) {pairs : List (κ × ν)}
    (nodup : (pairs.map Prod.fst).Nodup) (key : κ) :
    (dict.update pairs).get? key = (pairs.lookup key).or (dict.get? key) := by
  induction pairs generalizing dict with
  | nil => rfl
  | cons pair pairs ih =>
      rw [List.map_cons, List.nodup_cons] at nodup
      rw [update, List.foldl_cons, ← update, ih _ nodup.2, get?_set, lookup_cons_ite]
      by_cases same : key = pair.1
      · rw [if_pos same, if_pos same, lookup_eq_none.mpr (same ▸ nodup.1)]
        rfl
      · rw [if_neg same, if_neg same]

theorem lookup_filter_fst (test : κ → Bool) (entries : List (κ × ν)) (key : κ) :
    (entries.filter fun entry => test entry.1).lookup key =
      if test key then entries.lookup key else none := by
  induction entries with
  | nil => simp
  | cons entry rest ih =>
      obtain ⟨name, value⟩ := entry
      by_cases passes : test name
      · rw [List.filter_cons_of_pos (by exact passes), lookup_cons_ite,
          lookup_cons_ite, ih]
        by_cases same : key = name <;> simp [same, passes]
      · rw [List.filter_cons_of_neg (by simpa using passes), lookup_cons_ite, ih]
        by_cases same : key = name <;> simp [same, passes]

theorem get?_filterKeys (test : κ → Bool) (dict : PyDict κ ν) (key : κ) :
    (dict.filterKeys test).get? key = if test key then dict.get? key else none :=
  lookup_filter_fst test dict.entries key

theorem get?_erase (dict : PyDict κ ν) (key other : κ) :
    (dict.erase key).get? other = if other = key then none else dict.get? other := by
  by_cases same : other = key <;> simp [erase, get?_filterKeys, same]

@[simp] theorem get?_erase_self (dict : PyDict κ ν) (key : κ) :
    (dict.erase key).get? key = none := by
  simp [get?_erase]

@[simp] theorem get?_erase_of_ne (dict : PyDict κ ν) {key other : κ}
    (ne : other ≠ key) : (dict.erase key).get? other = dict.get? other := by
  simp [get?_erase, ne]

theorem lookup_map_snd (f : ν → μ) (entries : List (κ × ν)) (key : κ) :
    (entries.map fun entry => (entry.1, f entry.2)).lookup key =
      (entries.lookup key).map f := by
  induction entries with
  | nil => rfl
  | cons entry rest ih =>
      obtain ⟨name, value⟩ := entry
      by_cases same : key = name <;> simp [lookup_cons_ite, same, ih]

@[simp] theorem get?_mapValues (f : ν → μ) (dict : PyDict κ ν) (key : κ) :
    (dict.mapValues f).get? key = (dict.get? key).map f :=
  lookup_map_snd f dict.entries key

theorem lookup_eq_some_iff_mem {entries : List (κ × ν)}
    (nodup : (entries.map Prod.fst).Nodup) {key : κ} {value : ν} :
    entries.lookup key = some value ↔ (key, value) ∈ entries := by
  induction entries with
  | nil => simp
  | cons entry rest ih =>
      obtain ⟨name, first⟩ := entry
      simp only [List.map_cons, List.nodup_cons, List.mem_map, Prod.exists,
        exists_and_right, exists_eq_right, not_exists] at nodup
      by_cases same : key = name
      · subst same
        simp only [lookup_cons_ite, if_true, Option.some.injEq, List.mem_cons,
          Prod.mk.injEq, true_and]
        constructor
        · intro equal
          exact Or.inl equal.symm
        · rintro (equal | member)
          · exact equal.symm
          · exact absurd member (nodup.1 value)
      · simp [lookup_cons_ite, ih nodup.2, same]

theorem get?_eq_some_iff {dict : PyDict κ ν} {key : κ} {value : ν} :
    dict.get? key = some value ↔ (key, value) ∈ dict.entries :=
  lookup_eq_some_iff_mem dict.nodup

theorem mem_keys_iff {dict : PyDict κ ν} {key : κ} :
    key ∈ dict.keys ↔ ∃ value, dict.get? key = some value := by
  simp [keys, get?_eq_some_iff]

theorem get?_eq_none_iff {dict : PyDict κ ν} {key : κ} :
    dict.get? key = none ↔ key ∉ dict.keys := by
  rw [mem_keys_iff, Option.eq_none_iff_forall_ne_some, not_exists]

theorem filter_ne_eq_self {entries : List (κ × ν)} {key : κ}
    (absent : key ∉ entries.map Prod.fst) :
    entries.filter (fun entry => decide (entry.1 ≠ key)) = entries := by
  rw [List.filter_eq_self]
  intro entry member
  simpa using fun same => absent (List.mem_map.mpr ⟨entry, member, same⟩)

theorem setEntries_perm {entries : List (κ × ν)} (key : κ) (value : ν)
    (nodup : (entries.map Prod.fst).Nodup) :
    (setEntries entries key value).Perm
      ((key, value) :: entries.filter fun entry => decide (entry.1 ≠ key)) := by
  induction entries with
  | nil => exact List.Perm.refl _
  | cons entry rest ih =>
      simp only [List.map_cons, List.nodup_cons] at nodup
      by_cases same : entry.1 = key
      · rw [setEntries, if_pos same, List.filter_cons_of_neg (by simpa using same),
          filter_ne_eq_self (same ▸ nodup.1)]
      · rw [setEntries, if_neg same, List.filter_cons_of_pos (by simpa using same)]
        exact ((ih nodup.2).cons entry).trans (List.Perm.swap _ _ _)

theorem values_set_perm (dict : PyDict κ ν) (key : κ) (value : ν) :
    (dict.set key value).values.Perm (value :: (dict.erase key).values) :=
  (setEntries_perm key value dict.nodup).map Prod.snd

theorem setEntries_of_lookup {entries : List (κ × ν)} {key : κ} {value : ν}
    (stored : entries.lookup key = some value) :
    setEntries entries key value = entries := by
  induction entries with
  | nil => cases stored
  | cons entry rest ih =>
      rw [lookup_cons_ite] at stored
      by_cases same : key = entry.1
      · rw [if_pos same, Option.some.injEq] at stored
        rw [setEntries, if_pos same.symm, same, ← stored]
      · rw [if_neg same] at stored
        rw [setEntries, if_neg (Ne.symm same), ih stored]

theorem set_of_get? {dict : PyDict κ ν} {key : κ} {value : ν}
    (stored : dict.get? key = some value) : dict.set key value = dict :=
  ext_entries (setEntries_of_lookup stored)

theorem setEntries_of_absent {entries : List (κ × ν)} {key : κ} (value : ν)
    (absent : key ∉ entries.map Prod.fst) :
    setEntries entries key value = entries ++ [(key, value)] := by
  induction entries with
  | nil => rfl
  | cons entry rest ih =>
      rw [List.map_cons, List.mem_cons, not_or] at absent
      rw [setEntries, if_neg (Ne.symm absent.1), ih absent.2]
      rfl

theorem entries_update (dict : PyDict κ ν) {pairs : List (κ × ν)}
    (nodup : ((dict.entries ++ pairs).map Prod.fst).Nodup) :
    (dict.update pairs).entries = dict.entries ++ pairs := by
  induction pairs generalizing dict with
  | nil => exact (List.append_nil _).symm
  | cons pair pairs ih =>
      have absent : pair.1 ∉ dict.entries.map Prod.fst := by
        intro known
        rw [List.map_append, List.nodup_append] at nodup
        exact nodup.2.2 pair.1 known pair.1 List.mem_cons_self rfl
      have placed : (dict.set pair.1 pair.2).entries = dict.entries ++ [pair] :=
        setEntries_of_absent pair.2 absent
      have onward : dict.update (pair :: pairs) = (dict.set pair.1 pair.2).update pairs := rfl
      rw [onward, ih, placed, List.append_assoc]
      · rfl
      · rw [placed, List.append_assoc]
        exact nodup

theorem ofList_entries (dict : PyDict κ ν) : ofList dict.entries = dict :=
  ext_entries (entries_update empty dict.nodup)

theorem values_perm {dict : PyDict κ ν} {key : κ} {value : ν}
    (stored : dict.get? key = some value) :
    dict.values.Perm (value :: (dict.erase key).values) := by
  have whole := setEntries_perm key value dict.nodup
  rw [setEntries_of_lookup stored] at whole
  exact whole.map Prod.snd

theorem values_set_perm_of_absent {dict : PyDict κ ν} {key : κ} (value : ν)
    (absent : dict.get? key = none) : (dict.set key value).values.Perm (value :: dict.values) := by
  have whole := setEntries_perm key value dict.nodup
  rw [filter_ne_eq_self (get?_eq_none_iff.mp absent)] at whole
  exact whole.map Prod.snd

theorem mem_values {dict : PyDict κ ν} {value : ν} :
    value ∈ dict.values ↔ ∃ key, dict.get? key = some value := by
  simp [values, get?_eq_some_iff]

theorem filter_values {dict : PyDict κ ν} {name : ν → κ}
    (named : ∀ key value, dict.get? key = some value → name value = key) (key : κ) :
    (dict.values.filter fun value => decide (name value = key)) = (dict.get? key).toList := by
  cases stored : dict.get? key with
  | none =>
      rw [Option.toList_none, List.filter_eq_nil_iff]
      intro value member
      obtain ⟨other, found⟩ := mem_values.mp member
      rw [decide_eq_true_iff, named other value found]
      rintro rfl
      rw [stored] at found
      cases found
  | some value =>
      have apart := (values_perm stored).filter fun value => decide (name value = key)
      have others : ((dict.erase key).values.filter fun value =>
          decide (name value = key)) = [] := by
        rw [List.filter_eq_nil_iff]
        intro other member
        obtain ⟨otherKey, found⟩ := mem_values.mp member
        rw [get?_erase] at found
        split at found
        · cases found
        · rename_i differs
          rw [decide_eq_true_iff, named otherKey other found]
          exact differs
      rw [List.filter_cons_of_pos (by simpa using named key value stored), others] at apart
      exact List.perm_singleton.mp apart

end PyDict

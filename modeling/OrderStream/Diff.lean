import Mathlib.Data.List.Sort
import OrderStream.Models

/-! Field diffs of documents, and the merging of two diffs. -/

namespace OrderStream

/-- `IGNORED_FIELDS` -/
def ignoredFields : List String := ["_id", "updated_at"]

def isIgnored (field : String) : Bool := ignoredFields.contains field

/-- `sorted((set(before) | set(after)) - IGNORED_FIELDS)` -/
def comparedKeys (before after : Doc) : List String :=
  ((before.keys ∪ after.keys).filter fun key => !isIgnored key).insertionSort (· ≤ ·)

def compareField (before after : Doc) (key : String) : Option DiffEntry :=
  if (before.get key).pyEq (after.get key) then none
  else some ⟨key, before.get key, after.get key⟩

def computeDiff (before after : Option Doc) : List DiffEntry :=
  match before, after with
  | none, none => []
  | none, some after =>
      (after.entries.filter fun entry => !isIgnored entry.1).map fun entry =>
        ⟨entry.1, .null, entry.2⟩
  | some before, none =>
      (before.entries.filter fun entry => !isIgnored entry.1).map fun entry =>
        ⟨entry.1, entry.2, .null⟩
  | some before, some after =>
      (comparedKeys before after).filterMap (compareField before after)

def mergeEntry (byField : PyDict String DiffEntry) (entry : DiffEntry) :
    PyDict String DiffEntry :=
  match byField.get? entry.field with
  | some first => byField.set entry.field ⟨entry.field, first.before, entry.after⟩
  | none => byField.set entry.field entry

def mergeDiffs (initial latest : List DiffEntry) : List DiffEntry :=
  let byField := initial.foldl (fun byField entry => byField.set entry.field entry) ∅
  let byField := latest.foldl mergeEntry byField
  byField.values.filter fun entry => !entry.before.pyEq entry.after

def changeAt (diff : List DiffEntry) (field : String) : Option (Value × Value) :=
  (diff.find? fun entry => decide (entry.field = field)).map fun entry =>
    (entry.before, entry.after)

def OncePerField (diff : List DiffEntry) : Prop := (diff.map DiffEntry.field).Nodup

theorem changeAt_cons (entry : DiffEntry) (rest : List DiffEntry) (field : String) :
    changeAt (entry :: rest) field =
      if entry.field = field then some (entry.before, entry.after)
      else changeAt rest field := by
  by_cases same : entry.field = field <;> simp [changeAt, same]

theorem mem_iff_changeAt {diff : List DiffEntry} (once : OncePerField diff)
    {entry : DiffEntry} :
    entry ∈ diff ↔ changeAt diff entry.field = some (entry.before, entry.after) := by
  induction diff with
  | nil => simp [changeAt]
  | cons first rest ih =>
      simp only [OncePerField, List.map_cons, List.nodup_cons, List.mem_map, not_exists,
        not_and] at once
      rw [changeAt_cons, List.mem_cons]
      split
      · rename_i same
        constructor
        · rintro (rfl | member)
          · rfl
          · exact absurd same.symm (once.1 entry member)
        · intro equal
          left
          cases first
          cases entry
          simp_all
      · rename_i differ
        rw [← ih once.2]
        constructor
        · rintro (rfl | member)
          · exact absurd rfl differ
          · exact member
        · exact Or.inr

def Changed (before after : Option Doc) (field : String) : Prop :=
  match before, after with
  | none, none => False
  | none, some after => after.contains field
  | some before, none => before.contains field
  | some before, some after => ¬(before.get field).pyEq (after.get field)

instance : ∀ (before after : Option Doc) (field : String),
    Decidable (Changed before after field)
  | none, none, _ => inferInstanceAs (Decidable False)
  | none, some after, field => inferInstanceAs (Decidable (after.contains field = true))
  | some before, none, field => inferInstanceAs (Decidable (before.contains field = true))
  | some before, some after, field =>
      inferInstanceAs (Decidable (¬(before.get field).pyEq (after.get field) = true))

theorem mem_comparedKeys {before after : Doc} {key : String} :
    key ∈ comparedKeys before after ↔
      isIgnored key = false ∧ (key ∈ before.keys ∨ key ∈ after.keys) := by
  simp only [comparedKeys, List.mem_insertionSort, List.mem_filter, List.mem_union_iff,
    Bool.not_eq_true']
  exact and_comm

theorem nodup_comparedKeys (before after : Doc) : (comparedKeys before after).Nodup := by
  unfold comparedKeys
  rw [(List.perm_insertionSort (· ≤ ·) _).nodup_iff]
  exact (after.nodup.union _).filter _

theorem changeAt_compareField (before after : Doc) (keys : List String) (field : String) :
    changeAt (keys.filterMap (compareField before after)) field =
      if field ∈ keys ∧ ¬(before.get field).pyEq (after.get field) then
        some (before.get field, after.get field)
      else none := by
  induction keys with
  | nil => simp [changeAt]
  | cons key keys ih =>
      by_cases equal : (before.get key).pyEq (after.get key) = true
      · have skipped : compareField before after key = none := by simp [compareField, equal]
        rw [List.filterMap_cons_none skipped, ih]
        by_cases same : field = key
        · subst same
          simp [equal]
        · simp [same]
      · have kept : compareField before after key =
            some ⟨key, before.get key, after.get key⟩ := by simp [compareField, equal]
        rw [List.filterMap_cons_some kept, changeAt_cons, ih]
        by_cases same : key = field
        · subst same
          simp [equal]
        · simp [same, Ne.symm same]

theorem changeAt_entries (entries : List (String × Value)) (pair : Value → Value × Value)
    (field : String) :
    changeAt ((entries.filter fun entry => !isIgnored entry.1).map fun entry =>
        ⟨entry.1, (pair entry.2).1, (pair entry.2).2⟩) field =
      if isIgnored field = false then (entries.lookup field).map pair else none := by
  induction entries with
  | nil => simp [changeAt]
  | cons entry rest ih =>
      obtain ⟨name, value⟩ := entry
      by_cases ignored : isIgnored name = true
      · rw [List.filter_cons_of_neg (by simp [ignored]), ih, PyDict.lookup_cons_ite]
        by_cases same : field = name
        · subst same
          simp [ignored]
        · simp [same]
      · rw [List.filter_cons_of_pos (by simp [ignored]), List.map_cons, changeAt_cons, ih,
          PyDict.lookup_cons_ite]
        by_cases same : field = name
        · subst same
          simp [ignored]
        · simp [same, Ne.symm same]

theorem changeAt_computeDiff (before after : Option Doc) (field : String) :
    changeAt (computeDiff before after) field =
      if isIgnored field = false ∧ Changed before after field then
        some (Doc.getOr before field, Doc.getOr after field)
      else none := by
  cases before with
  | none =>
      cases after with
      | none => simp [computeDiff, changeAt, Changed]
      | some after =>
          rw [computeDiff, changeAt_entries after.entries fun value => (.null, value)]
          cases stored : after.entries.lookup field <;>
            simp [Changed, PyDict.contains, PyDict.get?, Doc.getOr, Doc.get, stored]
  | some before =>
      cases after with
      | none =>
          rw [computeDiff, changeAt_entries before.entries fun value => (value, .null)]
          cases stored : before.entries.lookup field <;>
            simp [Changed, PyDict.contains, PyDict.get?, Doc.getOr, Doc.get, stored]
      | some after =>
          rw [computeDiff, changeAt_compareField]
          simp only [mem_comparedKeys]
          have absent (missing : ¬(field ∈ before.keys ∨ field ∈ after.keys)) :
              (before.get field).pyEq (after.get field) = true := by
            rw [not_or, ← PyDict.get?_eq_none_iff, ← PyDict.get?_eq_none_iff] at missing
            simp [Doc.get, missing, Value.pyEq, Value.spelling]
          by_cases present : field ∈ before.keys ∨ field ∈ after.keys
          · simp [present, Changed, Doc.getOr]
          · simp [absent present, Changed]

theorem oncePerField_computeDiff (before after : Option Doc) :
    OncePerField (computeDiff before after) := by
  have filtered (doc : Doc) :
      ((doc.entries.filter fun entry => !isIgnored entry.1).map Prod.fst).Nodup :=
    doc.nodup.sublist (List.filter_sublist.map Prod.fst)
  unfold OncePerField
  cases before with
  | none =>
      cases after with
      | none => exact List.nodup_nil
      | some after => simpa [computeDiff, Function.comp_def] using filtered after
  | some before =>
      cases after with
      | none => simpa [computeDiff, Function.comp_def] using filtered before
      | some after =>
          have named (keys : List String) : ((keys.filterMap
              (compareField before after)).map DiffEntry.field).Sublist keys := by
            induction keys with
            | nil => exact List.Sublist.refl _
            | cons key keys ih =>
                unfold compareField at ih ⊢
                rw [List.filterMap_cons]
                split
                · exact ih.cons _
                · rename_i entry found
                  split at found
                  · cases found
                  · cases found
                    exact ih.cons_cons _
          exact (nodup_comparedKeys before after).sublist (named _)

def KeyedByField (byField : PyDict String DiffEntry) : Prop :=
  ∀ field entry, byField.get? field = some entry → entry.field = field

theorem KeyedByField.set {byField : PyDict String DiffEntry} (keyed : KeyedByField byField)
    (entry : DiffEntry) : KeyedByField (byField.set entry.field entry) := by
  intro field found stored
  rw [PyDict.get?_set] at stored
  split at stored
  · rename_i same
    cases stored
    exact same.symm
  · exact keyed field found stored

theorem KeyedByField.mergeEntry {byField : PyDict String DiffEntry}
    (keyed : KeyedByField byField) (entry : DiffEntry) :
    KeyedByField (mergeEntry byField entry) := by
  unfold OrderStream.mergeEntry
  split
  · rename_i first _
    exact keyed.set ⟨entry.field, first.before, entry.after⟩
  · exact keyed.set entry

theorem keyedByField_foldl
    {step : PyDict String DiffEntry → DiffEntry → PyDict String DiffEntry}
    (keeps : ∀ byField entry, KeyedByField byField → KeyedByField (step byField entry))
    (entries : List DiffEntry) {byField : PyDict String DiffEntry}
    (keyed : KeyedByField byField) : KeyedByField (entries.foldl step byField) := by
  induction entries generalizing byField with
  | nil => exact keyed
  | cons entry entries ih => exact ih (keeps byField entry keyed)

theorem get?_foldl_set {entries : List DiffEntry} (once : OncePerField entries)
    (byField : PyDict String DiffEntry) (field : String) :
    (entries.foldl (fun byField entry => byField.set entry.field entry) byField).get? field =
      (entries.find? fun entry => decide (entry.field = field)).or (byField.get? field) := by
  induction entries generalizing byField with
  | nil => simp
  | cons entry entries ih =>
      simp only [OncePerField, List.map_cons, List.nodup_cons, List.mem_map, not_exists,
        not_and] at once
      rw [List.foldl_cons, ih once.2, PyDict.get?_set]
      by_cases same : entry.field = field
      · have absent : entries.find? (fun entry => decide (entry.field = field)) = none := by
          rw [List.find?_eq_none]
          intro other member
          simpa [same] using once.1 other member
        simp [same, absent]
      · simp [same, Ne.symm same]

theorem get?_mergeEntry (byField : PyDict String DiffEntry) (entry : DiffEntry)
    (field : String) :
    (mergeEntry byField entry).get? field =
      if entry.field = field then
        some (match byField.get? field with
          | some first => ⟨field, first.before, entry.after⟩
          | none => entry)
      else byField.get? field := by
  unfold mergeEntry
  by_cases same : entry.field = field
  · subst same
    cases byField.get? entry.field <;> simp
  · cases byField.get? entry.field <;> simp [same, Ne.symm same]

theorem get?_foldl_mergeEntry {entries : List DiffEntry} (once : OncePerField entries)
    (byField : PyDict String DiffEntry) (field : String) :
    (entries.foldl mergeEntry byField).get? field =
      match entries.find? fun entry => decide (entry.field = field), byField.get? field with
      | some last, some first => some ⟨field, first.before, last.after⟩
      | some last, none => some last
      | none, first => first := by
  induction entries generalizing byField with
  | nil => simp
  | cons entry entries ih =>
      simp only [OncePerField, List.map_cons, List.nodup_cons, List.mem_map, not_exists,
        not_and] at once
      rw [List.foldl_cons, ih once.2, get?_mergeEntry]
      by_cases same : entry.field = field
      · have absent : entries.find? (fun entry => decide (entry.field = field)) = none := by
          rw [List.find?_eq_none]
          intro other member
          simpa [same] using once.1 other member
        cases byField.get? field <;> simp [same, absent]
      · simp [same]

theorem lookup_values {entries : List (String × DiffEntry)}
    (nodup : (entries.map Prod.fst).Nodup)
    (keyed : ∀ entry ∈ entries, entry.2.field = entry.1) (test : DiffEntry → Bool)
    (field : String) :
    changeAt ((entries.map Prod.snd).filter test) field =
      ((entries.lookup field).filter test).map fun entry => (entry.before, entry.after) := by
  induction entries with
  | nil => simp [changeAt]
  | cons entry entries ih =>
      obtain ⟨name, value⟩ := entry
      have named : value.field = name := keyed (name, value) (by simp)
      rw [List.map_cons, List.nodup_cons] at nodup
      have rest := ih nodup.2 fun entry member => keyed entry (by simp [member])
      rw [PyDict.lookup_cons_ite, List.map_cons]
      by_cases same : field = name
      · subst same
        have absent : entries.lookup field = none := by
          rw [List.lookup_eq_none_iff]
          intro entry member
          have differ : entry.1 ≠ field := fun equal =>
            nodup.1 (List.mem_map.mpr ⟨entry, member, equal⟩)
          simpa using differ.symm
        by_cases kept : test value = true
        · rw [List.filter_cons_of_pos kept, changeAt_cons]
          simp [named, kept, Option.filter]
        · rw [List.filter_cons_of_neg kept, rest, absent]
          simp [kept, Option.filter]
      · by_cases kept : test value = true
        · rw [List.filter_cons_of_pos kept, changeAt_cons, rest]
          simp [named, same, Ne.symm same]
        · rw [List.filter_cons_of_neg kept, rest]
          simp [same]

theorem keyed_mergeDiffs (initial latest : List DiffEntry) :
    KeyedByField (latest.foldl mergeEntry
      (initial.foldl (fun byField entry => byField.set entry.field entry) ∅)) := by
  refine keyedByField_foldl (fun _ entry keyed => keyed.mergeEntry entry) latest ?_
  refine keyedByField_foldl (fun _ entry keyed => keyed.set entry) initial ?_
  intro field entry stored
  simp at stored

theorem KeyedByField.mem {byField : PyDict String DiffEntry} (keyed : KeyedByField byField) :
    ∀ entry ∈ byField.entries, entry.2.field = entry.1 := fun entry member =>
  keyed entry.1 entry.2 (PyDict.get?_eq_some_iff.mpr member)

theorem changeAt_mergeDiffs {initial latest : List DiffEntry}
    (initialOnce : OncePerField initial) (latestOnce : OncePerField latest)
    (field : String) :
    changeAt (mergeDiffs initial latest) field =
      (match changeAt initial field, changeAt latest field with
        | some first, some last => some (first.1, last.2)
        | some first, none => some first
        | none, last => last).filter fun change => !change.1.pyEq change.2 := by
  rw [mergeDiffs, PyDict.values, lookup_values (PyDict.nodup _) (keyed_mergeDiffs _ _).mem]
  have found := get?_foldl_mergeEntry latestOnce
    (initial.foldl (fun byField entry => byField.set entry.field entry) ∅) field
  rw [get?_foldl_set initialOnce, PyDict.get?] at found
  rw [found]
  unfold changeAt
  cases initial.find? (fun entry => decide (entry.field = field)) <;>
    cases latest.find? (fun entry => decide (entry.field = field)) <;>
      simp [Option.filter]

theorem forall_mem_mergeDiffs {holds : DiffEntry → Prop}
    (joins : ∀ first last : DiffEntry, holds last →
      holds ⟨last.field, first.before, last.after⟩)
    {initial latest : List DiffEntry} (initially : ∀ entry ∈ initial, holds entry)
    (lately : ∀ entry ∈ latest, holds entry) :
    ∀ entry ∈ mergeDiffs initial latest, holds entry := by
  let all (byField : PyDict String DiffEntry) : Prop :=
    ∀ field entry, byField.get? field = some entry → holds entry
  have put {byField : PyDict String DiffEntry} (before : all byField) {entry : DiffEntry}
      (fits : holds entry) : all (byField.set entry.field entry) := by
    intro field found stored
    rw [PyDict.get?_set] at stored
    split at stored
    · cases stored
      exact fits
    · exact before field found stored
  have started : all (initial.foldl (fun byField entry => byField.set entry.field entry) ∅) := by
    refine List.foldlRecOn initial _ ?_ ?_
    · intro field entry stored
      cases stored
    · intro byField before entry member
      exact put before (initially entry member)
  have merged : all (latest.foldl mergeEntry
      (initial.foldl (fun byField entry => byField.set entry.field entry) ∅)) := by
    refine List.foldlRecOn latest _ started ?_
    intro byField before entry member
    unfold mergeEntry
    split
    · rename_i first _
      have joined := joins first entry (lately entry member)
      exact put before joined
    · exact put before (lately entry member)
  intro entry member
  obtain ⟨stored, -⟩ := List.mem_filter.mp member
  obtain ⟨field, found⟩ := PyDict.mem_values.mp stored
  exact merged field entry found

theorem oncePerField_mergeDiffs (initial latest : List DiffEntry) :
    OncePerField (mergeDiffs initial latest) := by
  have keyed := (keyed_mergeDiffs initial latest).mem
  unfold mergeDiffs
  dsimp only
  generalize latest.foldl mergeEntry
    (initial.foldl (fun byField entry => byField.set entry.field entry) ∅) =
      byField at keyed ⊢
  have fields : byField.values.map DiffEntry.field = byField.keys := by
    rw [PyDict.values, PyDict.keys, List.map_map]
    exact List.map_congr_left keyed
  have once : OncePerField byField.values := by
    rw [OncePerField, fields]
    exact byField.nodup
  exact once.sublist (List.filter_sublist.map DiffEntry.field)

end OrderStream

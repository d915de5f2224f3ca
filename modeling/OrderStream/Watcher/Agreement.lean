import OrderStream.Watcher.Process

/-! Documents, and caches, that a diff cannot tell apart. -/

namespace OrderStream

theorem relTrans {α : Type u} (relation : α → α → Prop)
    (trans : ∀ first second third, relation first second → relation second third →
      relation first third) {first second third : Option α}
    (left : Option.Rel relation first second) (right : Option.Rel relation second third) :
    Option.Rel relation first third := by
  cases left with
  | none => exact right
  | some left =>
      cases right with
      | some right => exact .some (trans _ _ _ left right)

theorem relRefl {α : Type u} {relation : α → α → Prop} (refl : ∀ value, relation value value)
    (value : Option α) : Option.Rel relation value value := by
  cases value with
  | none => exact .none
  | some value => exact .some (refl value)

theorem relIsSome {α : Type u} {relation : α → α → Prop} {first second : Option α}
    (related : Option.Rel relation first second) : first.isSome = second.isSome := by
  cases related with
  | none => rfl
  | some _ => rfl

/-- The same fields with equal values, up to the ignored ones. -/
def Doc.Agrees (left right : Doc) : Prop :=
  ∀ field, isIgnored field = false →
    Option.Rel Value.Same (left.get? field) (right.get? field)

theorem Doc.Agrees.refl (doc : Doc) : doc.Agrees doc :=
  fun field _ => relRefl Value.Same.refl (doc.get? field)

theorem Doc.Agrees.trans {first second third : Doc} (left : first.Agrees second)
    (right : second.Agrees third) : first.Agrees third :=
  fun field compared => relTrans Value.Same (fun _ _ _ => Value.Same.trans) (left field compared)
    (right field compared)

theorem Watcher.strip_agrees (doc : Doc) : (Watcher.strip doc).Agrees doc := by
  intro field compared
  have kept : field ≠ "_id" := by
    rintro rfl
    cases compared
  rw [Watcher.strip, PyDict.get?_filterKeys, if_pos (decide_eq_true kept)]
  exact relRefl Value.Same.refl _

/-- Equal values under `get`, where a missing field counts as null. -/
def Doc.SameGets (left right : Doc) : Prop :=
  ∀ field, isIgnored field = false → (left.get field).Same (right.get field)

theorem Doc.Agrees.sameGets {left right : Doc} (agrees : left.Agrees right) :
    left.SameGets right := by
  intro field compared
  have same := agrees field compared
  unfold Doc.get
  generalize left.get? field = first at same ⊢
  generalize right.get? field = second at same ⊢
  cases same with
  | none => exact .refl _
  | some same => exact same

theorem Doc.SameGets.trans {first second third : Doc} (left : first.SameGets second)
    (right : second.SameGets third) : first.SameGets third :=
  fun field compared => (left field compared).trans (right field compared)

theorem Doc.sameGets_of_quiet {before after : Doc}
    (quiet : computeDiff (some before) (some after) = []) : before.SameGets after := by
  intro field compared
  have unchanged : changeAt (computeDiff (some before) (some after)) field = none := by
    rw [quiet]
    rfl
  rw [changeAt_computeDiff] at unchanged
  split at unchanged
  · cases unchanged
  · rename_i silent
    exact Or.inr (pyEq_of_not_changed fun changed => silent ⟨compared, changed⟩)

section

variable {before after before' after' : Option Doc}

theorem getOr_same (agree : Option.Rel Doc.Agrees before before') {field : String}
    (compared : isIgnored field = false) :
    (Doc.getOr before field).Same (Doc.getOr before' field) := by
  cases agree with
  | none => exact .refl _
  | some agree => exact agree.sameGets field compared

theorem contains_of_agrees {left right : Doc} (agrees : left.Agrees right) {field : String}
    (compared : isIgnored field = false) : left.contains field = right.contains field := by
  have same := agrees field compared
  unfold PyDict.contains
  generalize left.get? field = first at same ⊢
  generalize right.get? field = second at same ⊢
  cases same with
  | none => rfl
  | some _ => rfl

theorem changed_congr (first : Option.Rel Doc.Agrees before before')
    (second : Option.Rel Doc.Agrees after after') {field : String}
    (compared : isIgnored field = false) :
    Changed before after field ↔ Changed before' after' field := by
  cases first with
  | none =>
      cases second with
      | none => exact Iff.rfl
      | some second => rw [Changed, Changed, contains_of_agrees second compared]
  | some first =>
      cases second with
      | none => rw [Changed, Changed, contains_of_agrees first compared]
      | some second =>
          apply not_congr
          rw [(second.sameGets field compared).pyEq_iff, Value.pyEq_comm,
            (first.sameGets field compared).pyEq_iff, Value.pyEq_comm]

theorem computeDiff_congr (first : Option.Rel Doc.Agrees before before')
    (second : Option.Rel Doc.Agrees after after') :
    SameEntries (computeDiff before after) (computeDiff before' after') := by
  rw [sameEntries_iff (oncePerField_computeDiff _ _) (oncePerField_computeDiff _ _)]
  intro field
  rw [changeAt_computeDiff, changeAt_computeDiff]
  by_cases compared : isIgnored field = false
  · simp only [compared, true_and, changed_congr first second compared]
    split
    · exact .some ⟨getOr_same first compared, getOr_same second compared⟩
    · exact .none
  · simp only [compared]
    exact .none

end

theorem SameEntries.length_eq {left right : List DiffEntry} (same : SameEntries left right) :
    left.length = right.length := by
  obtain ⟨matched, moved, pairs⟩ := same
  exact moved.length_eq.trans pairs.length_eq

theorem SameEntries.eq_nil_iff {left right : List DiffEntry} (same : SameEntries left right) :
    left = [] ↔ right = [] := by
  rw [← List.length_eq_zero_iff, ← List.length_eq_zero_iff, same.length_eq]

end OrderStream

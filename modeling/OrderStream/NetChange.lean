import OrderStream.Diff

/-! Diffs compared up to order, and the net change that merging two diffs gives. -/

namespace OrderStream

def DiffEntry.Same (left right : DiffEntry) : Prop :=
  left.field = right.field ∧ left.before.Same right.before ∧ left.after.Same right.after

def SameEntries (left right : List DiffEntry) : Prop :=
  ∃ matched, left.Perm matched ∧ List.Forall₂ DiffEntry.Same matched right

def SameChange : Option (Value × Value) → Option (Value × Value) → Prop :=
  Option.Rel fun left right => left.1.Same right.1 ∧ left.2.Same right.2

theorem changeAt_eq_some_iff {diff : List DiffEntry} (once : OncePerField diff)
    {field : String} {before after : Value} :
    changeAt diff field = some (before, after) ↔ ⟨field, before, after⟩ ∈ diff :=
  Iff.symm (@mem_iff_changeAt diff once ⟨field, before, after⟩)

theorem changeAt_eq_none {diff : List DiffEntry} {field : String}
    (absent : field ∉ diff.map DiffEntry.field) : changeAt diff field = none := by
  rw [changeAt, Option.map_eq_none_iff, List.find?_eq_none]
  intro entry member
  simpa using fun named => absent (List.mem_map.mpr ⟨entry, member, named⟩)

theorem changeAt_perm {left right : List DiffEntry} (once : OncePerField left)
    (same : left.Perm right) (field : String) :
    changeAt left field = changeAt right field := by
  apply Option.ext
  intro change
  have rightOnce : OncePerField right := (same.map DiffEntry.field).nodup once
  rw [changeAt_eq_some_iff once, changeAt_eq_some_iff rightOnce, same.mem_iff]

theorem sameChange_of_forall₂ {left right : List DiffEntry}
    (same : List.Forall₂ DiffEntry.Same left right) (field : String) :
    SameChange (changeAt left field) (changeAt right field) := by
  induction same with
  | nil => exact Option.Rel.none
  | cons first _ ih =>
      obtain ⟨named, changes⟩ := first
      rw [changeAt_cons, changeAt_cons, named]
      split
      · exact Option.Rel.some changes
      · exact ih

theorem sameEntries_of_sameChange {left right : List DiffEntry}
    (leftOnce : OncePerField left) (rightOnce : OncePerField right)
    (same : ∀ field, SameChange (changeAt left field) (changeAt right field)) :
    SameEntries left right := by
  induction right generalizing left with
  | nil =>
      cases left with
      | nil => exact ⟨[], List.Perm.refl _, List.Forall₂.nil⟩
      | cons entry left =>
          have agrees := same entry.field
          rw [changeAt_cons, if_pos rfl] at agrees
          cases agrees
  | cons entry right ih =>
      rw [OncePerField, List.map_cons, List.nodup_cons] at rightOnce
      have agrees := same entry.field
      rw [changeAt_cons entry, if_pos rfl] at agrees
      generalize found : changeAt left entry.field = change at agrees
      cases agrees with
      | @some change _ changes =>
          have member := (changeAt_eq_some_iff leftOnce).mp found
          obtain ⟨before, after, rfl⟩ := List.append_of_mem member
          have moved : (before ++ ⟨entry.field, change.1, change.2⟩ :: after).Perm
              (⟨entry.field, change.1, change.2⟩ :: (before ++ after)) := List.perm_middle
          have movedOnce := (moved.map DiffEntry.field).nodup leftOnce
          have restOnce : OncePerField (before ++ after) := (List.nodup_cons.mp movedOnce).2
          have rest := ih restOnce rightOnce.2 ?_
          · obtain ⟨matched, perm, pairs⟩ := rest
            exact ⟨_ :: matched, moved.trans (perm.cons _), .cons ⟨rfl, changes⟩ pairs⟩
          · intro field
            have agrees := same field
            rw [changeAt_perm leftOnce moved, changeAt_cons, changeAt_cons] at agrees
            by_cases named : entry.field = field
            · subst named
              rw [changeAt_eq_none (List.nodup_cons.mp movedOnce).1,
                changeAt_eq_none rightOnce.1]
              exact Option.Rel.none
            · rwa [if_neg named, if_neg named] at agrees

theorem sameEntries_iff {left right : List DiffEntry}
    (leftOnce : OncePerField left) (rightOnce : OncePerField right) :
    SameEntries left right ↔
      ∀ field, SameChange (changeAt left field) (changeAt right field) := by
  constructor
  · rintro ⟨matched, moved, pairs⟩ field
    rw [changeAt_perm leftOnce moved]
    exact sameChange_of_forall₂ pairs field
  · exact sameEntries_of_sameChange leftOnce rightOnce

theorem SameEntries.refl (diff : List DiffEntry) : SameEntries diff diff := by
  refine ⟨diff, List.Perm.refl _, ?_⟩
  rw [List.forall₂_same]
  intro entry _
  exact ⟨rfl, .refl _, .refl _⟩

theorem pyEq_of_not_changed {before after : Option Doc} {field : String}
    (unchanged : ¬Changed before after field) :
    (Doc.getOr before field).pyEq (Doc.getOr after field) = true := by
  cases before with
  | none =>
      cases after with
      | none => rfl
      | some after => rw [Doc.getOr, Doc.getOr, Doc.get_of_not_contains unchanged]; rfl
  | some before =>
      cases after with
      | none => rw [Doc.getOr, Doc.getOr, Doc.get_of_not_contains unchanged]; rfl
      | some after => exact Decidable.not_not.mp unchanged

/-- Merging the diff of a change with that of a later one gives the net change of a
field: nothing happened to it in between, or both changed it, and it did not merely
come or go holding null. -/
def Composes (before middle later after : Option Doc) (field : String) : Prop :=
  (Changed before middle field ∧ Changed later after field ∨
      (Doc.getOr middle field).Same (Doc.getOr later field)) ∧
    (Changed before after field →
      ¬(Doc.getOr before field).pyEq (Doc.getOr after field))

/-- Two changes of a document, one right after the other, always compose. -/
theorem composes_adjacent (before middle after : Doc) (field : String) :
    Composes (some before) (some middle) (some middle) (some after) field :=
  ⟨Or.inr (.refl _), id⟩

theorem sameChange_filter_iff {change expected : Value × Value} {net : Prop} [Decidable net] :
    SameChange
        (Option.filter (fun change => !change.1.pyEq change.2) (some change))
        (if net then some expected else none) ↔
      (net ↔ ¬change.1.pyEq change.2) ∧
        (net → change.1.Same expected.1 ∧ change.2.Same expected.2) := by
  by_cases equal : change.1.pyEq change.2 = true <;> by_cases holds : net <;>
    simp [SameChange, Option.filter, equal, holds]

section

variable {initial middle later final : Value} {first last net : Prop}
  [Decidable first] [Decidable last] [Decidable net]

theorem both_changed_iff (unchanged : ¬net → initial.pyEq final = true) :
    SameChange
        (Option.filter (fun change => !change.1.pyEq change.2) (some (initial, final)))
        (if net then some (initial, final) else none) ↔
      (net → ¬initial.pyEq final) := by
  rw [sameChange_filter_iff]
  constructor
  · rintro ⟨agree, _⟩
    exact agree.mp
  · intro differ
    exact ⟨⟨differ, Decidable.not_imp_comm.mp unchanged⟩, fun _ => ⟨.refl _, .refl _⟩⟩

theorem first_changed_iff (settled : later.Same final)
    (unchanged : ¬net → initial.pyEq final = true) :
    SameChange
        (Option.filter (fun change => !change.1.pyEq change.2) (some (initial, middle)))
        (if net then some (initial, final) else none) ↔
      middle.Same later ∧ (net → ¬initial.pyEq final) := by
  rw [sameChange_filter_iff]
  constructor
  · rintro ⟨agree, same⟩
    have kept : middle.Same final := by
      by_cases holds : net
      · exact (same holds).2
      · have equal := Decidable.not_not.mp (mt agree.mpr holds)
        exact Or.inr (Value.pyEq_trans (Value.pyEq_symm equal) (unchanged holds))
    refine ⟨kept.trans settled.symm, ?_⟩
    rw [← kept.pyEq_iff]
    exact agree.mp
  · rintro ⟨linked, differ⟩
    have kept : middle.Same final := linked.trans settled
    rw [kept.pyEq_iff]
    exact ⟨⟨differ, Decidable.not_imp_comm.mp unchanged⟩, fun _ => ⟨.refl _, kept⟩⟩

theorem last_changed_iff (settled : middle.Same initial)
    (unchanged : ¬net → initial.pyEq final = true) :
    SameChange
        (Option.filter (fun change => !change.1.pyEq change.2) (some (later, final)))
        (if net then some (initial, final) else none) ↔
      middle.Same later ∧ (net → ¬initial.pyEq final) := by
  rw [sameChange_filter_iff]
  constructor
  · rintro ⟨agree, same⟩
    have kept : later.Same initial := by
      by_cases holds : net
      · exact (same holds).1
      · have equal := Decidable.not_not.mp (mt agree.mpr holds)
        exact Or.inr (Value.pyEq_trans equal (Value.pyEq_symm (unchanged holds)))
    refine ⟨settled.trans kept.symm, ?_⟩
    rw [Value.pyEq_comm, ← kept.pyEq_iff, Value.pyEq_comm]
    exact agree.mp
  · rintro ⟨linked, differ⟩
    have kept : later.Same initial := linked.symm.trans settled
    rw [Value.pyEq_comm, kept.pyEq_iff, Value.pyEq_comm]
    exact ⟨⟨differ, Decidable.not_imp_comm.mp unchanged⟩, fun _ => ⟨kept, .refl _⟩⟩

theorem none_changed_iff (first : middle.Same initial) (last : later.pyEq final = true)
    (unchanged : ¬net → initial.pyEq final = true) :
    SameChange none (if net then some (initial, final) else none) ↔
      middle.Same later ∧ (net → ¬initial.pyEq final) := by
  by_cases holds : net
  · simp only [holds, if_true]
    constructor
    · intro same
      cases same
    · rintro ⟨linked, differ⟩
      have kept : later.Same initial := linked.symm.trans first
      refine absurd ?_ (differ trivial)
      rwa [Value.pyEq_comm, ← kept.pyEq_iff, Value.pyEq_comm]
  · simp only [holds, if_false]
    constructor
    · intro _
      have joined : initial.Same final := Or.inr (unchanged holds)
      exact ⟨first.trans (joined.trans (Or.inr (Value.pyEq_symm last))), False.elim⟩
    · intro _
      exact Option.Rel.none

theorem merged_change_iff
    (unchangedFirst : ¬first → initial.pyEq middle = true)
    (unchangedLast : ¬last → later.pyEq final = true)
    (unchanged : ¬net → initial.pyEq final = true) :
    SameChange
        ((match if first then some (initial, middle) else none,
            if last then some (later, final) else none with
          | some first, some last => some (first.1, last.2)
          | some first, none => some first
          | none, last => last).filter fun change => !change.1.pyEq change.2)
        (if net then some (initial, final) else none) ↔
      (first ∧ last ∨ middle.Same later) ∧ (net → ¬initial.pyEq final) := by
  by_cases changedFirst : first
  · by_cases changedLast : last
    · simp only [changedFirst, changedLast, if_true, and_self, true_or, true_and]
      exact both_changed_iff unchanged
    · simp only [changedFirst, changedLast, if_true, if_false, and_false, false_or]
      exact first_changed_iff (Or.inr (unchangedLast changedLast)) unchanged
  · have settled : middle.Same initial := Or.inr (Value.pyEq_symm (unchangedFirst changedFirst))
    by_cases changedLast : last
    · simp only [changedFirst, changedLast, if_true, if_false, false_and, false_or]
      exact last_changed_iff settled unchanged
    · simp only [changedFirst, changedLast, if_false, Option.filter_none, and_self, false_or]
      exact none_changed_iff settled (unchangedLast changedLast) unchanged

end

theorem sameChange_mergeDiffs_iff (before middle later after : Option Doc) {field : String}
    (compared : isIgnored field = false) :
    SameChange
        (changeAt (mergeDiffs (computeDiff before middle) (computeDiff later after)) field)
        (changeAt (computeDiff before after) field) ↔
      Composes before middle later after field := by
  rw [changeAt_mergeDiffs (oncePerField_computeDiff _ _) (oncePerField_computeDiff _ _),
    changeAt_computeDiff, changeAt_computeDiff, changeAt_computeDiff]
  simp only [compared, true_and]
  exact merged_change_iff pyEq_of_not_changed pyEq_of_not_changed pyEq_of_not_changed

theorem mergeDiffs_net_iff (before middle later after : Option Doc) :
    SameEntries (mergeDiffs (computeDiff before middle) (computeDiff later after))
        (computeDiff before after) ↔
      ∀ field, isIgnored field = false → Composes before middle later after field := by
  rw [sameEntries_iff (oncePerField_mergeDiffs _ _) (oncePerField_computeDiff _ _)]
  constructor
  · intro same field compared
    exact (sameChange_mergeDiffs_iff before middle later after compared).mp (same field)
  · intro composes field
    by_cases compared : isIgnored field = false
    · exact (sameChange_mergeDiffs_iff before middle later after compared).mpr
        (composes field compared)
    · rw [changeAt_mergeDiffs (oncePerField_computeDiff _ _) (oncePerField_computeDiff _ _)]
      simp only [changeAt_computeDiff, compared]
      exact Option.Rel.none

end OrderStream

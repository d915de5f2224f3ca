import OrderStream.NetChange

/-! The diffs of a document's versions, one after another, merged into one. -/

namespace OrderStream

def consecutiveDiffs : List Doc → List (List DiffEntry)
  | before :: after :: rest =>
      computeDiff (some before) (some after) :: consecutiveDiffs (after :: rest)
  | _ => []

def foldDiffs : List (List DiffEntry) → List DiffEntry
  | [] => []
  | first :: rest => rest.foldl mergeDiffs first

/-- `==` on the values of these versions tells any two apart, and none from itself. -/
def LawfulEquality (versions : List Doc) : Prop :=
  ∀ one ∈ versions, ∀ other ∈ versions, ∀ field,
    (one.get field).pyEq (other.get field) = true ↔ one.get field = other.get field

theorem SameChange.trans {first second third : Option (Value × Value)}
    (left : SameChange first second) (right : SameChange second third) :
    SameChange first third := by
  cases left with
  | none => exact right
  | some leftSame =>
      cases right with
      | some rightSame =>
          exact .some ⟨leftSame.1.trans rightSame.1, leftSame.2.trans rightSame.2⟩

theorem SameEntries.trans {first second third : List DiffEntry}
    (firstOnce : OncePerField first) (secondOnce : OncePerField second)
    (thirdOnce : OncePerField third) (left : SameEntries first second)
    (right : SameEntries second third) : SameEntries first third := by
  rw [sameEntries_iff firstOnce thirdOnce]
  intro field
  exact ((sameEntries_iff firstOnce secondOnce).mp left field).trans
    ((sameEntries_iff secondOnce thirdOnce).mp right field)

theorem Value.Same.pyEq_eq {left right left' right' : Value} (first : left.Same left')
    (second : right.Same right') : left.pyEq right = left'.pyEq right' := by
  rw [Bool.eq_iff_iff, second.pyEq_iff, Value.pyEq_comm, first.pyEq_iff, Value.pyEq_comm]

theorem SameChange.filter {left right : Option (Value × Value)} (same : SameChange left right) :
    SameChange (left.filter fun change => !change.1.pyEq change.2)
      (right.filter fun change => !change.1.pyEq change.2) := by
  cases same with
  | none => exact .none
  | @some change other both =>
      have equal := both.1.pyEq_eq both.2
      by_cases dropped : other.1.pyEq other.2 = true
      · rw [Option.filter_some_neg (by simp [equal, dropped]),
          Option.filter_some_neg (by simp [dropped])]
        exact .none
      · rw [Option.filter_some_pos (by simp [equal, dropped]),
          Option.filter_some_pos (by simp [dropped])]
        exact .some both

theorem SameEntries.mergeDiffs {merged expected latest : List DiffEntry}
    (mergedOnce : OncePerField merged) (expectedOnce : OncePerField expected)
    (latestOnce : OncePerField latest) (same : SameEntries merged expected) :
    SameEntries (mergeDiffs merged latest) (mergeDiffs expected latest) := by
  rw [sameEntries_iff (oncePerField_mergeDiffs _ _) (oncePerField_mergeDiffs _ _)]
  intro field
  rw [changeAt_mergeDiffs mergedOnce latestOnce, changeAt_mergeDiffs expectedOnce latestOnce]
  apply SameChange.filter
  have agrees := (sameEntries_iff mergedOnce expectedOnce).mp same field
  generalize changeAt merged field = left at agrees ⊢
  generalize changeAt expected field = right at agrees ⊢
  cases agrees with
  | none =>
      cases changeAt latest field with
      | none => exact .none
      | some change => exact .some ⟨.refl _, .refl _⟩
  | some both =>
      cases changeAt latest field with
      | none => exact .some both
      | some change => exact .some ⟨both.1, .refl _⟩

theorem mergeDiffs_adjacent (before middle after : Doc) :
    SameEntries
      (mergeDiffs (computeDiff (some before) (some middle))
        (computeDiff (some middle) (some after)))
      (computeDiff (some before) (some after)) :=
  (mergeDiffs_net_iff _ _ _ _).mpr fun field _ =>
    composes_adjacent before middle after field

theorem oncePerField_foldl (diffs : List (List DiffEntry)) {merged : List DiffEntry}
    (once : OncePerField merged) : OncePerField (diffs.foldl mergeDiffs merged) := by
  induction diffs generalizing merged with
  | nil => exact once
  | cons diff rest ih => exact ih (oncePerField_mergeDiffs merged diff)

/-- What is merged so far stands for the change since the first version. -/
theorem sameEntries_foldl (first : Doc) {last : Doc} (rest : List Doc)
    {merged : List DiffEntry} (once : OncePerField merged)
    (same : SameEntries merged (computeDiff (some first) (some last))) :
    SameEntries ((consecutiveDiffs (last :: rest)).foldl mergeDiffs merged)
      (computeDiff (some first) (some ((last :: rest).getLast (List.cons_ne_nil _ _)))) := by
  induction rest generalizing last merged with
  | nil => exact same
  | cons next rest ih =>
      rw [consecutiveDiffs, List.foldl_cons, List.getLast_cons (List.cons_ne_nil _ _)]
      refine ih (oncePerField_mergeDiffs _ _) ?_
      exact (same.mergeDiffs once (oncePerField_computeDiff _ _)
        (oncePerField_computeDiff _ _)).trans (oncePerField_mergeDiffs _ _)
          (oncePerField_mergeDiffs _ _) (oncePerField_computeDiff _ _)
          (mergeDiffs_adjacent first last next)

theorem changeAt_docs (before after : Doc) (field : String) :
    changeAt (computeDiff (some before) (some after)) field =
      if isIgnored field = false ∧ ¬(before.get field).pyEq (after.get field) = true then
        some (before.get field, after.get field)
      else none :=
  changeAt_computeDiff (some before) (some after) field

theorem changeAt_adjacent {versions : List Doc} (lawful : LawfulEquality versions)
    {before middle after : Doc} (known : before ∈ versions) (between : middle ∈ versions)
    (known' : after ∈ versions) (field : String) :
    changeAt (mergeDiffs (computeDiff (some before) (some middle))
        (computeDiff (some middle) (some after))) field =
      changeAt (computeDiff (some before) (some after)) field := by
  rw [changeAt_mergeDiffs (oncePerField_computeDiff _ _) (oncePerField_computeDiff _ _),
    changeAt_docs, changeAt_docs, changeAt_docs]
  have told := lawful middle between middle between field
  by_cases compared : isIgnored field = false
  · by_cases stays : (before.get field).pyEq (middle.get field) = true
    · rw [(lawful before known middle between field).mp stays]
      by_cases kept : (middle.get field).pyEq (after.get field) = true
      · simp [told, kept]
      · simp [compared, told, kept, Option.filter]
    · by_cases kept : (middle.get field).pyEq (after.get field) = true
      · rw [← (lawful middle between after known' field).mp kept]
        simp [compared, stays, told, Option.filter]
      · -- the field may have returned to its first value
        by_cases returned : (before.get field).pyEq (after.get field) = true
        · simp [compared, stays, kept, returned, Option.filter]
        · simp [compared, stays, kept, returned, Option.filter]
  · simp [compared]

theorem changeAt_foldl {versions : List Doc} (lawful : LawfulEquality versions)
    {first last : Doc} (rest : List Doc) (known : first ∈ versions)
    (within : last :: rest ⊆ versions) {merged : List DiffEntry} (once : OncePerField merged)
    (same : ∀ field,
      changeAt merged field = changeAt (computeDiff (some first) (some last)) field)
    (field : String) :
    changeAt ((consecutiveDiffs (last :: rest)).foldl mergeDiffs merged) field =
      changeAt (computeDiff (some first)
        (some ((last :: rest).getLast (List.cons_ne_nil _ _)))) field := by
  induction rest generalizing last merged with
  | nil => exact same field
  | cons next rest ih =>
      obtain ⟨lastKnown, restKnown⟩ := List.cons_subset.mp within
      have nextKnown := restKnown List.mem_cons_self
      rw [consecutiveDiffs, List.foldl_cons, List.getLast_cons (List.cons_ne_nil _ _)]
      refine ih restKnown (oncePerField_mergeDiffs _ _) ?_
      intro field
      rw [changeAt_mergeDiffs once (oncePerField_computeDiff _ _), same,
        ← changeAt_mergeDiffs (oncePerField_computeDiff _ _) (oncePerField_computeDiff _ _),
        changeAt_adjacent lawful known lastKnown nextKnown]

theorem perm_of_changeAt {left right : List DiffEntry} (leftOnce : OncePerField left)
    (rightOnce : OncePerField right)
    (same : ∀ field, changeAt left field = changeAt right field) : left.Perm right := by
  refine (List.perm_ext_iff_of_nodup leftOnce.of_map rightOnce.of_map).mpr ?_
  intro entry
  rw [mem_iff_changeAt leftOnce, mem_iff_changeAt rightOnce, same]

/-- The diffs of any number of versions merge into the diff of the last against the first:
up to `==` of the values, and exactly where `==` tells them apart. -/
theorem consecutive_diffs_compose (first second : Doc) (rest : List Doc) :
    OncePerField (foldDiffs (consecutiveDiffs (first :: second :: rest))) ∧
    SameEntries (foldDiffs (consecutiveDiffs (first :: second :: rest)))
      (computeDiff (some first)
        (some ((second :: rest).getLast (List.cons_ne_nil _ _)))) ∧
    (LawfulEquality (first :: second :: rest) →
      (∀ entry, entry ∈ foldDiffs (consecutiveDiffs (first :: second :: rest)) ↔
        isIgnored entry.field = false ∧ entry.before ≠ entry.after ∧
          entry.before = first.get entry.field ∧
          entry.after =
            ((second :: rest).getLast (List.cons_ne_nil _ _)).get entry.field) ∧
      (foldDiffs (consecutiveDiffs (first :: second :: rest))).Perm
        (computeDiff (some first)
          (some ((second :: rest).getLast (List.cons_ne_nil _ _))))) := by
  have opened := oncePerField_computeDiff (some first) (some second)
  have once := oncePerField_foldl (consecutiveDiffs (second :: rest)) opened
  rw [consecutiveDiffs, foldDiffs]
  refine ⟨once, sameEntries_foldl first rest opened (.refl _), ?_⟩
  intro lawful
  have lastKnown : (second :: rest).getLast (List.cons_ne_nil _ _) ∈ first :: second :: rest :=
    List.mem_cons_of_mem _ (List.getLast_mem _)
  have same := changeAt_foldl lawful rest List.mem_cons_self (List.subset_cons_self _ _)
    opened (fun _ => rfl)
  refine ⟨?_, perm_of_changeAt once (oncePerField_computeDiff _ _) same⟩
  intro entry
  rw [mem_iff_changeAt once, same, changeAt_docs]
  have told := lawful first List.mem_cons_self _ lastKnown entry.field
  constructor
  · intro found
    split at found
    · rename_i changed
      obtain ⟨before, after⟩ := Prod.mk.inj (Option.some.inj found)
      rw [← before, ← after]
      exact ⟨changed.1, fun equal => changed.2 (told.mpr equal), rfl, rfl⟩
    · cases found
  · rintro ⟨compared, changed, before, after⟩
    rw [before, after] at changed ⊢
    rw [if_pos ⟨compared, fun equal => changed (told.mp equal)⟩]

def statusVersion (status : String) : Doc := ⟨[("status", .str status)], by simp⟩

theorem lawful_statusVersions (statuses : List String) :
    LawfulEquality (statuses.map statusVersion) := by
  intro one member other otherMember field
  obtain ⟨status, -, rfl⟩ := List.mem_map.mp member
  obtain ⟨otherStatus, -, rfl⟩ := List.mem_map.mp otherMember
  by_cases named : field = "status"
  · simp [statusVersion, Doc.get, PyDict.get?, named, Value.pyEq_str_iff]
  · simp [statusVersion, Doc.get, PyDict.get?, PyDict.lookup_cons_ite, named, Value.pyEq,
      Value.spelling]

theorem consecutive_diffs_compose_of_returned :
    (foldDiffs (consecutiveDiffs
        (["open", "amended", "open"].map statusVersion))).Perm [] := by
  obtain ⟨-, -, exactly⟩ := consecutive_diffs_compose (statusVersion "open")
    (statusVersion "amended") [statusVersion "open"]
  have net : computeDiff (some (statusVersion "open")) (some (statusVersion "open")) = [] := by
    decide
  have merged := (exactly (lawful_statusVersions ["open", "amended", "open"])).2
  rw [List.getLast_cons (List.cons_ne_nil _ _), List.getLast_singleton, net] at merged
  exact merged

end OrderStream

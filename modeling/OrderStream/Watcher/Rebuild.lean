import OrderStream.NetChange
import OrderStream.Spine.Storage
import OrderStream.Watcher.Continuity

/-! An order rebuilt from the diffs of its events. -/

namespace OrderStream

open Transition

def applyDiff (doc : Doc) (diff : List DiffEntry) : Doc :=
  doc.update (diff.map fun entry => (entry.field, entry.after))

theorem lookup_afters (diff : List DiffEntry) (field : String) :
    (diff.map fun entry => (entry.field, entry.after)).lookup field =
      (changeAt diff field).map Prod.snd := by
  induction diff with
  | nil => rfl
  | cons entry rest ih =>
      rw [List.map_cons, PyDict.lookup_cons_ite, changeAt_cons, ih]
      by_cases same : field = entry.field
      · rw [if_pos same, if_pos same.symm]
        rfl
      · rw [if_neg same, if_neg (Ne.symm same)]

theorem get_applyDiff (doc : Doc) {diff : List DiffEntry} (once : OncePerField diff)
    (field : String) :
    (applyDiff doc diff).get field =
      ((changeAt diff field).map Prod.snd).getD (doc.get field) := by
  have distinct : ((diff.map fun entry => (entry.field, entry.after)).map Prod.fst).Nodup := by
    rw [List.map_map]
    exact once
  rw [Doc.get, applyDiff, PyDict.get?_update doc distinct, lookup_afters]
  cases changeAt diff field with
  | none => rfl
  | some change => rfl

theorem changeAt_canonical (diff : List DiffEntry) (field : String) :
    changeAt (diff.map canonicalEntry) field =
      (changeAt diff field).map fun change => (canonical change.1, canonical change.2) := by
  induction diff with
  | nil => rfl
  | cons entry rest ih =>
      have kept : (canonicalEntry entry).field = entry.field := rfl
      rw [List.map_cons, changeAt_cons, changeAt_cons, ih, kept]
      by_cases same : entry.field = field
      · rw [if_pos same, if_pos same]
        rfl
      · rw [if_neg same, if_neg same]

theorem OncePerField.canonical {diff : List DiffEntry} (once : OncePerField diff) :
    OncePerField (diff.map canonicalEntry) := by
  rw [OncePerField, List.map_map]
  exact once

theorem get_canonicalDoc (doc : Doc) (field : String) :
    (canonicalDoc doc).get field = canonical (doc.get field) := by
  rw [Doc.get, Doc.get, canonicalDoc, PyDict.get?_mapValues]
  cases doc.get? field with
  | none => rfl
  | some value => rfl

namespace AuditTrail

/-- One event replayed; an insert starts anew. -/
def replay (doc : Doc) (draft : Draft) : Doc :=
  applyDiff (if draft.args.op = .insert then ∅ else doc) draft.canonDiff

def rebuilt (events : List Draft) : Doc :=
  events.foldl replay ((events.head?.bind Draft.canonBefore).getD ∅)

/-- In every field that a diff lists, the document has the recorded form of what was found
there, or of a value equal to that. -/
def Rebuilds (doc : Doc) (found : Option Doc) : Prop :=
  ∀ field, isIgnored field = false →
    ∃ value, value.Same (Doc.getOr found field) ∧ doc.get field = canonical value

structure Diffed (args : AppendArgs) : Prop where
  diff : args.diff = computeDiff args.before args.after
  anew : args.op = .insert → args.before = none

theorem diffed_of_prepare {cache : Orders} {change : Change} {correlationId : String}
    {args : AppendArgs}
    (prepared : Watcher.prepare cache change correlationId = .ok (some args)) :
    Diffed args := by
  obtain ⟨op, appends⟩ := Watcher.prepare_eq_some prepared
  obtain ⟨found, -, rfl⟩ := Watcher.appendArgs_eq_some appends
  refine ⟨rfl, ?_⟩
  rintro rfl
  rfl

theorem rebuilds_canonical (found : Option Doc) :
    Rebuilds ((found.map canonicalDoc).getD ∅) found := by
  intro field _
  refine ⟨Doc.getOr found field, .refl _, ?_⟩
  cases found with
  | none => rfl
  | some doc => exact get_canonicalDoc doc field

theorem Rebuilds.replay {doc : Doc} {draft : Draft} (diffed : Diffed draft.args)
    (rebuilds : draft.args.op ≠ .insert → Rebuilds doc draft.args.before) :
    Rebuilds (replay doc draft) draft.args.after := by
  intro field compared
  have base : Rebuilds (if draft.args.op = .insert then ∅ else doc) draft.args.before := by
    split
    · rename_i insert
      rw [diffed.anew insert]
      exact rebuilds_canonical none
    · exact rebuilds ‹_›
  have once : OncePerField draft.canonDiff := by
    rw [Draft.canonDiff, diffed.diff]
    exact (oncePerField_computeDiff _ _).canonical
  rw [AuditTrail.replay, get_applyDiff _ once, Draft.canonDiff, changeAt_canonical, diffed.diff,
    changeAt_computeDiff]
  by_cases changed : Changed draft.args.before draft.args.after field
  · rw [if_pos ⟨compared, changed⟩]
    exact ⟨_, .refl _, rfl⟩
  · rw [if_neg (fun both => changed both.2)]
    obtain ⟨value, same, shown⟩ := base field compared
    exact ⟨value, same.trans (Or.inr (pyEq_of_not_changed changed)), shown⟩

theorem rebuilt_snoc {events : List Draft} (draft : Draft) (some : events ≠ []) :
    rebuilt (events ++ [draft]) = replay (rebuilt events) draft := by
  cases events with
  | nil => exact absurd rfl some
  | cons first rest =>
      rw [rebuilt, rebuilt, List.foldl_append]
      rfl

def RebuiltBy (cache : Orders) (written : List Draft) : Prop :=
  ∀ orderId newest, (eventsOf orderId written).getLast? = some newest →
    cache.get? orderId = newest.args.after ∧
      Rebuilds (rebuilt (eventsOf orderId written)) newest.args.after

structure Found (cache : Orders) (args : AppendArgs) : Prop where
  diffed : Diffed args
  before : args.op ≠ .insert → args.before = cache.get? args.orderId

def PhaseKeeps (holds : Orders → List Draft → Prop) (cache : Orders) (written : List Draft) :
    AppendPhase → Prop
  | .idle => holds cache written
  | .ready args _ | .conflict args _ | .refreshing args _ _ =>
      holds cache written ∧ Found cache args
  | .inserting draft _ => holds cache written ∧ Found cache draft.args
  | .stored draft => holds (Watcher.remember cache draft.args) written

def Keeps (holds : Orders → List Draft → Prop) : Prop :=
  ∀ cache written draft, holds cache written → Found cache draft.args →
    holds (Watcher.remember cache draft.args) (written ++ [draft])

theorem keeps_rebuiltBy : Keeps RebuiltBy := by
  intro cache written draft rebuiltBy found orderId newest last
  by_cases own : orderId = draft.args.orderId
  · subst own
    rw [eventsOf_snoc_self] at last ⊢
    rw [List.getLast?_concat, Option.some.injEq] at last
    subst last
    refine ⟨Watcher.get?_remember_self _ _, ?_⟩
    cases earlier : (eventsOf draft.args.orderId written).getLast? with
    | none =>
        rw [List.getLast?_eq_none_iff.mp earlier]
        apply Rebuilds.replay found.diffed
        intro _
        exact rebuilds_canonical draft.args.before
    | some previous =>
        obtain ⟨cached, rebuilds⟩ := rebuiltBy _ previous earlier
        have some : eventsOf draft.args.orderId written ≠ [] := by
          intro empty
          rw [empty] at earlier
          cases earlier
        rw [rebuilt_snoc draft some]
        apply Rebuilds.replay found.diffed
        intro notInsert
        rw [found.before notInsert, cached]
        exact rebuilds
  · rw [eventsOf_snoc_of_ne written own] at last ⊢
    rw [Watcher.get?_remember_of_ne cache draft.args own]
    exact rebuiltBy orderId newest last

theorem found_of_prepare {cache : Orders} {change : Change} {correlationId : String}
    {args : AppendArgs}
    (prepared : Watcher.prepare cache change correlationId = .ok (some args)) :
    Found cache args :=
  ⟨diffed_of_prepare prepared, prepared_of_prepare prepared⟩

variable {genesis : String} {trail next : AuditTrail} {holds : Orders → List Draft → Prop}

theorem Keeps.append (keeps : Keeps holds) {action : SpineAction} {log : EventLog}
    {spine : EventSpine} (kept : PhaseKeeps holds trail.cache trail.written trail.spine.append)
    (appends : appends action = true)
    (stepped : EventSpine.Step genesis trail.log trail.spine action log spine) :
    PhaseKeeps holds (trail.cacheAfter action) (trail.writtenAfter action spine.append)
      spine.append := by
  cases stepped with
  | call _ | lost _ | unconfirmed _ _ => cases appends
  | take ready _ =>
      rw [ready] at kept
      exact kept
  | giveUp ready _ =>
      rw [ready] at kept
      exact kept.1
  | inserted inserting _ =>
      rw [inserting] at kept
      exact keeps _ _ _ kept.1 kept.2
  | duplicate inserting _ =>
      rw [inserting] at kept
      exact kept
  | finish stored =>
      rw [stored] at kept
      simp only [cacheAfter, stored]
      exact kept
  | found conflict _ =>
      rw [conflict] at kept
      exact kept
  | unreadable conflict _ =>
      rw [conflict] at kept
      exact kept.1
  | assign refreshing =>
      rw [refreshing] at kept
      exact kept
  | refreshCall _ | refreshFound _ _ | refreshUnreadable _ _ | refreshAssign _ => exact kept

theorem Keeps.step (keeps : Keeps holds) {action : AuditAction}
    (kept : PhaseKeeps holds trail.cache trail.written trail.spine.append)
    (stepped : step genesis trail action = some next) :
    PhaseKeeps holds next.cache next.written next.spine.append := by
  cases step_cases stepped with
  | ignored _ => exact kept
  | called idle prepared =>
      rw [idle] at kept
      exact ⟨kept, found_of_prepare prepared⟩
  | appended allowed taken => exact keeps.append kept allowed taken
  | outside => exact kept

theorem PhaseKeeps.somewhere {cache : Orders} {written : List Draft} {phase : AppendPhase}
    (kept : PhaseKeeps holds cache written phase) : ∃ cache, holds cache written := by
  cases phase with
  | idle => exact ⟨_, kept⟩
  | ready _ _ | conflict _ _ | refreshing _ _ _ | inserting _ _ => exact ⟨_, kept.1⟩
  | stored _ => exact ⟨_, kept⟩

/-- Whatever changes are processed and however the appends go, replaying the diffs of an
order's events, an insert starting anew, gives in each field that diffs list what its newest
event left there, up to `==`. -/
theorem audit_trail_rebuilds (cache : Orders) (log : EventLog) (tail : Tail)
    {actions : List AuditAction}
    (reached : exec (step genesis) { cache, log, spine := { tail } } actions = some trail)
    {orderId : String} {newest : Draft}
    (last : (eventsOf orderId trail.written).getLast? = some newest) {field : String}
    (compared : isIgnored field = false) :
    ∃ value, value.Same (Doc.getOr newest.args.after field) ∧
      (rebuilt (eventsOf orderId trail.written)).get field = canonical value := by
  have kept : PhaseKeeps RebuiltBy trail.cache trail.written trail.spine.append := by
    refine exec_invariant
      (motive := fun trail => PhaseKeeps RebuiltBy trail.cache trail.written trail.spine.append)
      ?_ (fun _ _ _ kept stepped => keeps_rebuiltBy.step kept stepped) reached
    intro orderId newest last
    cases last
  obtain ⟨_, rebuiltBy⟩ := kept.somewhere
  exact (rebuiltBy orderId newest last).2 field compared

def repricedAndReinserted : List AuditAction :=
  insertedAndRepriced ++
    [.process ⟨.delete, "1", none, none, none⟩ "fourth",
      .append (.take "c" sampleTime), .append .insert, .append .finish,
      .process ⟨.insert, "1", some (.ofList [("status", .str "pending")]), none, none⟩ "fifth",
      .append (.take "d" sampleTime), .append .insert, .append .finish]

theorem audit_trail_rebuilds_of_reinserted :
    ∃ trail newest,
      exec (step auditGenesisHash)
          { cache := ∅, log := [], spine := { tail := ⟨0, auditGenesisHash⟩ } }
          repricedAndReinserted = some trail ∧
        (eventsOf "1" trail.written).length = 4 ∧
        (eventsOf "1" trail.written).getLast? = some newest ∧
        ∃ value, value.Same (Doc.getOr newest.args.after "price") ∧
          (rebuilt (eventsOf "1" trail.written)).get "price" = canonical value := by
  have facts : (exec (step auditGenesisHash)
      { cache := ∅, log := [], spine := { tail := ⟨0, auditGenesisHash⟩ } }
      repricedAndReinserted).map (fun trail => ((eventsOf "1" trail.written).length,
        (eventsOf "1" trail.written).getLast?.isSome)) = some (4, true) := by
    decide +kernel
  obtain ⟨trail, reached, shape⟩ := Option.map_eq_some_iff.mp facts
  obtain ⟨count, some⟩ := Prod.mk.inj shape
  obtain ⟨newest, last⟩ := Option.isSome_iff_exists.mp some
  exact ⟨trail, newest, reached, count, last,
    audit_trail_rebuilds ∅ [] ⟨0, auditGenesisHash⟩ reached last (by decide)⟩

end AuditTrail

end OrderStream

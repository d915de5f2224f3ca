import Mathlib.Data.List.Chain
import OrderStream.Spine.Writers
import OrderStream.Theory.LastWrite
import OrderStream.Watcher.Process

/-! The events of one order follow one another: each starts where the one before it
ended. -/

namespace OrderStream

open Transition

/-- The watcher's cache beside the spine that it appends to.  `written` are the events
that its own appends stored. -/
structure AuditTrail where
  cache : Orders
  log : EventLog
  spine : EventSpine
  written : List Draft := []

/-- `outside` is whatever else writes to the log. -/
inductive AuditAction where
  | process (change : Change) (correlationId : String)
  | append (action : SpineAction)
  | outside (log : EventLog)

namespace AuditTrail

def appends : SpineAction → Bool
  | .call _ | .fail _ => false
  | _ => true

def cacheAfter (trail : AuditTrail) (action : SpineAction) : Orders :=
  match action, trail.spine.append with
  | .finish, .stored draft => Watcher.remember trail.cache draft.args
  | _, _ => trail.cache

def writtenAfter (trail : AuditTrail) (action : SpineAction) (phase : AppendPhase) :
    List Draft :=
  match action, phase with
  | .insert, .stored draft => trail.written ++ [draft]
  | _, _ => trail.written

def step (genesis : String) (trail : AuditTrail) : AuditAction → Option AuditTrail
  | .process change correlationId =>
      match trail.spine.append, Watcher.prepare trail.cache change correlationId with
      | .idle, .ok (some args) =>
          some { trail with spine := { trail.spine with append := .ready args 0 } }
      -- it raises, or returns without an event
      | .idle, _ => some trail
      | _, _ => none
  | .append action =>
      if appends action then
        (EventSpine.step genesis (trail.log, trail.spine) action).map fun (log, spine) =>
          { cache := trail.cacheAfter action
            log
            spine
            written := trail.writtenAfter action spine.append }
      else none
  | .outside log => some { trail with log }

inductive Step (genesis : String) (trail : AuditTrail) :
    AuditAction → AuditTrail → Prop where
  | ignored {change : Change} {correlationId : String} : trail.spine.append = .idle →
      Step genesis trail (.process change correlationId) trail
  | called {change : Change} {correlationId : String} {args : AppendArgs} :
      trail.spine.append = .idle →
        Watcher.prepare trail.cache change correlationId = .ok (some args) →
          Step genesis trail (.process change correlationId)
            { trail with spine := { trail.spine with append := .ready args 0 } }
  | appended {action : SpineAction} {log : EventLog} {spine : EventSpine} :
      appends action = true →
        EventSpine.Step genesis trail.log trail.spine action log spine →
          Step genesis trail (.append action)
            { cache := trail.cacheAfter action
              log
              spine
              written := trail.writtenAfter action spine.append }
  | outside {log : EventLog} : Step genesis trail (.outside log) { trail with log }

theorem step_cases {genesis : String} {trail next : AuditTrail} {action : AuditAction}
    (stepped : step genesis trail action = some next) : Step genesis trail action next := by
  cases action with
  | process change correlationId =>
      simp only [step] at stepped
      split at stepped
      · rename_i idle prepared
        cases stepped
        exact .called idle prepared
      · rename_i idle _
        cases stepped
        exact .ignored idle
      · cases stepped
  | append action =>
      simp only [step] at stepped
      split at stepped
      · rename_i allowed
        obtain ⟨⟨log, spine⟩, taken, rfl⟩ := Option.map_eq_some_iff.mp stepped
        exact .appended allowed (EventSpine.step_cases taken)
      · cases stepped
  | outside log =>
      cases stepped
      exact .outside

def eventsOf (orderId : String) (written : List Draft) : List Draft :=
  written.filter fun draft => decide (draft.args.orderId = orderId)

def Follows (earlier later : Draft) : Prop :=
  later.args.op ≠ .insert →
    later.storageDoc.get "before" = earlier.storageDoc.get "after"

/-- The cache has of each order what its last event left. -/
def Remembers (cache : Orders) (written : List Draft) : Prop :=
  ∀ orderId draft, (eventsOf orderId written).getLast? = some draft →
    optionalDoc ((cache.get? orderId).map canonicalDoc) = draft.storageDoc.get "after"

def Prepared (cache : Orders) (args : AppendArgs) : Prop :=
  args.op ≠ .insert → args.before = cache.get? args.orderId

def PhaseSound (cache : Orders) (written : List Draft) : AppendPhase → Prop
  | .idle => Remembers cache written
  | .ready args _ | .conflict args _ | .refreshing args _ _ =>
      Remembers cache written ∧ Prepared cache args
  | .inserting draft _ => Remembers cache written ∧ Prepared cache draft.args
  | .stored draft => Remembers (Watcher.remember cache draft.args) written

structure Continuous (trail : AuditTrail) : Prop where
  chained : ∀ orderId, (eventsOf orderId trail.written).IsChain Follows
  sound : PhaseSound trail.cache trail.written trail.spine.append

theorem eventsOf_snoc_self (written : List Draft) (draft : Draft) :
    eventsOf draft.args.orderId (written ++ [draft]) =
      eventsOf draft.args.orderId written ++ [draft] :=
  LastWrite.updatesOf_snoc_self written draft

theorem eventsOf_snoc_of_ne (written : List Draft) {draft : Draft} {orderId : String}
    (ne : orderId ≠ draft.args.orderId) :
    eventsOf orderId (written ++ [draft]) = eventsOf orderId written :=
  LastWrite.updatesOf_snoc_of_ne written ne

theorem prepared_of_prepare {cache : Orders} {change : Change} {correlationId : String}
    {args : AppendArgs}
    (prepared : Watcher.prepare cache change correlationId = .ok (some args)) :
    Prepared cache args := by
  obtain ⟨op, appends⟩ := Watcher.prepare_eq_some prepared
  obtain ⟨found, -, rfl⟩ := Watcher.appendArgs_eq_some appends
  intro later
  cases op with
  | insert => exact absurd rfl later
  | update | replace | delete => rfl

theorem chained_snoc {cache : Orders} {written : List Draft} {draft : Draft}
    (chained : ∀ orderId, (eventsOf orderId written).IsChain Follows)
    (remembers : Remembers cache written) (prepared : Prepared cache draft.args) :
    ∀ orderId, (eventsOf orderId (written ++ [draft])).IsChain Follows := by
  intro orderId
  by_cases own : orderId = draft.args.orderId
  · subst own
    rw [eventsOf_snoc_self]
    refine List.isChain_append.mpr ⟨chained _, .singleton _, ?_⟩
    intro earlier last later same
    cases same
    intro notInsert
    have known := remembers _ earlier last
    rw [← prepared notInsert] at known
    exact known
  · rw [eventsOf_snoc_of_ne written own]
    exact chained orderId

theorem remembers_snoc {cache : Orders} {written : List Draft} (draft : Draft)
    (remembers : Remembers cache written) :
    Remembers (Watcher.remember cache draft.args) (written ++ [draft]) := by
  intro orderId last found
  by_cases own : orderId = draft.args.orderId
  · subst own
    rw [eventsOf_snoc_self, List.getLast?_concat] at found
    cases found
    rw [Watcher.get?_remember_self]
    rfl
  · rw [eventsOf_snoc_of_ne written own] at found
    rw [Watcher.get?_remember_of_ne cache draft.args own]
    exact remembers orderId last found

theorem continuous_append {genesis : String} {trail : AuditTrail} {action : SpineAction}
    {log : EventLog} {spine : EventSpine} (continuous : trail.Continuous)
    (appends : appends action = true)
    (stepped : EventSpine.Step genesis trail.log trail.spine action log spine) :
    Continuous
      { cache := trail.cacheAfter action
        log
        spine
        written := trail.writtenAfter action spine.append } := by
  obtain ⟨chained, sound⟩ := continuous
  cases stepped with
  | call _ | lost _ | unconfirmed _ _ => cases appends
  | take ready _ =>
      rw [ready] at sound
      exact ⟨chained, sound⟩
  | giveUp ready _ =>
      rw [ready] at sound
      exact ⟨chained, sound.1⟩
  | inserted inserting _ =>
      rw [inserting] at sound
      obtain ⟨remembers, prepared⟩ := sound
      exact ⟨chained_snoc chained remembers prepared, remembers_snoc _ remembers⟩
  | duplicate inserting _ =>
      rw [inserting] at sound
      exact ⟨chained, sound⟩
  | finish stored =>
      rw [stored] at sound
      simp only [cacheAfter, stored]
      exact ⟨chained, sound⟩
  | found conflict _ =>
      rw [conflict] at sound
      exact ⟨chained, sound⟩
  | unreadable conflict _ =>
      rw [conflict] at sound
      exact ⟨chained, sound.1⟩
  | assign refreshing =>
      rw [refreshing] at sound
      exact ⟨chained, sound⟩
  | refreshCall _ | refreshFound _ _ | refreshUnreadable _ _ | refreshAssign _ =>
      exact ⟨chained, sound⟩

theorem continuous_step {genesis : String} {trail next : AuditTrail} {action : AuditAction}
    (continuous : trail.Continuous) (stepped : step genesis trail action = some next) :
    next.Continuous := by
  cases step_cases stepped with
  | ignored _ => exact continuous
  | called idle prepared =>
      obtain ⟨chained, sound⟩ := continuous
      rw [idle] at sound
      exact ⟨chained, sound, prepared_of_prepare prepared⟩
  | appended allowed taken => exact continuous_append continuous allowed taken
  | outside => exact ⟨continuous.chained, continuous.sound⟩

/-- Whatever changes are processed and however the appends go, the events written of one
order follow one another, and between two calls the cache has what the last one left. -/
theorem audit_trail_continuous (genesis : String) (cache : Orders) (log : EventLog)
    (tail : Tail) {actions : List AuditAction} {trail : AuditTrail}
    (reached : exec (step genesis) { cache, log, spine := { tail } } actions = some trail) :
    (∀ orderId, (eventsOf orderId trail.written).IsChain Follows) ∧
      (trail.spine.append = .idle → Remembers trail.cache trail.written) := by
  have continuous : trail.Continuous := by
    refine exec_invariant (motive := Continuous) ⟨?_, ?_⟩ ?_ reached
    · intro orderId
      exact .nil
    · intro orderId draft found
      cases found
    · intro state action finish continuous stepped
      exact continuous_step continuous stepped
  refine ⟨continuous.chained, ?_⟩
  intro idle
  have sound := continuous.sound
  rw [idle] at sound
  exact sound

def insertedAndRepriced : List AuditAction :=
  [.process ⟨.insert, "1", some (.ofList [("price", .int 10)]), none, none⟩ "first",
    .append (.take "a" sampleTime), .append .insert, .append .finish,
    .process ⟨.other "drop", "1", none, none, none⟩ "second",
    .process ⟨.update, "1", some (.ofList [("price", .int 20)]), none, none⟩ "third",
    .append (.take "b" sampleTime), .append .insert, .append .finish]

theorem audit_trail_continuous_of_two :
    ∃ trail,
      exec (step auditGenesisHash)
          { cache := ∅, log := [], spine := { tail := ⟨0, auditGenesisHash⟩ } }
          insertedAndRepriced = some trail ∧
        trail.written.length = 2 ∧
        (∀ orderId, (eventsOf orderId trail.written).IsChain Follows) ∧
          Remembers trail.cache trail.written := by
  have facts : (exec (step auditGenesisHash)
      { cache := ∅, log := [], spine := { tail := ⟨0, auditGenesisHash⟩ } }
      insertedAndRepriced).map (fun trail =>
        (trail.written.length, decide (trail.spine.append = .idle))) = some (2, true) := by
    decide +kernel
  obtain ⟨trail, reached, found⟩ := Option.map_eq_some_iff.mp facts
  obtain ⟨count, idle⟩ := Prod.mk.inj found
  obtain ⟨chained, remembers⟩ :=
    audit_trail_continuous auditGenesisHash ∅ [] ⟨0, auditGenesisHash⟩ reached
  exact ⟨trail, reached, count, chained, remembers (of_decide_eq_true idle)⟩

end AuditTrail

end OrderStream

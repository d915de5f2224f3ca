import OrderStream.Delivery.Privacy

/-! Cancellations are sent at once, and never held in the buffer. -/

namespace OrderStream

open Transition

def DiffEntry.Cancels (entry : DiffEntry) : Prop :=
  entry.field = "status" ∧ entry.after = .str "cancelled"

instance (entry : DiffEntry) : Decidable entry.Cancels :=
  decidable_of_iff
    (entry.field = "status" ∧ entry.after.pyEq (.str "cancelled") = true)
    (and_congr_right fun _ => Value.pyEq_str_iff)

def Event.Cancels (event : Event) : Prop := ∃ entry ∈ event.diff, entry.Cancels

instance (event : Event) : Decidable event.Cancels :=
  inferInstanceAs (Decidable (∃ entry ∈ event.diff, entry.Cancels))

theorem not_cancels_mergeDiffs {initial latest : List DiffEntry}
    (initially : ∀ entry ∈ initial, ¬entry.Cancels)
    (lately : ∀ entry ∈ latest, ¬entry.Cancels) :
    ∀ entry ∈ mergeDiffs initial latest, ¬entry.Cancels := by
  refine forall_mem_mergeDiffs ?_ initially lately
  intro first last keeps cancels
  exact keeps cancels

theorem mem_isoformat (value : Temporal) :
    '-' ∈ value.isoformat.toList ∨ ':' ∈ value.isoformat.toList := by
  cases value with
  | datetime day clock =>
      left
      simp [Temporal.isoformat, CivilDate.isoformat]
  | date day =>
      left
      simp [Temporal.isoformat, CivilDate.isoformat]
  | time clock =>
      right
      simp [Temporal.isoformat, ClockTime.isoformat]

theorem mem_uuidText (value : BitVec 128) : '-' ∈ (uuidText value).toList := by
  simp [uuidText]

theorem length_bytesHex (value : List UInt8) :
    (bytesHex value).toList.length = 2 * value.length := by
  unfold bytesHex
  rw [String.toList_ofList]
  induction value with
  | nil => rfl
  | cons byte rest ih =>
      rw [List.flatMap_cons, List.length_append, ih, List.length_cons]
      simp only [hexDigits, List.length_map, List.length_range]
      omega

/-- Only a text, or a value of another BSON type that reads the same, is stored as
`"cancelled"`. -/
theorem canonical_eq_cancelled {value : Value}
    (written : canonical value = .str "cancelled") :
    value = .str "cancelled" ∨ ∃ typeName, value = .other typeName "cancelled" := by
  cases value with
  | str text =>
      cases written
      exact Or.inl rfl
  | other typeName text =>
      cases written
      exact Or.inr ⟨typeName, rfl⟩
  | temporal value =>
      have equal : value.isoformat = "cancelled" := by
        simpa [canonical, toCanonical, ofJson] using written
      have marked := mem_isoformat value
      rw [equal] at marked
      exact absurd marked (by decide)
  | uuid value =>
      have equal : uuidText value = "cancelled" := by
        simpa [canonical, toCanonical, ofJson] using written
      have marked := mem_uuidText value
      rw [equal] at marked
      exact absurd marked (by decide)
  | bytes value =>
      have equal : bytesHex value = "cancelled" := by
        simpa [canonical, toCanonical, ofJson] using written
      have even := length_bytesHex value
      rw [equal] at even
      have nine : "cancelled".toList.length = 9 := by decide
      omega
  | null | bool _ | int _ | float _ | list _ | tuple _ | dict _ => cases written

theorem of_mem_computeDiff {before after : Option Doc} {entry : DiffEntry}
    (member : entry ∈ computeDiff before after) :
    Changed before after entry.field ∧ entry.after = Doc.getOr after entry.field := by
  rw [mem_iff_changeAt (oncePerField_computeDiff before after), changeAt_computeDiff] at member
  split at member
  · rename_i compared
    have values := Prod.mk.inj (Option.some.inj member)
    exact ⟨compared.2, values.2.symm⟩
  · cases member

theorem before_of_cancelled {before after : Option Doc}
    (changed : Changed before after "status")
    (cancelled : Doc.getOr after "status" = .str "cancelled") :
    (Doc.getOr before "status").pyEq (.str "cancelled") = false := by
  cases before with
  | none => rfl
  | some before =>
      cases after with
      | none => cases cancelled
      | some after =>
          rw [Bool.eq_false_iff, ← cancelled]
          exact changed

theorem intentOf_of_cancels {op : Op} (changes : op = .update ∨ op = .replace)
    {before after : Option Doc} {entry : DiffEntry}
    (member : entry ∈ computeDiff before after) (cancels : entry.Cancels) :
    intentOf op before after (computeDiff before after) = .cancellation := by
  obtain ⟨changed, value⟩ := of_mem_computeDiff member
  obtain ⟨named, cancelled⟩ := cancels
  rw [named] at changed value
  rw [cancelled] at value
  have moved : ((computeDiff before after).map DiffEntry.field).contains "status" = true := by
    rw [List.contains_iff_mem]
    exact List.mem_map.mpr ⟨entry, member, named⟩
  have reaches : (Doc.getOr after "status").pyEq (.str "cancelled") = true :=
    Value.pyEq_str_iff.mpr value.symm
  have left := before_of_cancelled changed value.symm
  rcases changes with rfl | rfl
  · simp only [intentOf, moved, reaches, left, Bool.not_false, Bool.and_self, if_true]
  · simp only [intentOf, moved, reaches, left, Bool.not_false, Bool.and_self, if_true]

/-- The `str()` of no other BSON type is the word itself. -/
def Change.Plain (change : Change) : Prop :=
  ∀ doc typeName, change.fullDocument = some doc →
    doc.get "status" ≠ .other typeName "cancelled"

namespace Watcher

theorem get_strip_status (doc : Doc) : (strip doc).get "status" = doc.get "status" := by
  rw [Doc.get, strip, PyDict.get?_filterKeys, if_pos (by decide), Doc.get]

theorem bypasses_of_cancels {cache : Orders} {change : Change} {op : Op}
    {correlationId : String} {args : AppendArgs} (plain : change.Plain)
    (prepared : appendArgs cache change op correlationId = some args) (windows : Windows)
    {stamp : Stamp} (cancels : (stamp.draft args).event.Cancels) :
    CohesionBuffer.Bypasses windows (stamp.draft args).event := by
  obtain ⟨found, sees, rfl⟩ := appendArgs_eq_some prepared
  obtain ⟨stored, member, named, cancelled⟩ := cancels
  obtain ⟨entry, listed, rfl⟩ := List.mem_map.mp member
  have value := (of_mem_computeDiff listed).2
  have patient (changes : op = .update ∨ op = .replace) :
      intentOf op (before cache op change.orderId) found
          (computeDiff (before cache op change.orderId) found) = .cancellation := by
    refine intentOf_of_cancels changes listed ⟨named, ?_⟩
    rcases canonical_eq_cancelled cancelled with word | ⟨typeName, foreign⟩
    · exact word
    · obtain ⟨doc, held, rfl⟩ : ∃ doc, change.fullDocument = some doc ∧
          found = some (strip doc) := by
        rcases changes with rfl | rfl
        · obtain ⟨doc, held, equal⟩ := Option.map_eq_some_iff.mp sees
          exact ⟨doc, held, equal.symm⟩
        · obtain ⟨doc, held, equal⟩ := Option.map_eq_some_iff.mp sees
          exact ⟨doc, held, equal.symm⟩
      have status : entry.field = "status" := named
      rw [foreign, status, Doc.getOr, get_strip_status] at value
      exact absurd value.symm (plain doc typeName held)
  cases op with
  | insert | delete => exact Or.inl (le_refl _)
  | update =>
      refine Or.inr ?_
      show intentPriority (intentOf _ _ _ _) = _
      rw [patient (Or.inl rfl)]
      rfl
  | replace =>
      refine Or.inr ?_
      show intentPriority (intentOf _ _ _ _) = _
      rw [patient (Or.inr rfl)]
      rfl

theorem bypasses_of_reconciliation {cache : Orders} {orderId : String} {args : AppendArgs}
    (found : reconciliationArgs cache orderId = some args) (windows : Windows)
    (stamp : Stamp) : CohesionBuffer.Bypasses windows (stamp.draft args).event := by
  obtain ⟨doc, -, rfl⟩ := Option.map_eq_some_iff.mp found
  exact Or.inr rfl

end Watcher

structure Pending.Uncancelled (entry : Pending) : Prop where
  initial : ¬entry.initial.Cancels
  latest : ¬entry.latest.Cancels

theorem Pending.Uncancelled.merge {existing : Pending} {event : Event}
    (uncancelled : existing.Uncancelled) (added : ¬event.Cancels) (seen : Nat) :
    (existing.merge event seen).Uncancelled := by
  refine ⟨uncancelled.initial, ?_⟩
  rintro ⟨entry, member, cancels⟩
  refine not_cancels_mergeDiffs ?_ ?_ entry member cancels
  · intro entry member cancels
    exact uncancelled.initial ⟨entry, member, cancels⟩
  · intro entry member cancels
    exact added ⟨entry, member, cancels⟩

namespace CohesionBuffer

variable {windows : Windows} {buffer next : CohesionBuffer}

/-- No entry that is held carries a cancellation, and no event that a flush emitted did. -/
structure Prompt (buffer : CohesionBuffer) : Prop where
  held : ∀ entry ∈ buffer.held, entry.Uncancelled
  emitted : ∀ emission ∈ buffer.emitted, emission.entry.isSome = true →
    ¬emission.event.Cancels

theorem Prompt.step {action : BufferAction} (prompt : buffer.Prompt)
    (urgent : ∀ event, action = .add event → event.Cancels → Bypasses windows event)
    (stepped : step windows buffer action = some next) : next.Prompt := by
  have opens (event : Event) (adds : action = .add event)
      (patient : ¬Bypasses windows event) (timer seen : Nat) :
      (Pending.opened event timer seen).Uncancelled := by
    have clean := mt (urgent event adds) patient
    exact ⟨clean, clean⟩
  have merges (event : Event) (existing : Pending) (adds : action = .add event)
      (patient : ¬Bypasses windows event)
      (_ : buffer.pending.get? event.orderId = some existing)
      (uncancelled : existing.Uncancelled) (seen : Nat) :
      (existing.merge event seen).Uncancelled :=
    uncancelled.merge (mt (urgent event adds) patient) seen
  obtain ⟨held, emitted⟩ := entries_kept Pending.Uncancelled
    (fun emission => emission.entry.isSome = true → ¬emission.event.Cancels) stepped
    (fun _ _ flushed => by cases flushed) opens merges
    (fun _ uncancelled _ => uncancelled.latest) prompt.held prompt.emitted
  exact ⟨held, emitted⟩

end CohesionBuffer

def FanoutAction.Plain : FanoutAction → Prop
  | .process change _ => change.Plain
  | _ => True

namespace Fanout

variable {windows : Windows} {fanout next : Fanout}

/-- Every cancellation whose `append` is awaited bypasses the buffer. -/
structure Prompt (windows : Windows) (fanout : Fanout) : Prop where
  awaited : ∀ args (stamp : Stamp), fanout.appending = some args →
    (stamp.draft args).event.Cancels →
      CohesionBuffer.Bypasses windows (stamp.draft args).event
  buffer : fanout.buffer.Prompt

theorem appending_advance {middle : Fanout} {action : BufferAction}
    (advanced : middle.advance windows action = some next) :
    next.appending = middle.appending := by
  obtain ⟨buffer, -, rfl⟩ := Option.map_eq_some_iff.mp advanced
  rfl

theorem appending_step {action : FanoutAction} {args : AppendArgs}
    (stepped : step windows fanout action = some next) (awaits : next.appending = some args) :
    fanout.appending = some args ∨
      (∃ orderId, Watcher.reconciliationArgs fanout.cache orderId = some args) ∨
      ∃ change correlationId, action = .process change correlationId ∧
        Watcher.prepare fanout.cache change correlationId = .ok (some args) := by
  cases action with
  | warm cache =>
      simp only [step] at stepped
      split at stepped
      · cases stepped
        exact Or.inl awaits
      · cases stepped
  | reconcile orderId =>
      simp only [step] at stepped
      split at stepped
      · rename_i found
        cases stepped
        cases awaits
        exact Or.inr (Or.inl ⟨orderId, found⟩)
      · cases stepped
  | process change correlationId =>
      simp only [step] at stepped
      split at stepped
      · rename_i prepared
        cases stepped
        refine Or.inr (Or.inr ⟨change, correlationId, rfl, ?_⟩)
        rw [prepared]
        exact congrArg Except.ok awaits
      · cases stepped
        exact Or.inl awaits
      · cases stepped
  | appended stamp =>
      simp only [step] at stepped
      split at stepped
      · rw [appending_advance stepped] at awaits
        cases awaits
      · cases stepped
  | failed =>
      simp only [step] at stepped
      split at stepped
      · cases stepped
        cases awaits
      · cases stepped
  | expire timer | flushAll | drain flush =>
      rw [appending_advance stepped] at awaits
      exact Or.inl awaits
  | broker action =>
      cases action with
      | broadcast event => cases stepped
      | _ =>
          simp only [step, Option.map_eq_some_iff] at stepped
          obtain ⟨broker, -, rfl⟩ := stepped
          exact Or.inl awaits

theorem Prompt.buffer_step {action : FanoutAction} (prompt : Prompt windows fanout)
    (stepped : step windows fanout action = some next) : next.buffer.Prompt := by
  have urgent {bufferAction : BufferAction}
      (asks : fanout.bufferAction? action = some bufferAction) (event : Event)
      (adds : bufferAction = .add event) (cancels : event.Cancels) :
      CohesionBuffer.Bypasses windows event := by
    subst adds
    cases action with
    | appended stamp =>
        obtain ⟨args, awaited, equal⟩ := Option.map_eq_some_iff.mp asks
        cases equal
        exact prompt.awaited args stamp awaited cancels
    | warm | reconcile | process | failed | broker | expire | flushAll | drain => cases asks
  cases step_cases stepped with
  | watched _ buffer _ =>
      rw [buffer]
      exact prompt.buffer
  | quiet asks moved _ _ => exact prompt.buffer.step (urgent asks) moved
  | sent asks moved _ _ _ => exact prompt.buffer.step (urgent asks) moved
  | brokered _ _ buffer =>
      rw [buffer]
      exact prompt.buffer

theorem Prompt.step {action : FanoutAction} (prompt : Prompt windows fanout)
    (plain : action.Plain) (stepped : step windows fanout action = some next) :
    Prompt windows next := by
  refine ⟨?_, prompt.buffer_step stepped⟩
  intro args stamp awaits cancels
  rcases appending_step stepped awaits with earlier | ⟨orderId, found⟩ |
    ⟨change, correlationId, rfl, prepared⟩
  · exact prompt.awaited args stamp earlier cancels
  · exact Watcher.bypasses_of_reconciliation found windows stamp
  · obtain ⟨op, appends⟩ := Watcher.prepare_eq_some prepared
    exact Watcher.bypasses_of_cancels plain appends windows cancels

theorem prompt_of_reached {cache : Orders} {maxQueue : Nat} {actions : List FanoutAction}
    (plain : ∀ action ∈ actions, action.Plain)
    (reached : exec (Fanout.step windows) { cache, broker := { maxQueue } } actions =
      some fanout) : Prompt windows fanout := by
  induction actions using List.reverseRecOn generalizing fanout with
  | nil =>
      cases reached
      refine ⟨?_, ?_, ?_⟩
      · intro args stamp awaited
        cases awaited
      · intro entry held
        cases held
      · intro emission emitted
        cases emitted
  | append_singleton actions action ih =>
      obtain ⟨middle, before, stepped⟩ := exec_snoc.mp reached
      have earlier := ih (fun other member => plain other (List.mem_append_left _ member)) before
      exact earlier.step (plain action (List.mem_append_right _ List.mem_cons_self)) stepped

/-- An event that moves the status to `"cancelled"` is emitted by its own `add`, as it is
and with nothing merged into it, and no entry of the buffer and no event of a flush ever
carries such a change. -/
theorem cancellations_sent_at_once (windows : Windows) (cache : Orders) (maxQueue : Nat)
    {actions : List FanoutAction} {fanout : Fanout}
    (plain : ∀ action ∈ actions, action.Plain)
    (reached : exec (Fanout.step windows) { cache, broker := { maxQueue } } actions =
      some fanout) :
    (∀ args (stamp : Stamp), fanout.appending = some args →
      (stamp.draft args).event.Cancels →
        ∃ next, Fanout.step windows fanout (.appended stamp) = some next ∧
          next.buffer = fanout.buffer.emit (.bypass (stamp.draft args).event)) ∧
      (∀ entry ∈ fanout.buffer.held, ¬entry.initial.Cancels ∧ ¬entry.latest.Cancels) ∧
      ∀ emission ∈ fanout.buffer.emitted, emission.entry.isSome = true →
        ¬emission.event.Cancels := by
  have prompt : Prompt windows fanout := prompt_of_reached plain reached
  refine ⟨?_, ?_, prompt.buffer.emitted⟩
  · intro args stamp awaited cancels
    have bypasses := prompt.awaited args stamp awaited cancels
    simp only [Fanout.step, awaited, advance, CohesionBuffer.step, CohesionBuffer.add,
      if_pos bypasses, Option.map_some]
    exact ⟨_, rfl, rfl⟩
  · intro entry held
    have uncancelled := prompt.buffer.held entry held
    exact ⟨uncancelled.initial, uncancelled.latest⟩

def moved (status : String) : Change := ⟨.update, "1", some (sampleOrder status 10), none, none⟩

def cancelling : List FanoutAction :=
  [.process (moved "validating") "first", .appended ⟨"a", sampleTime, 1, auditGenesisHash⟩,
    .process (moved "cancelled") "second"]

theorem plain_cancelling : ∀ action ∈ cancelling, action.Plain := by
  intro action member
  simp only [cancelling, List.mem_cons, List.not_mem_nil, or_false] at member
  rcases member with rfl | rfl | rfl
  · intro doc typeName found foreign
    cases found
    cases foreign
  · trivial
  · intro doc typeName found foreign
    cases found
    cases foreign

theorem cancellations_sent_at_once_of_held :
    ∃ fanout next emission,
      exec (Fanout.step CohesionBuffer.sampleWindows)
          { cache := .ofList [("1", sampleOrder "pending" 10)], broker := { maxQueue := 200 } }
          cancelling = some fanout ∧
        fanout.buffer.held.length = 1 ∧
        Fanout.step CohesionBuffer.sampleWindows fanout
          (.appended ⟨"b", sampleTime, 2, auditGenesisHash⟩) = some next ∧
        next.buffer.emitted = fanout.buffer.emitted ++ [emission] ∧
        emission.event.Cancels ∧ next.buffer.held.length = 1 := by
  have facts : (exec (Fanout.step CohesionBuffer.sampleWindows)
      { cache := .ofList [("1", sampleOrder "pending" 10)], broker := { maxQueue := 200 } }
      cancelling).map (fun fanout =>
        (fanout.buffer.held.length, fanout.appending.map fun args =>
          decide (Stamp.draft ⟨"b", sampleTime, 2, auditGenesisHash⟩ args).event.Cancels)) =
      some (1, some true) := by
    decide +kernel
  obtain ⟨fanout, reached, values⟩ := Option.map_eq_some_iff.mp facts
  obtain ⟨held, awaits⟩ := Prod.mk.inj values
  obtain ⟨args, awaited, cancels⟩ := Option.map_eq_some_iff.mp awaits
  obtain ⟨next, stepped, sent⟩ := (cancellations_sent_at_once CohesionBuffer.sampleWindows _ _
    plain_cancelling reached).1 args ⟨"b", sampleTime, 2, auditGenesisHash⟩ awaited
      (of_decide_eq_true cancels)
  refine ⟨fanout, next,
    .bypass (Stamp.draft ⟨"b", sampleTime, 2, auditGenesisHash⟩ args).event, reached, held,
    stepped, ?_, of_decide_eq_true cancels, ?_⟩
  · rw [sent]
    rfl
  · rw [sent]
    exact held

end Fanout

end OrderStream

import OrderStream.Spine.Writers

/-! One writer whose `insert_one` may fail with an error that is no
`DuplicateKeyError`. -/

namespace OrderStream

open Transition

/-- No `bootstrap` runs, and `uuid4` yields an id that no stored event has. -/
def SoleWriter (state : EventLog × EventSpine) : SpineAction → Prop
  | .take eventId _ => ∀ doc ∈ state.1, doc.get "event_id" ≠ .str eventId
  | .refreshCall => False
  | _ => True

instance (state : EventLog × EventSpine) : ∀ action, Decidable (SoleWriter state action)
  | .take eventId _ =>
      decidable_of_iff
        (∀ doc ∈ state.1, ¬(doc.get "event_id").pyEq (.str eventId) = true)
        (by simp only [SoleWriter, Value.pyEq_str_iff, ne_eq])
  | .refreshCall => inferInstanceAs (Decidable False)
  | .call _ | .insert | .fail _ | .finish | .find | .assign | .giveUp | .refreshRead
  | .refreshAssign => inferInstanceAs (Decidable True)

/-- The event of the append that is about to return extends the stored tail, and
the chain is whole. -/
def ExtendsStoredTail (genesis : String) (state : EventLog × EventSpine) : Prop :=
  ∀ draft, state.2.append = .stored draft →
    (∃ older, state.1 = older ++ [draft.storageDoc] ∧
      TrueTail genesis older ⟨draft.seq - 1, draft.prevHash⟩) ∧
    ∃ report, verifyChain genesis state.1 = .ok report ∧ report.intact = true

/-- Whenever an append has raised and a later one returns. -/
def RecoversAfterErrors (genesis : String) (start : EventLog × EventSpine)
    (actions : List SpineAction) : Prop :=
  Along (EventSpine.step genesis) (fun before state action =>
    action = .finish → ∀ stored, .fail stored ∈ before →
      ExtendsStoredTail genesis state) start actions

def NoReturnAfterErrors (genesis : String) (start : EventLog × EventSpine)
    (actions : List SpineAction) : Prop :=
  Along (EventSpine.step genesis) (fun before _ action =>
    action = .finish → ∀ stored, .fail stored ∉ before) start actions

def AtMost (genesis : String) (log : EventLog) (tail : Tail) : Prop :=
  Ascending log ∧ ∃ last, TrueTail genesis log last ∧ last.seq ≤ tail.seq

def Behind (genesis : String) (log : EventLog) (tail : Tail) : Prop :=
  AtMost genesis log tail ∧ ¬TrueTail genesis log tail

/-- A draft keeps the tail it was taken from: `_last_seq` is bumped at once and
`_last_hash` set at the end. -/
def AppendPhase.WorksFrom (relates : EventLog → Tail → Prop) (log : EventLog)
    (tail : Tail) : AppendPhase → Prop
  | .idle | .ready _ _ => relates log tail
  | .inserting draft _ =>
      relates log ⟨draft.seq - 1, draft.prevHash⟩ ∧
        tail = ⟨draft.seq, draft.prevHash⟩ ∧
        ∀ doc ∈ log, doc.get "event_id" ≠ .str draft.eventId
  | .stored draft =>
      ∃ older, log = older ++ [draft.storageDoc] ∧
        relates older ⟨draft.seq - 1, draft.prevHash⟩ ∧
        tail = ⟨draft.seq, draft.prevHash⟩
  | .conflict _ _ => False
  | .refreshing _ _ _ => False

section

variable {genesis : String} {log next : EventLog} {tail : Tail} {draft : Draft}

theorem Built.atMost (built : Built genesis log tail) : AtMost genesis log tail :=
  ⟨built.ascending, tail, built.trueTail, le_refl _⟩

theorem AtMost.seq_lt (most : AtMost genesis log ⟨draft.seq - 1, draft.prevHash⟩) :
    ∀ stored ∈ log, ∃ earlier, stored.get "seq" = .int earlier ∧ earlier < draft.seq := by
  intro stored member
  obtain ⟨-, last, whole, bound⟩ := most
  obtain ⟨seq, at_seq, below⟩ := whole.seq_le member
  refine ⟨seq, at_seq, ?_⟩
  simp only at bound
  omega

theorem AtMost.insertOne_eq (most : AtMost genesis log ⟨draft.seq - 1, draft.prevHash⟩)
    (fresh : ∀ doc ∈ log, doc.get "event_id" ≠ .str draft.eventId) :
    insertOne log draft.storageDoc = some (log ++ [draft.storageDoc]) := by
  unfold insertOne
  rw [if_neg]
  intro collides
  obtain ⟨stored, member, same⟩ := List.any_eq_true.mp collides
  rcases Bool.or_eq_true _ _ ▸ same with sameSeq | sameId
  · obtain ⟨seq, at_seq, below⟩ := most.seq_lt stored member
    rw [at_seq, draft.get_seq, sameIndexKey_int] at sameSeq
    simp at sameSeq
    omega
  · simp only [sameIndexKey, Draft.get_eventId, Bool.and_eq_true,
      Value.pyEq_str_iff] at sameId
    exact fresh stored member sameId.2

/-- The document was not stored: its seq is skipped. -/
theorem AtMost.behind_of_lost
    (most : AtMost genesis log ⟨draft.seq - 1, draft.prevHash⟩) :
    Behind genesis log ⟨draft.seq, draft.prevHash⟩ := by
  obtain ⟨ascending, last, whole, bound⟩ := most
  simp only at bound
  refine ⟨⟨ascending, last, whole, ?_⟩, ?_⟩
  · simp only
    omega
  · intro claimed
    cases whole.unique ascending claimed
    simp only at bound
    omega

/-- The document was stored: the tail has its seq and the hash before it. -/
theorem AtMost.behind_of_unconfirmed
    (most : AtMost genesis log ⟨draft.seq - 1, draft.prevHash⟩)
    (moves : draft.hash ≠ draft.prevHash) :
    Behind genesis (log ++ [draft.storageDoc]) ⟨draft.seq, draft.prevHash⟩ := by
  have ascending := most.1.snoc most.seq_lt draft.get_seq
  have last : draft.storageDoc ∈ log ++ [draft.storageDoc] := by simp
  have whole : TrueTail genesis (log ++ [draft.storageDoc]) ⟨draft.seq, draft.hash⟩ := by
    refine .greatest last draft.get_seq draft.get_hash ?_
    intro other member
    rcases List.mem_append.mp member with earlier | final
    · obtain ⟨seq, at_seq, below⟩ := most.seq_lt other earlier
      exact ⟨seq, at_seq, below.le⟩
    · rw [List.mem_singleton.mp final]
      exact ⟨draft.seq, draft.get_seq, le_refl _⟩
  refine ⟨⟨ascending, _, whole, le_refl _⟩, ?_⟩
  intro claimed
  exact moves (congrArg Tail.hash (whole.unique ascending claimed))

end

namespace EventSpine

variable {genesis : String} {log next : EventLog} {spine after : EventSpine}
  {action : SpineAction} {relates : EventLog → Tail → Prop}

theorem log_subset (stepped : step genesis (log, spine) action = some (next, after)) :
    log ⊆ next := by
  cases step_cases stepped with
  | inserted _ stored | unconfirmed _ stored =>
      rw [(insertOne_eq_some stored).1]
      exact List.subset_append_left _ _
  | _ => exact List.Subset.refl _

theorem refresh_idle (idle : spine.refresh = .idle) (alone : SoleWriter (log, spine) action)
    (stepped : step genesis (log, spine) action = some (next, after)) :
    after.refresh = .idle := by
  cases step_cases stepped with
  | refreshCall _ => exact alone.elim
  | refreshFound reading _ => simp [reading] at idle
  | refreshUnreadable _ _ => rfl
  | refreshAssign _ => rfl
  | _ => exact idle

theorem worksFrom_step
    (bounded : ∀ {log tail}, relates log tail → AtMost genesis log tail)
    (idle : spine.refresh = .idle) (alone : SoleWriter (log, spine) action)
    (works : spine.append.WorksFrom relates log spine.tail)
    (returns : action ≠ .finish) (raises : ∀ stored, action ≠ .fail stored)
    (stepped : step genesis (log, spine) action = some (next, after)) :
    after.append.WorksFrom relates next after.tail := by
  cases step_cases stepped with
  | call phase | giveUp phase _ =>
      rw [phase] at works
      exact works
  | take phase _ =>
      rw [phase] at works
      simpa [EventSpine.take, AppendPhase.WorksFrom] using ⟨works, alone⟩
  | inserted phase stored =>
      rw [phase] at works
      obtain ⟨works, bumped, -⟩ := works
      exact ⟨log, (insertOne_eq_some stored).1, works, bumped⟩
  | duplicate phase collides =>
      rw [phase] at works
      obtain ⟨works, -, fresh⟩ := works
      rw [(bounded works).insertOne_eq fresh] at collides
      cases collides
  | lost _ | unconfirmed _ _ => exact absurd rfl (raises _)
  | finish _ => exact absurd rfl returns
  | found phase _ | unreadable phase _ | assign phase =>
      rw [phase] at works
      exact works.elim
  | refreshCall _ => exact alone.elim
  | refreshFound phase _ | refreshUnreadable phase _ | refreshAssign phase =>
      simp [phase] at idle

/-- An append that raises leaves a tail that does not name the last event. -/
theorem behind_of_fail {stored : Bool}
    (bounded : ∀ {log tail}, relates log tail → AtMost genesis log tail)
    (works : spine.append.WorksFrom relates log spine.tail)
    (moves : ∀ doc ∈ next, doc.get "hash" ≠ doc.get "prev_hash")
    (stepped : step genesis (log, spine) (.fail stored) = some (next, after)) :
    after.append.WorksFrom (Behind genesis) next after.tail := by
  cases step_cases stepped with
  | lost phase =>
      rw [phase] at works
      obtain ⟨works, bumped, -⟩ := works
      have behind := (bounded works).behind_of_lost
      rw [← bumped] at behind
      exact behind
  | unconfirmed phase stored =>
      rename_i draft _
      rw [phase] at works
      obtain ⟨works, bumped, -⟩ := works
      obtain ⟨rfl, -⟩ := insertOne_eq_some stored
      have distinct : draft.hash ≠ draft.prevHash := by
        have differ := moves draft.storageDoc (by simp)
        rw [draft.get_hash, draft.get_prevHash] at differ
        exact fun same => differ (congrArg Value.str same)
      have behind := (bounded works).behind_of_unconfirmed distinct
      rw [← bumped] at behind
      exact behind

end EventSpine

section

variable {genesis : String} {start : EventLog × EventSpine} {log : EventLog}
  {tail : Tail} {spine : EventSpine} {actions : List SpineAction} {action : SpineAction}

inductive AfterErrors (genesis : String) (start : EventLog × EventSpine)
    (actions : List SpineAction) (log : EventLog) (spine : EventSpine) : Prop where
  | clean : (∀ stored, .fail stored ∉ actions) →
      spine.append.WorksFrom (Built genesis) log spine.tail →
        AfterErrors genesis start actions log spine
  | raised (stored : Bool) : .fail stored ∈ actions →
      NoReturnAfterErrors genesis start actions →
        spine.append.WorksFrom (Behind genesis) log spine.tail →
          AfterErrors genesis start actions log spine
  | missed : ¬RecoversAfterErrors genesis start actions →
      AfterErrors genesis start actions log spine

theorem noReturnAfterErrors_of_clean (clean : ∀ stored, .fail stored ∉ actions) :
    NoReturnAfterErrors genesis start actions := by
  intro before action after split _ _ _ stored member
  exact clean stored (by simp [split, member])

theorem NoReturnAfterErrors.snoc (none : NoReturnAfterErrors genesis start actions)
    (returns : action ≠ .finish) :
    NoReturnAfterErrors genesis start (actions ++ [action]) :=
  along_snoc.mpr ⟨none, fun _ _ finish => absurd finish returns⟩

theorem afterErrors_finish {next : EventLog} {after : EventSpine}
    (before : exec (EventSpine.step genesis) start actions = some (log, spine))
    (holds : AfterErrors genesis start actions log spine)
    (stepped : EventSpine.step genesis (log, spine) .finish = some (next, after)) :
    AfterErrors genesis start (actions ++ [.finish]) next after := by
  cases EventSpine.step_cases stepped with
  | finish phase =>
      rename_i draft
      cases holds with
      | clean clean works =>
          rw [phase] at works
          obtain ⟨older, rfl, built, bumped⟩ := works
          refine .clean (by simpa using clean) ?_
          rw [bumped]
          exact .snoc built (by simp) rfl
      | raised stored member _ works =>
          refine .missed fun recovers => ?_
          rw [phase] at works
          obtain ⟨older, rfl, behind, -⟩ := works
          obtain ⟨⟨same, equality, whole⟩, -⟩ :=
            (along_snoc.mp recovers).2 _ before rfl _ member draft phase
          cases (List.append_inj' equality rfl).1
          exact behind.2 whole
      | missed missed => exact .missed fun recovers => missed (along_snoc.mp recovers).1

theorem afterErrors_step {next : EventLog} {after : EventSpine}
    (before : exec (EventSpine.step genesis) start actions = some (log, spine))
    (idle : spine.refresh = .idle) (holds : AfterErrors genesis start actions log spine)
    (alone : SoleWriter (log, spine) action)
    (moves : ∀ doc ∈ next, doc.get "hash" ≠ doc.get "prev_hash")
    (stepped : EventSpine.step genesis (log, spine) action = some (next, after)) :
    AfterErrors genesis start (actions ++ [action]) next after := by
  by_cases returns : action = .finish
  · subst returns
    exact afterErrors_finish before holds stepped
  · cases holds with
    | clean clean works =>
        by_cases raises : ∃ stored, action = .fail stored
        · obtain ⟨stored, rfl⟩ := raises
          exact .raised stored (by simp)
            ((noReturnAfterErrors_of_clean clean).snoc returns)
            (EventSpine.behind_of_fail Built.atMost works moves stepped)
        · have quiet : ∀ stored, action ≠ .fail stored := fun stored equality =>
            raises ⟨stored, equality⟩
          refine .clean ?_
            (EventSpine.worksFrom_step Built.atMost idle alone works returns quiet stepped)
          intro stored member
          rcases List.mem_append.mp member with member | last
          · exact clean stored member
          · exact quiet stored (List.mem_singleton.mp last).symm
    | raised stored member none works =>
        refine .raised stored (List.mem_append_left _ member) (none.snoc returns) ?_
        by_cases raises : ∃ stored, action = .fail stored
        · obtain ⟨stored, rfl⟩ := raises
          exact EventSpine.behind_of_fail And.left works moves stepped
        · exact EventSpine.worksFrom_step And.left idle alone works returns
            (fun stored equality => raises ⟨stored, equality⟩) stepped
    | missed missed => exact .missed fun recovers => missed (along_snoc.mp recovers).1

theorem afterErrors_run
    (built : Built genesis log tail)
    (alone : Along (EventSpine.step genesis) (fun _ => SoleWriter) (log, { tail }) actions)
    {state : EventLog × EventSpine}
    (reached : exec (EventSpine.step genesis) (log, { tail }) actions = some state)
    (moves : ∀ doc ∈ state.1, doc.get "hash" ≠ doc.get "prev_hash") :
    AfterErrors genesis (log, { tail }) actions state.1 state.2 := by
  refine (exec_induction_along
    (motive := fun actions state =>
      (∀ doc ∈ state.1, doc.get "hash" ≠ doc.get "prev_hash") →
        state.2.refresh = .idle ∧
          AfterErrors genesis (log, { tail }) actions state.1 state.2)
    ?_ ?_ alone reached moves).2
  · intro _
    exact ⟨rfl, .clean (by simp) built⟩
  · rintro actions ⟨log, spine⟩ action ⟨next, after⟩ before holds alone stepped moves
    obtain ⟨idle, holds⟩ := holds fun doc member =>
      moves doc (EventSpine.log_subset stepped member)
    exact ⟨EventSpine.refresh_idle idle alone stepped,
      afterErrors_step before idle holds alone moves stepped⟩

end

/-- The event of every append that returns after an error misses the stored tail:
`_last_seq` was bumped for the event that failed, and `_last_hash` was not set. -/
theorem recovers_after_errors_iff {genesis : String} {log : EventLog} {tail : Tail}
    {actions : List SpineAction} {state : EventLog × EventSpine}
    (built : Built genesis log tail)
    (alone : Along (EventSpine.step genesis) (fun _ => SoleWriter) (log, { tail }) actions)
    (reached : exec (EventSpine.step genesis) (log, { tail }) actions = some state)
    (moves : ∀ doc ∈ state.1, doc.get "hash" ≠ doc.get "prev_hash") :
    RecoversAfterErrors genesis (log, { tail }) actions ↔
      NoReturnAfterErrors genesis (log, { tail }) actions := by
  constructor
  · intro recovers
    cases afterErrors_run built alone reached moves with
    | clean clean _ => exact noReturnAfterErrors_of_clean clean
    | raised _ _ none _ => exact none
    | missed missed => exact absurd recovers missed
  · intro none before action after split state at_state finish stored member
    exact absurd member (none before action after split state at_state finish stored)

/-- The first `insert_one` stores its document but times out: the next event is
chained to the genesis hash again. -/
theorem recovers_after_errors_iff_unconfirmed :
    ¬RecoversAfterErrors "genesis" ([], EventSpine.init "genesis")
      [.call sampleArgs, .take "a" sampleTime, .fail true, .call sampleArgs,
        .take "b" sampleTime, .insert, .finish] := by
  have moves (draft : Draft) : draft.hash ≠ "genesis" := by
    intro same
    have length := length_computeHash draft.prevHash draft.payloadForHash
    rw [← Draft.hash, same] at length
    revert length
    decide
  let first : Draft :=
    { args := sampleArgs, eventId := "a", ts := sampleTime, seq := 1, prevHash := "genesis" }
  let second : Draft :=
    { args := sampleArgs, eventId := "b", ts := sampleTime, seq := 2, prevHash := "genesis" }
  have reached : exec (EventSpine.step "genesis") ([], EventSpine.init "genesis")
      [.call sampleArgs, .take "a" sampleTime, .fail true, .call sampleArgs,
        .take "b" sampleTime, .insert, .finish] =
        some ([first.storageDoc, second.storageDoc], { tail := ⟨2, second.hash⟩ }) := rfl
  have distinct : ∀ doc ∈ [first.storageDoc, second.storageDoc],
      doc.get "hash" ≠ doc.get "prev_hash" := by
    simp only [List.forall_mem_cons, Draft.get_hash, Draft.get_prevHash, ne_eq,
      Value.str.injEq]
    exact ⟨moves first, moves second, List.forall_mem_nil _⟩
  have alone : Along (EventSpine.step "genesis") (fun _ => SoleWriter)
      ([], EventSpine.init "genesis")
      [.call sampleArgs, .take "a" sampleTime, .fail true, .call sampleArgs,
        .take "b" sampleTime, .insert, .finish] := by
    decide +kernel
  intro recovers
  have none := (recovers_after_errors_iff .nil alone reached distinct).mp recovers
  exact none [.call sampleArgs, .take "a" sampleTime, .fail true, .call sampleArgs,
    .take "b" sampleTime, .insert] .finish [] rfl _ rfl rfl true (by simp)

/-- The first `insert_one` fails without storing anything: the next event has seq 2
in an empty log. -/
theorem append_after_lost_insert_skips_seq :
    ¬RecoversAfterErrors auditGenesisHash ([], EventSpine.init auditGenesisHash)
      [.call sampleArgs, .take "a" sampleTime, .fail false, .call sampleArgs,
        .take "b" sampleTime, .insert, .finish] := by
  intro recovers
  have returns := recovers [.call sampleArgs, .take "a" sampleTime, .fail false,
    .call sampleArgs, .take "b" sampleTime, .insert] .finish [] rfl _ rfl rfl false (by simp)
  obtain ⟨⟨older, split, whole⟩, -⟩ := returns _ rfl
  have empty : [] = older := List.append_cancel_right split
  subst empty
  -- the draft has seq 2, and an empty log ends in seq 0
  generalize stored : Tail.mk _ _ = tail at whole
  cases whole with
  | empty => exact absurd (congrArg Tail.seq stored) (by decide)
  | greatest member => cases member

end OrderStream

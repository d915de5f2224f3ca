import OrderStream.Spine.AppendErrors

/-! The head of the chain as `/snapshot` and `/health` report it beside one writer. -/

namespace OrderStream

open Transition

namespace EventSpine

def lastSeq (spine : EventSpine) : Int := spine.tail.seq

def headHash (spine : EventSpine) : String := spine.tail.hash

end EventSpine

inductive HeadRoute where
  | snapshot
  | health

/-- `(head_seq, head_hash)` of `/snapshot`, `(last_seq, head_hash)` of `/health`. -/
def HeadRoute.report (route : HeadRoute) (spine : EventSpine) : Tail :=
  match route with
  | .snapshot => ⟨spine.lastSeq, spine.headHash⟩
  | .health => ⟨spine.lastSeq, spine.headHash⟩

inductive HeadAction where
  | append (action : SpineAction)
  | read (route : HeadRoute)

/-- `bootstrap` has run, and only `append` runs now. -/
def SpineAction.ofAppend : SpineAction → Bool
  | .refreshCall | .refreshRead | .refreshAssign => false
  | _ => true

/-- The seq and the hash of one stored event, or those of an empty log. -/
def RealHead (genesis : String) (log : EventLog) (head : Tail) : Prop :=
  (∃ doc ∈ log, doc.get "seq" = .int head.seq ∧ doc.get "hash" = .str head.hash) ∨
    log = [] ∧ head = ⟨0, genesis⟩

theorem TrueTail.realHead {genesis : String} {log : EventLog} {tail : Tail}
    (whole : TrueTail genesis log tail) : RealHead genesis log tail := by
  cases whole with
  | empty => exact Or.inr ⟨rfl, rfl⟩
  | greatest member seq hash _ => exact Or.inl ⟨_, member, seq, hash⟩

namespace HeadAction

def step (genesis : String) (state : EventLog × EventSpine) :
    HeadAction → Option (EventLog × EventSpine)
  | .append action =>
      if action.ofAppend then EventSpine.step genesis state action else none
  | .read _ => some state

/-- Whether `append` took a seq and since then neither returned nor read the tail again. -/
def seqTaken (before : List HeadAction) : Bool :=
  before.foldl (fun taken action =>
    match action with
    | .append (.take _ _) => true
    | .append .finish | .append .assign => false
    | _ => taken) false

/-- Every head that is reported is real when it is read. -/
def ReportsEvents (genesis : String) (start : EventLog × EventSpine)
    (actions : List HeadAction) : Prop :=
  Along (step genesis) (fun _ state action =>
    ∀ route, action = .read route → RealHead genesis state.1 (route.report state.2))
    start actions

def ReadsBetweenAppends (genesis : String) (start : EventLog × EventSpine)
    (actions : List HeadAction) : Prop :=
  Along (step genesis) (fun before _ action =>
    ∀ route, action = .read route → seqTaken before = false) start actions

end HeadAction

def AppendPhase.Holds (genesis : String) (taken : Bool) (log : EventLog) (tail : Tail) :
    AppendPhase → Prop
  | .idle | .ready _ _ => True
  | .inserting draft _ =>
      taken = true ∧ tail = ⟨draft.seq, draft.prevHash⟩ ∧
        ∀ doc ∈ log, ∃ seq, doc.get "seq" = .int seq ∧ seq < draft.seq
  | .stored draft => taken = true ∧ tail.seq = draft.seq ∧ draft.storageDoc ∈ log
  | .conflict _ _ => taken = true
  | .refreshing _ _ found => taken = true ∧ TrueTail genesis log found

/-- `settled`: no seq is taken and the tail names the last event.  `torn`: the event of
that seq, where it is stored, comes after the event of that hash. -/
structure HeadSound (genesis : String) (taken : Bool) (log : EventLog)
    (spine : EventSpine) : Prop where
  bounded : ∀ doc ∈ log, ∃ seq, doc.get "seq" = .int seq ∧ seq ≤ spine.tail.seq
  counted : log = [] → (if taken then 1 else 0) ≤ spine.tail.seq
  settled : taken = false → TrueTail genesis log spine.tail
  torn : taken = true → ∀ doc ∈ log, doc.get "seq" = .int spine.tail.seq →
    doc.get "prev_hash" = .str spine.tail.hash
  phase : spine.append.Holds genesis taken log spine.tail

namespace HeadSound

variable {genesis : String} {taken : Bool} {log next : EventLog} {spine : EventSpine}
  {draft : Draft} {attempt : Nat}

theorem init {tail : Tail} (whole : TrueTail genesis log tail) :
    HeadSound genesis false log { tail } where
  bounded _ member := whole.seq_le member
  counted empty := by
    subst empty
    cases whole with
    | empty => exact Int.le_refl 0
    | greatest member => cases member
  settled _ := whole
  torn contra := by cases contra
  phase := trivial

theorem numbers (sound : HeadSound genesis taken log spine) :
    ∀ doc ∈ log, ∃ seq, doc.get "seq" = .int seq := by
  intro doc member
  obtain ⟨seq, stored, -⟩ := sound.bounded doc member
  exact ⟨seq, stored⟩

theorem moved (sound : HeadSound genesis taken log spine) {phase : AppendPhase}
    (holds : phase.Holds genesis taken log spine.tail) :
    HeadSound genesis taken log { spine with append := phase } :=
  ⟨sound.bounded, sound.counted, sound.settled, sound.torn, holds⟩

theorem take (sound : HeadSound genesis taken log spine) (args : AppendArgs)
    (eventId : String) (ts : Temporal) :
    HeadSound genesis true log (spine.take args attempt eventId ts) where
  bounded doc member := by
    obtain ⟨seq, stored, below⟩ := sound.bounded doc member
    exact ⟨seq, stored, Int.le_trans below (Int.le_add_one (Int.le_refl _))⟩
  counted empty := by
    have counted := sound.counted empty
    simp only [EventSpine.take, if_true]
    split at counted
    · omega
    · omega
  settled contra := by cases contra
  torn _ doc member same := by
    obtain ⟨seq, stored, below⟩ := sound.bounded doc member
    rw [stored] at same
    have equal := Value.int.inj same
    simp only [EventSpine.take] at equal
    omega
  phase := by
    refine ⟨rfl, rfl, ?_⟩
    intro doc member
    obtain ⟨seq, stored, below⟩ := sound.bounded doc member
    exact ⟨seq, stored, Int.lt_add_one_of_le below⟩

theorem inserted (sound : HeadSound genesis taken log spine)
    (phase : spine.append = .inserting draft attempt)
    (inserted : insertOne log draft.storageDoc = some next) {after : AppendPhase}
    (holds : taken = true → spine.tail.seq = draft.seq → draft.storageDoc ∈ next →
      after.Holds genesis taken next spine.tail) :
    HeadSound genesis taken next { spine with append := after } := by
  have inserting := sound.phase
  rw [phase] at inserting
  obtain ⟨rfl, tail, below⟩ := inserting
  obtain ⟨rfl, -⟩ := insertOne_eq_some inserted
  constructor
  · intro doc member
    rcases List.mem_append.mp member with known | last
    · exact sound.bounded doc known
    · rw [List.mem_singleton.mp last]
      exact ⟨draft.seq, draft.get_seq, by rw [tail]⟩
  · intro empty
    simp at empty
  · intro contra
    cases contra
  · intro _ doc member same
    rcases List.mem_append.mp member with known | last
    · obtain ⟨seq, stored, less⟩ := below doc known
      rw [stored, tail] at same
      have equal := Value.int.inj same
      simp only at equal
      omega
    · rw [List.mem_singleton.mp last, tail]
      exact draft.get_prevHash
  · exact holds rfl (by rw [tail]) (by simp)

theorem finish (sound : HeadSound genesis taken log spine)
    (phase : spine.append = .stored draft) :
    HeadSound genesis false log
      { spine with tail := { spine.tail with hash := draft.hash }, append := .idle } := by
  have stored := sound.phase
  rw [phase] at stored
  obtain ⟨-, seq, member⟩ := stored
  refine ⟨sound.bounded, ?_, ?_, ?_, trivial⟩
  · intro empty
    rw [empty] at member
    cases member
  · intro _
    exact .greatest member (by rw [seq]; exact draft.get_seq) draft.get_hash sound.bounded
  · intro contra
    cases contra

theorem assign {args : AppendArgs} {found : Tail}
    (sound : HeadSound genesis taken log spine)
    (phase : spine.append = .refreshing args attempt found) :
    HeadSound genesis false log
      { spine with tail := found, append := .ready args (attempt + 1) } := by
  have refreshing := sound.phase
  rw [phase] at refreshing
  have whole := init refreshing.2
  exact ⟨whole.bounded, whole.counted, whole.settled, whole.torn, trivial⟩

end HeadSound

namespace HeadAction

variable {genesis : String} {log next : EventLog} {spine after : EventSpine}

theorem seqTaken_snoc (before : List HeadAction) (action : HeadAction) :
    seqTaken (before ++ [action]) =
      match action with
      | .append (.take _ _) => true
      | .append .finish | .append .assign => false
      | _ => seqTaken before := by
  unfold seqTaken
  rw [List.foldl_append]
  rfl

theorem sound_append {before : List HeadAction} {action : SpineAction}
    (sound : HeadSound genesis (seqTaken before) log spine) (own : action.ofAppend = true)
    (stepped : EventSpine.step genesis (log, spine) action = some (next, after)) :
    HeadSound genesis (seqTaken (before ++ [.append action])) next after := by
  rw [seqTaken_snoc]
  have phase := sound.phase
  cases EventSpine.step_cases stepped with
  | call _ => exact sound.moved trivial
  | take _ _ => exact sound.take _ _ _
  | giveUp _ _ => exact sound.moved trivial
  | inserted inserting inserted =>
      exact sound.inserted inserting inserted fun taken seq member => ⟨taken, seq, member⟩
  | duplicate inserting _ =>
      rw [inserting] at phase
      exact sound.moved phase.1
  | lost _ => exact sound.moved trivial
  | unconfirmed inserting inserted =>
      exact sound.inserted inserting inserted fun _ _ _ => trivial
  | finish stored => exact sound.finish stored
  | found conflict located =>
      rw [conflict] at phase
      exact sound.moved ⟨phase, trueTail_of_refreshHead sound.numbers located⟩
  | unreadable _ failed =>
      rw [refreshFailed_eq sound.numbers failed]
      exact sound.moved trivial
  | assign refreshing => exact sound.assign refreshing
  | refreshCall | refreshFound | refreshUnreadable | refreshAssign => cases own

theorem sound_step {before : List HeadAction} {action : HeadAction}
    {state finish : EventLog × EventSpine}
    (sound : HeadSound genesis (seqTaken before) state.1 state.2)
    (stepped : step genesis state action = some finish) :
    HeadSound genesis (seqTaken (before ++ [action])) finish.1 finish.2 := by
  cases action with
  | append action =>
      simp only [step] at stepped
      split at stepped
      · exact sound_append sound ‹_› stepped
      · cases stepped
  | read route =>
      cases stepped
      rw [seqTaken_snoc]
      exact sound

theorem sound_reached {tail : Tail} (whole : TrueTail genesis log tail)
    {actions : List HeadAction} {state : EventLog × EventSpine}
    (reached : exec (step genesis) (log, { tail }) actions = some state) :
    HeadSound genesis (seqTaken actions) state.1 state.2 := by
  have initial : HeadSound genesis (seqTaken []) log { tail } := HeadSound.init whole
  refine exec_induction
    (motive := fun actions state => HeadSound genesis (seqTaken actions) state.1 state.2)
    initial ?_ reached
  intro actions middle action finish _ sound stepped
  exact sound_step sound stepped

theorem log_subset {start finish : EventLog × EventSpine} {actions : List HeadAction}
    (reached : exec (step genesis) start actions = some finish) : start.1 ⊆ finish.1 := by
  refine exec_invariant (motive := fun state => start.1 ⊆ state.1)
    (List.Subset.refl _) ?_ reached
  intro state action finish within stepped
  cases action with
  | append action =>
      simp only [step] at stepped
      split at stepped
      · exact List.Subset.trans within (EventSpine.log_subset stepped)
      · cases stepped
  | read route =>
      cases stepped
      exact within

theorem report_eq (route : HeadRoute) (spine : EventSpine) : route.report spine = spine.tail := by
  cases route with
  | snapshot => rfl
  | health => rfl

/-- A head that is read while a seq is taken has that seq and the hash of an earlier
event. -/
theorem not_real_of_taken (sound : HeadSound genesis true log spine)
    (moves : ∀ doc ∈ log, doc.get "hash" ≠ doc.get "prev_hash") :
    ¬RealHead genesis log spine.tail := by
  rintro (⟨doc, member, seq, hash⟩ | ⟨empty, head⟩)
  · have previous := sound.torn rfl doc member seq
    exact moves doc member (hash.trans previous.symm)
  · have counted := sound.counted empty
    simp [head] at counted

end HeadAction

open HeadAction in
/-- The heads reported between appends are real.  Those reported while an append runs, or
after it raised, are not: `_last_seq` is set before the insert and `_last_hash` after
it. -/
theorem reported_heads_real_iff {genesis : String} {log : EventLog} {tail : Tail}
    (whole : TrueTail genesis log tail) {actions : List HeadAction}
    {finish : EventLog × EventSpine}
    (reached : exec (step genesis) (log, { tail }) actions = some finish) :
    (ReadsBetweenAppends genesis (log, { tail }) actions →
      ReportsEvents genesis (log, { tail }) actions) ∧
    ((∀ doc ∈ finish.1, doc.get "hash" ≠ doc.get "prev_hash") →
      ReportsEvents genesis (log, { tail }) actions →
        ReadsBetweenAppends genesis (log, { tail }) actions) := by
  constructor
  · intro between before action after split state arrived route read
    have sound := sound_reached whole arrived
    rw [report_eq]
    exact (sound.settled
      (between before action after split state arrived route read)).realHead
  · intro moves reports before action after split state arrived route read
    have real := reports before action after split state arrived route read
    have sound := sound_reached whole arrived
    rw [split] at reached
    obtain ⟨middle, first, rest⟩ := exec_append_some.mp reached
    cases arrived.symm.trans first
    rw [report_eq] at real
    cases taken : seqTaken before with
    | false => rfl
    | true =>
        rw [taken] at sound
        exact absurd real (not_real_of_taken sound fun doc member =>
          moves doc (log_subset rest member))

open HeadAction in
theorem reported_heads_real_of_one_append : ∃ finish,
    exec (step auditGenesisHash) ([], EventSpine.init auditGenesisHash)
        [.read .snapshot, .append (.call sampleArgs), .append (.take "a" sampleTime),
          .append .insert, .append .finish, .read .health] = some finish ∧
      ReportsEvents auditGenesisHash ([], EventSpine.init auditGenesisHash)
        [.read .snapshot, .append (.call sampleArgs), .append (.take "a" sampleTime),
          .append .insert, .append .finish, .read .health] := by
  have between : ReadsBetweenAppends auditGenesisHash ([], EventSpine.init auditGenesisHash)
      [.read .snapshot, .append (.call sampleArgs), .append (.take "a" sampleTime),
        .append .insert, .append .finish, .read .health] := by
    simp [ReadsBetweenAppends, along_cons, along_nil, seqTaken]
  exact ⟨_, rfl, (reported_heads_real_iff .empty rfl).1 between⟩

/-! A snapshot while the first event is inserted: it reports seq 1 and the genesis hash. -/

open HeadAction in
theorem head_of_running_append_is_not_stored :
    ¬ReportsEvents auditGenesisHash ([], EventSpine.init auditGenesisHash)
      [.append (.call sampleArgs), .append (.take "a" sampleTime), .read .snapshot] := by
  intro reports
  have real := reports [.append (.call sampleArgs), .append (.take "a" sampleTime)]
    (.read .snapshot) [] rfl _ rfl .snapshot rfl
  rcases real with ⟨doc, member, -⟩ | ⟨-, head⟩
  · cases member
  · exact absurd (congrArg Tail.seq head) (by decide)

end OrderStream

import OrderStream.Spine.Chain
import OrderStream.Theory.Transition

/-! Any number of `EventSpine` instances that share one log. -/

namespace OrderStream

open Transition

/-- `inserted` lists the instance behind each `insert_one` that succeeded. -/
structure Writers (ι : Type u) where
  log : EventLog
  spines : ι → EventSpine
  inserted : List ι

/-- No `bootstrap` of an instance overlaps its own `append`, whose `insert_one` fails with
nothing but `DuplicateKeyError`. -/
def EventSpine.admits (spine : EventSpine) : SpineAction → Bool
  | .call _ =>
      match spine.refresh with
      | .idle => true
      | _ => false
  | .refreshCall =>
      match spine.append with
      | .idle => true
      | _ => false
  | .fail _ => false
  | _ => true

def EventSpine.justStored (spine : EventSpine) (action : SpineAction) : Bool :=
  match action, spine.append with
  | .insert, .stored _ => true
  | _, _ => false

namespace Writers

variable {ι : Type u}

def init (genesis : String) : Writers ι where
  log := []
  spines := fun _ => EventSpine.init genesis
  inserted := []

variable [DecidableEq ι]

/-- Here `insert_one` fails with nothing but `DuplicateKeyError`. -/
def step (genesis : String) (state : Writers ι) : ι × SpineAction → Option (Writers ι)
  | (_, .fail _) => none
  | (who, action) =>
      (EventSpine.step genesis (state.log, state.spines who) action).map fun (log, spine) =>
        { log
          spines := Function.update state.spines who spine
          inserted :=
            if spine.justStored action then state.inserted ++ [who] else state.inserted }

/-- `main.lifespan` awaits `bootstrap` before there is a watcher to append.  The lock of
`append` is not taken by `bootstrap`. -/
def BootstrapApart (state : Writers ι) (action : ι × SpineAction) : Prop :=
  (state.spines action.1).admits action.2 = true

instance (state : Writers ι) (action : ι × SpineAction) :
    Decidable (state.BootstrapApart action) :=
  inferInstanceAs (Decidable (_ = _))

end Writers

def AppendPhase.Accurate (genesis : String) (log : EventLog) (tail : Tail) :
    AppendPhase → Prop
  | .idle | .ready _ _ => Named genesis log tail
  | .inserting draft _ =>
      ∃ taken, Named genesis log taken ∧ draft.seq = taken.seq + 1 ∧
        draft.prevHash = taken.hash ∧ tail.seq = draft.seq
  | .stored draft => Named genesis log ⟨draft.seq, draft.hash⟩ ∧ tail.seq = draft.seq
  | .conflict _ _ => True
  | .refreshing _ _ found => Named genesis log found

def RefreshPhase.Accurate (genesis : String) (log : EventLog) (append : AppendPhase) :
    RefreshPhase → Prop
  | .idle => True
  | .reading => append = .idle
  | .read found => append = .idle ∧ Named genesis log found

structure EventSpine.Accurate (genesis : String) (log : EventLog)
    (spine : EventSpine) : Prop where
  append : spine.append.Accurate genesis log spine.tail
  refresh : spine.refresh.Accurate genesis log spine.append

namespace EventSpine

variable {genesis : String} {log next : EventLog} {spine after : EventSpine}
  {tail : Tail} {action : SpineAction}

theorem accurate_init (genesis : String) :
    Accurate genesis [] (EventSpine.init genesis) where
  append := named_init genesis []
  refresh := trivial

theorem Accurate.extend (accurate : Accurate genesis log spine) (docs : EventLog) :
    Accurate genesis (log ++ docs) spine := by
  obtain ⟨tail, append, refresh⟩ := spine
  obtain ⟨appending, refreshing⟩ := accurate
  refine ⟨?_, ?_⟩
  · cases append with
    | idle => exact Named.append appending docs
    | ready _ _ => exact Named.append appending docs
    | inserting _ _ =>
        obtain ⟨taken, named, rest⟩ := appending
        exact ⟨taken, named.append docs, rest⟩
    | stored _ => exact ⟨appending.1.append docs, appending.2⟩
    | conflict _ _ => trivial
    | refreshing _ _ _ => exact Named.append appending docs
  · cases refresh with
    | idle => trivial
    | reading => exact refreshing
    | read _ => exact ⟨refreshing.1, refreshing.2.append docs⟩

theorem Accurate.refresh_quiet (accurate : Accurate genesis log spine)
    (busy : spine.append ≠ .idle) (log : EventLog) (append : AppendPhase) :
    spine.refresh.Accurate genesis log append := by
  have refreshing := accurate.refresh
  cases phase : spine.refresh with
  | idle => trivial
  | reading =>
      rw [phase] at refreshing
      exact absurd refreshing busy
  | read _ =>
      rw [phase] at refreshing
      exact absurd refreshing.1 busy

theorem accurate_step (built : Built genesis log tail)
    (accurate : Accurate genesis log spine) (admitted : spine.admits action = true)
    (stepped : step genesis (log, spine) action = some (next, after)) :
    ∃ docs last, next = log ++ docs ∧
      docs.length = (if after.justStored action then 1 else 0) ∧
      Built genesis next last ∧ Accurate genesis next after := by
  have unchanged {after : EventSpine} (quiet : after.justStored action = false)
      (holds : Accurate genesis log after) :
      ∃ docs last, log = log ++ docs ∧
        docs.length = (if after.justStored action then 1 else 0) ∧
        Built genesis log last ∧ Accurate genesis log after :=
    ⟨[], tail, by simp, by simp [quiet], built, holds⟩
  have appending := accurate.append
  have refreshing := accurate.refresh
  cases step_cases stepped with
  | call idle =>
      rw [idle] at appending
      refine unchanged rfl ⟨appending, ?_⟩
      cases phase : spine.refresh with
      | idle => trivial
      | reading => simp [admits, phase] at admitted
      | read _ => simp [admits, phase] at admitted
  | take ready _ =>
      have quiet := accurate.refresh_quiet (by simp [ready])
      rw [ready] at appending
      refine unchanged rfl ⟨⟨spine.tail, appending, rfl, rfl, rfl⟩, quiet _ _⟩
  | giveUp ready _ =>
      have quiet := accurate.refresh_quiet (by simp [ready])
      rw [ready] at appending
      refine unchanged rfl ⟨appending, quiet _ _⟩
  | inserted inserting stored =>
      have quiet := accurate.refresh_quiet (by simp [inserting])
      rw [inserting] at appending
      obtain ⟨taken, named, seq, previous, bumped⟩ := appending
      obtain ⟨rfl, extended⟩ := built.insert named seq previous stored
      refine ⟨_, _, rfl, rfl, extended, ⟨extended.named, bumped⟩, quiet _ _⟩
  | duplicate inserting _ =>
      have quiet := accurate.refresh_quiet (by simp [inserting])
      refine unchanged rfl ⟨trivial, quiet _ _⟩
  | lost _ => cases admitted
  | unconfirmed _ _ => cases admitted
  | finish stored =>
      have quiet := accurate.refresh_quiet (by simp [stored])
      rw [stored] at appending
      obtain ⟨named, bumped⟩ := appending
      rw [← bumped] at named
      refine unchanged rfl ⟨named, quiet _ _⟩
  | found conflict located =>
      have quiet := accurate.refresh_quiet (by simp [conflict])
      cases built.refreshHead_eq.symm.trans located
      refine unchanged rfl ⟨built.named, quiet _ _⟩
  | unreadable _ failed => cases built.refreshHead_eq.symm.trans failed
  | assign reread =>
      have quiet := accurate.refresh_quiet (by simp [reread])
      rw [reread] at appending
      refine unchanged rfl ⟨appending, quiet _ _⟩
  | refreshCall _ =>
      refine unchanged rfl ⟨appending, ?_⟩
      cases phase : spine.append <;> simp_all [admits, RefreshPhase.Accurate]
  | refreshFound reading located =>
      cases built.refreshHead_eq.symm.trans located
      rw [reading] at refreshing
      exact unchanged rfl ⟨appending, refreshing, built.named⟩
  | refreshUnreadable _ failed => cases built.refreshHead_eq.symm.trans failed
  | refreshAssign read =>
      rw [read] at refreshing
      obtain ⟨idle, named⟩ := refreshing
      refine unchanged rfl ⟨?_, trivial⟩
      rw [idle]
      exact named

def InProgress : AppendPhase → Prop
  | .idle | .stored _ => False
  | _ => True

theorem inProgress_step (stepped : step genesis (log, spine) action = some (next, after))
    (running : ∀ args, action ≠ .call args) (progress : InProgress after.append) :
    InProgress spine.append ∧ after.justStored action = false := by
  cases step_cases stepped with
  | call _ => exact absurd rfl (running _)
  | take ready _ => simp [ready, InProgress, justStored]
  | duplicate inserting _ => simp [inserting, InProgress, justStored]
  | found conflict _ => simp [conflict, InProgress, justStored]
  | assign reread => simp [reread, InProgress, justStored]
  | refreshCall _ => exact ⟨progress, rfl⟩
  | refreshFound _ _ => exact ⟨progress, rfl⟩
  | refreshUnreadable _ _ => exact ⟨progress, rfl⟩
  | refreshAssign _ => exact ⟨progress, rfl⟩
  | _ => exact progress.elim

end EventSpine

namespace Writers

variable {ι : Type u} [DecidableEq ι] {genesis : String} {state next : Writers ι}
  {who : ι} {action : SpineAction}

theorem step_cases (stepped : step genesis state (who, action) = some next) :
    ∃ log spine,
      EventSpine.step genesis (state.log, state.spines who) action = some (log, spine) ∧
        next.log = log ∧
        next.spines = Function.update state.spines who spine ∧
        next.inserted =
          if spine.justStored action then state.inserted ++ [who]
          else state.inserted := by
  have moved : (EventSpine.step genesis (state.log, state.spines who) action).map
      (fun (log, spine) =>
        { log
          spines := Function.update state.spines who spine
          inserted :=
            if spine.justStored action then state.inserted ++ [who]
            else state.inserted : Writers ι }) = some next := by
    cases action with
    | fail _ => cases stepped
    | _ => exact stepped
  obtain ⟨⟨log, spine⟩, taken, rfl⟩ := Option.map_eq_some_iff.mp moved
  exact ⟨log, spine, taken, rfl, rfl, rfl⟩

structure Safe (genesis : String) (state : Writers ι) : Prop where
  built : ∃ tail, Built genesis state.log tail
  accurate : ∀ writer, (state.spines writer).Accurate genesis state.log
  inserted : state.inserted.length = state.log.length

omit [DecidableEq ι] in
theorem safe_init (genesis : String) : Safe genesis (init genesis : Writers ι) where
  built := ⟨_, .nil⟩
  accurate _ := EventSpine.accurate_init genesis
  inserted := rfl

theorem safe_step (safe : Safe genesis state)
    (admitted : state.BootstrapApart (who, action))
    (stepped : step genesis state (who, action) = some next) :
    Safe genesis next := by
  obtain ⟨tail, built⟩ := safe.built
  obtain ⟨log, spine, taken, equality, spines, inserted⟩ := step_cases stepped
  obtain ⟨docs, last, extended, count, rebuilt, accurate⟩ :=
    EventSpine.accurate_step built (safe.accurate who) admitted taken
  refine ⟨⟨last, equality ▸ rebuilt⟩, ?_, ?_⟩
  · intro writer
    rw [equality, spines]
    by_cases same : writer = who
    · subst same
      simpa using accurate
    · rw [Function.update_of_ne same, extended]
      exact (safe.accurate writer).extend docs
  · rw [inserted, equality, extended, List.length_append, count, ← safe.inserted]
    split <;> simp

/-- While a call of `append` is in progress its instance has inserted nothing. -/
theorem inserted_step {writer : ι} {count : Nat}
    (stepped : step genesis state (who, action) = some next)
    (running : ∀ args, (who, action) ≠ (writer, .call args))
    (before : EventSpine.InProgress (state.spines writer).append →
      state.inserted.count writer = count)
    (progress : EventSpine.InProgress (next.spines writer).append) :
    next.inserted.count writer = count := by
  obtain ⟨log, spine, taken, -, spines, inserted⟩ := step_cases stepped
  rw [spines] at progress
  rw [inserted]
  by_cases same : writer = who
  · subst same
    rw [Function.update_self] at progress
    obtain ⟨already, quiet⟩ := EventSpine.inProgress_step taken
      (fun args equal => running args (by rw [equal])) progress
    simpa [quiet] using before already
  · rw [Function.update_of_ne same] at progress
    rw [← before progress]
    split
    · simp [Ne.symm same]
    · rfl

theorem inserted_run {writer : ι} {during : List (ι × SpineAction)} {count : Nat}
    (running : ∀ args, (writer, .call args) ∉ during)
    (start : EventSpine.InProgress (state.spines writer).append →
      state.inserted.count writer = count)
    (reached : exec (step genesis) state during = some next) :
    EventSpine.InProgress (next.spines writer).append →
      next.inserted.count writer = count := by
  induction during generalizing state with
  | nil =>
      cases reached
      exact start
  | cons taken during ih =>
      obtain ⟨middle, stepped, rest⟩ := Option.bind_eq_some_iff.mp reached
      refine ih (fun args member => running args (by simp [member])) ?_ rest
      exact inserted_step stepped (fun args equal => running args (by simp [← equal])) start

end Writers

/-- As long as no `bootstrap` overlaps an `append` of its own instance: in every reachable
state the stored seqs are 1 to N, one for each `insert_one` that succeeded, the chain is
whole and ends in event N; a call of `append` that raises `RuntimeError` has inserted
nothing. -/
theorem writers_chain_safe {ι : Type u} [DecidableEq ι] {genesis : String}
    {actions : List (ι × SpineAction)} {state : Writers ι}
    (apart : Along (Writers.step genesis) (fun _ => Writers.BootstrapApart)
      (Writers.init genesis) actions)
    (reached : exec (Writers.step genesis) (Writers.init genesis) actions = some state) :
    (state.log.map (·.get "seq") =
      (List.range state.log.length).map fun index : Nat => Value.int (index + 1)) ∧
    state.inserted.length = state.log.length ∧
    (∃ head, verifyChain genesis state.log =
        .ok ⟨state.log.length, head, true, none, none⟩ ∧
      (state.log = [] → head = genesis) ∧
      ∀ doc ∈ state.log, doc.get "seq" = .int state.log.length →
        doc.get "hash" = .str head) ∧
    ∀ before during writer args, actions =
        before ++ (writer, .call args) :: (during ++ [(writer, .giveUp)]) →
      (∀ args, (writer, .call args) ∉ during) →
      ∀ earlier, exec (Writers.step genesis) (Writers.init genesis) before = some earlier →
        state.inserted.count writer = earlier.inserted.count writer := by
  have safe : Writers.Safe genesis state := by
    refine exec_induction_along (motive := fun _ => Writers.Safe genesis)
      (Writers.safe_init genesis) ?_ apart reached
    rintro _ _ ⟨who, action⟩ _ _ safe admitted stepped
    exact Writers.safe_step safe admitted stepped
  obtain ⟨tail, built⟩ := safe.built
  refine ⟨built.seqs, safe.inserted, ⟨tail.hash, built.verifyChain_eq, ?_, ?_⟩, ?_⟩
  · intro empty
    rw [empty] at built
    rw [built.unique .nil]
  · intro doc member seq
    exact built.hash_of_seq member seq
  · intro before during writer args split running earlier reachedEarlier
    rw [split, exec_append_some] at reached
    obtain ⟨middle, reachedMiddle, rest⟩ := reached
    cases reachedEarlier.symm.trans reachedMiddle
    obtain ⟨called, calling, rest⟩ := Option.bind_eq_some_iff.mp rest
    obtain ⟨ready, run, raising⟩ := exec_snoc.mp rest
    have kept : called.inserted = earlier.inserted := by
      obtain ⟨log, spine, taken, -, -, inserted⟩ := Writers.step_cases calling
      rw [inserted]
      rfl
    obtain ⟨log, spine, taken, -, -, inserted⟩ := Writers.step_cases raising
    have progress : EventSpine.InProgress (ready.spines writer).append := by
      cases EventSpine.step_cases taken with
      | giveUp phase _ =>
          rw [phase]
          trivial
    have same := Writers.inserted_run running (fun _ => by rw [kept]) run progress
    rw [inserted]
    exact same

/-- Two instances take one seq; the second one collides, rereads the tail and
appends after the first. -/
def collidingAppends : List (Nat × SpineAction) :=
  [(0, .call sampleArgs), (1, .call sampleArgs), (0, .take "a" sampleTime),
    (1, .take "b" sampleTime), (0, .insert), (1, .insert), (0, .finish), (1, .find),
    (1, .assign), (1, .take "c" sampleTime), (1, .insert)]

theorem writers_chain_safe_collision :
    ∃ state : Writers Nat,
      exec (Writers.step "genesis") (Writers.init "genesis") collidingAppends = some state ∧
      state.inserted = [0, 1] ∧ state.log.map (·.get "seq") = [.int 1, .int 2] ∧
      ∃ head, verifyChain "genesis" state.log = .ok ⟨2, head, true, none, none⟩ := by
  have inserted : (exec (Writers.step "genesis") (Writers.init "genesis")
      collidingAppends).map Writers.inserted = some [0, 1] := by decide +kernel
  have apart : Along (Writers.step "genesis") (fun _ => Writers.BootstrapApart)
      (Writers.init "genesis") collidingAppends := by decide +kernel
  obtain ⟨state, reached, inserted⟩ := Option.map_eq_some_iff.mp inserted
  obtain ⟨seqs, count, ⟨head, verified, -⟩, -⟩ := writers_chain_safe apart reached
  rw [inserted] at count
  rw [← count] at seqs verified
  exact ⟨state, reached, inserted, seqs, head, verified⟩

/-- Instance 0 has stored its event, and instance 1 the next one, when a `bootstrap` of
instance 0 assigns the tail it read: `append` then puts its own hash beside that seq. -/
def bootstrapBesideAppend : List (Nat × SpineAction) :=
  [(0, .call sampleArgs), (0, .take "a" sampleTime), (0, .insert), (1, .refreshCall),
    (1, .refreshRead), (1, .refreshAssign), (1, .call sampleArgs), (1, .take "b" sampleTime),
    (1, .insert), (0, .refreshCall), (0, .refreshRead), (0, .refreshAssign), (0, .finish),
    (0, .call sampleArgs), (0, .take "c" sampleTime), (0, .insert)]

theorem bootstrap_beside_append_breaks_chain :
    ∃ (state : Writers Nat) (report : ChainReport),
      exec (Writers.step auditGenesisHash) (Writers.init auditGenesisHash)
        bootstrapBesideAppend = some state ∧
      state.inserted = [0, 1, 0] ∧ verifyChain auditGenesisHash state.log = .ok report ∧
      report.intact = false ∧ report.brokenAtSeq = some 3 := by
  have ran : (exec (Writers.step auditGenesisHash) (Writers.init auditGenesisHash)
      bootstrapBesideAppend).map (fun state => (state.inserted,
        (verifyChain auditGenesisHash state.log).toOption.map fun report =>
          (report.intact, report.brokenAtSeq))) = some ([0, 1, 0], some (false, some 3)) := by
    decide +kernel
  obtain ⟨state, reached, facts⟩ := Option.map_eq_some_iff.mp ran
  obtain ⟨inserted, verified⟩ := Prod.mk.inj facts
  obtain ⟨report, answer, broken⟩ := Option.map_eq_some_iff.mp verified
  obtain ⟨broken, position⟩ := Prod.mk.inj broken
  refine ⟨state, report, reached, inserted, ?_, broken, position⟩
  cases given : verifyChain auditGenesisHash state.log with
  | ok other =>
      rw [given] at answer
      cases answer
      rfl
  | error _ =>
      rw [given] at answer
      cases answer

end OrderStream

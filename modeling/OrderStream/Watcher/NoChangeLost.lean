import OrderStream.Watcher.Lifecycle

/-! Whether the watcher's cache catches up with the collection. -/

namespace OrderStream

open Transition

namespace Lifecycle

def Untouched (state : Lifecycle) (position : Nat) (orderId : String) : Prop :=
  ∀ write ∈ state.writes.drop position, write.orderId ≠ orderId

/-- The changes from the position on bring the cache up to date.  It may have the first
of them already. -/
structure CatchesUp (state : Lifecycle) (position applied : Nat) : Prop where
  resumed : applied = position ∨ applied = position + 1
  inside : applied ≤ state.writes.length
  settled : ∀ orderId, state.Untouched position orderId → state.Shows orderId
  present : ∀ orderId, (state.cache.get? orderId).isSome =
    ((version state.initial state.writes applied).get? orderId).isSome

def Resumes (state : Lifecycle) (position : Nat) : Prop :=
  ∃ applied, state.CatchesUp position applied

structure Prepares (state : Lifecycle) (position : Nat) (args : AppendArgs)
    (write : Write) : Prop where
  found : state.writes[position]? = some write
  named : args.orderId = write.orderId
  present : args.after.isSome = write.result.isSome
  settled : state.Untouched (position + 1) write.orderId →
    Option.Rel Doc.SameGets args.after (state.orders.get? write.orderId)

def ShowsRead (state : Lifecycle) : Prop :=
  ∀ orderId, orderId ∉ state.stale → state.Shows orderId

structure Positioned (state : Lifecycle) (position : Nat) : Prop where
  token : state.token = none ∨ state.token = some position
  read : state.token = none → state.ShowsRead
  stale : state.token = none →
    ∀ write ∈ state.writes.drop position, write.orderId ∈ state.stale

def SoundIn (state : Lifecycle) : WatcherPhase → Prop
  | .scanning _ =>
      ∀ orderId, orderId ∉ state.stale →
        state.cache.get? orderId = none ∨ state.Shows orderId
  | .stopped => True
  | .down =>
      (∀ position, state.token = some position → state.Resumes position) ∧
        (state.token = none → state.ShowsRead)
  | .streaming position => state.Positioned position ∧ state.Resumes position
  | .appending position args =>
      state.Positioned position ∧ state.Resumes position ∧
        ∃ write, state.Prepares position args write
  | .adding position =>
      state.Positioned position ∧ state.CatchesUp (position + 1) (position + 1)

def ValidHistory (state : Lifecycle) : Prop :=
  ∀ position (write : Write), state.writes[position]? = some write →
    write.Valid (version state.initial state.writes position)

section

variable {state : Lifecycle} {write : Write} {position applied : Nat}

theorem orders_wrote (state : Lifecycle) (write : Write) :
    (state.wrote write).orders = write.apply state.orders := by
  unfold orders wrote
  rw [List.length_append, List.length_singleton, version_succ _ List.getElem?_concat_length,
    version_of_le _ _ (Nat.le_refl _)]

theorem shows_wrote {orderId : String} (ne : orderId ≠ write.orderId) :
    (state.wrote write).Shows orderId ↔ state.Shows orderId := by
  rw [Shows, orders_wrote, Write.get?_apply_of_ne _ _ ne]
  exact Iff.rfl

theorem untouched_wrote (inside : position ≤ state.writes.length) {orderId : String} :
    (state.wrote write).Untouched position orderId ↔
      state.Untouched position orderId ∧ write.orderId ≠ orderId := by
  unfold Untouched wrote
  rw [List.drop_append_of_le_length inside, List.forall_mem_append, List.forall_mem_singleton]

theorem Untouched.get?_orders {orderId : String} (untouched : state.Untouched position orderId)
    {seen : Nat} (later : position ≤ seen) (inside : seen ≤ state.writes.length) :
    (version state.initial state.writes seen).get? orderId = state.orders.get? orderId := by
  unfold orders
  rw [get?_version _ later untouched, get?_version _ (Nat.le_trans later inside) untouched]

theorem Untouched.back {orderId : String} (untouched : state.Untouched (position + 1) orderId)
    (found : state.writes[position]? = some write) (ne : orderId ≠ write.orderId) :
    state.Untouched position orderId := by
  obtain ⟨inside, equal⟩ := List.getElem?_eq_some_iff.mp found
  unfold Untouched
  rw [List.drop_eq_getElem_cons inside, equal]
  exact List.forall_mem_cons.mpr ⟨ne.symm, untouched⟩

theorem CatchesUp.wrote (catchesUp : state.CatchesUp position applied) (write : Write) :
    (state.wrote write).CatchesUp position applied := by
  have inside := catchesUp.inside
  have before : position ≤ state.writes.length := by
    rcases catchesUp.resumed with rfl | rfl <;> omega
  refine ⟨catchesUp.resumed, ?_, ?_, ?_⟩
  · unfold Lifecycle.wrote
    rw [List.length_append]
    exact Nat.le_add_right_of_le inside
  · intro orderId untouched
    obtain ⟨earlier, ne⟩ := (untouched_wrote before).mp untouched
    exact (shows_wrote ne.symm).mpr (catchesUp.settled orderId earlier)
  · intro orderId
    unfold Lifecycle.wrote
    rw [version_of_le _ _ inside]
    exact catchesUp.present orderId

theorem Resumes.wrote (resumes : state.Resumes position) (write : Write) :
    (state.wrote write).Resumes position := by
  obtain ⟨applied, catchesUp⟩ := resumes
  exact ⟨applied, catchesUp.wrote write⟩

theorem ShowsRead.wrote (shows : state.ShowsRead) (write : Write) :
    (state.wrote write).ShowsRead := by
  intro orderId fresh
  obtain ⟨ne, read⟩ := List.ne_and_not_mem_of_not_mem_cons fresh
  exact (shows_wrote ne).mpr (shows orderId read)

theorem Positioned.wrote (positioned : state.Positioned position) (write : Write) :
    (state.wrote write).Positioned position := by
  refine ⟨positioned.token, ?_, ?_⟩
  · intro missing
    exact (positioned.read missing).wrote write
  · intro missing later member
    unfold Lifecycle.wrote at member
    rw [List.drop_append] at member
    rcases List.mem_append.mp member with known | last
    · exact List.mem_cons_of_mem _ (positioned.stale missing later known)
    · rw [List.mem_singleton.mp (List.mem_of_mem_drop last)]
      exact List.mem_cons_self

theorem Prepares.wrote {args : AppendArgs} {prepared : Write}
    (prepares : state.Prepares position args prepared) (write : Write) :
    (state.wrote write).Prepares position args prepared := by
  obtain ⟨inside, -⟩ := List.getElem?_eq_some_iff.mp prepares.found
  refine ⟨?_, prepares.named, prepares.present, ?_⟩
  · unfold Lifecycle.wrote
    rw [List.getElem?_append_left inside]
    exact prepares.found
  · intro untouched
    obtain ⟨earlier, ne⟩ := (untouched_wrote inside).mp untouched
    rw [orders_wrote, Write.get?_apply_of_ne _ _ ne.symm]
    exact prepares.settled earlier

theorem SoundIn.wrote {phase : WatcherPhase} (sound : state.SoundIn phase) (write : Write) :
    (state.wrote write).SoundIn phase := by
  cases phase with
  | scanning reconciling =>
      intro orderId fresh
      obtain ⟨ne, read⟩ := List.ne_and_not_mem_of_not_mem_cons fresh
      rcases sound orderId read with missing | shows
      · exact Or.inl missing
      · exact Or.inr ((shows_wrote ne).mpr shows)
  | stopped => trivial
  | down =>
      obtain ⟨resumes, shows⟩ := sound
      constructor
      · intro position saved
        exact (resumes position saved).wrote write
      · intro missing
        exact (shows missing).wrote write
  | streaming position =>
      obtain ⟨positioned, resumes⟩ := sound
      exact ⟨positioned.wrote write, resumes.wrote write⟩
  | appending position args =>
      obtain ⟨positioned, resumes, prepared, prepares⟩ := sound
      exact ⟨positioned.wrote write, resumes.wrote write, prepared, prepares.wrote write⟩
  | adding position =>
      obtain ⟨positioned, catchesUp⟩ := sound
      exact ⟨positioned.wrote write, catchesUp.wrote write⟩

theorem shows_of_absent {orderId : String} (absent : state.cache.get? orderId = none)
    (read : orderId ∉ state.missed) : state.Shows orderId := by
  have gone : state.orders.get? orderId = none := by
    rw [PyDict.get?_eq_none_iff]
    intro present
    apply read
    rw [missed, List.mem_filter, PyDict.contains, absent]
    exact ⟨present, rfl⟩
  rw [Shows, absent, gone]
  exact .none

theorem Current.catchesUp (current : state.Current) :
    state.CatchesUp state.writes.length state.writes.length := by
  refine ⟨Or.inl rfl, Nat.le_refl _, ?_, ?_⟩
  · intro orderId _
    exact current orderId
  · intro orderId
    exact relIsSome (current orderId)

theorem CatchesUp.back (catchesUp : state.CatchesUp (position + 1) (position + 1)) :
    state.CatchesUp position (position + 1) := by
  refine ⟨Or.inr rfl, catchesUp.inside, ?_, catchesUp.present⟩
  intro orderId untouched
  apply catchesUp.settled orderId
  intro write member
  rw [← List.drop_drop] at member
  exact untouched write (List.mem_of_mem_drop member)

theorem CatchesUp.present_of_ne (catchesUp : state.CatchesUp position applied)
    (found : state.writes[position]? = some write) {orderId : String}
    (ne : orderId ≠ write.orderId) :
    (state.cache.get? orderId).isSome =
      ((version state.initial state.writes (position + 1)).get? orderId).isSome := by
  rw [catchesUp.present orderId]
  rcases catchesUp.resumed with rfl | rfl
  · rw [version_succ _ found, Write.get?_apply_of_ne _ _ ne]
  · rfl

theorem Untouched.get?_result (untouched : state.Untouched (position + 1) write.orderId)
    (found : state.writes[position]? = some write) :
    state.orders.get? write.orderId = write.result := by
  obtain ⟨inside, -⟩ := List.getElem?_eq_some_iff.mp found
  rw [← untouched.get?_orders (Nat.le_refl _) inside, version_succ _ found,
    Write.get?_apply_self]

theorem CatchesUp.cached (catchesUp : state.CatchesUp position applied) {orderId : String}
    {doc : Doc} (found : state.writes[position]? = some (.update orderId doc))
    (valid : (Write.update orderId doc).Valid
      (version state.initial state.writes position)) :
    (state.cache.get? orderId).isSome = true := by
  rw [catchesUp.present orderId]
  rcases catchesUp.resumed with rfl | rfl
  · exact valid
  · rw [version_succ _ found]
    exact congrArg Option.isSome (Write.get?_apply_self (.update orderId doc) _)

theorem cached_of_quiet {orderId : String} {doc found : Doc}
    (cached : (state.cache.get? orderId).isSome = true)
    {seen : Nat} {resumeToken : Option Doc} {clusterTime : Option ClusterTime}
    {correlationId : String}
    (lookup : (version state.initial state.writes seen).get? orderId = some found)
    (quiet : Watcher.appendArgs state.cache
      (state.delivered (.update orderId doc) seen resumeToken clusterTime) .update
        correlationId = none) :
    Option.Rel Doc.SameGets (state.cache.get? orderId) (some found) := by
  obtain ⟨before, known⟩ := Option.isSome_iff_exists.mp cached
  have fullDocument : (state.delivered (.update orderId doc) seen resumeToken
      clusterTime).fullDocument = some found := lookup
  rcases Watcher.appendArgs_eq_none quiet with unseen | ⟨-, after, sees, empty⟩
  · rw [fullDocument] at unseen
    cases unseen
  · rw [fullDocument] at sees
    cases sees
    change computeDiff (state.cache.get? orderId) _ = [] at empty
    rw [known] at empty ⊢
    exact .some ((Doc.sameGets_of_quiet empty).trans (Watcher.strip_agrees found).sameGets)

/-- The last update of an order passes without an event only if the cache shows it. -/
theorem shows_of_quiet {orderId : String} {doc : Doc}
    (found : state.writes[position]? = some (.update orderId doc))
    (untouched : state.Untouched (position + 1) orderId)
    (cached : (state.cache.get? orderId).isSome = true)
    {seen : Nat} (later : position < seen) (inside : seen ≤ state.writes.length)
    {resumeToken : Option Doc} {clusterTime : Option ClusterTime} {correlationId : String}
    (quiet : Watcher.appendArgs state.cache
      (state.delivered (.update orderId doc) seen resumeToken clusterTime) .update
        correlationId = none) :
    state.Shows orderId := by
  have final : state.orders.get? orderId = some doc := untouched.get?_result found
  have lookup := (untouched.get?_orders later inside).trans final
  rw [Shows, final]
  exact cached_of_quiet cached lookup quiet

theorem CatchesUp.skip (catchesUp : state.CatchesUp position applied)
    (found : state.writes[position]? = some write)
    (valid : write.Valid (version state.initial state.writes position))
    {seen : Nat} (later : position < seen) (inside : seen ≤ state.writes.length)
    {resumeToken : Option Doc} {clusterTime : Option ClusterTime} {correlationId : String}
    (quiet : Watcher.appendArgs state.cache (state.delivered write seen resumeToken clusterTime)
      write.op correlationId = none) :
    state.CatchesUp (position + 1) (position + 1) := by
  obtain ⟨orderId, doc, rfl⟩ := Write.update_of_quiet quiet
  have cached := catchesUp.cached found valid
  refine ⟨Or.inl rfl, Nat.le_trans later inside, ?_, ?_⟩
  · intro other untouched
    by_cases same : other = orderId
    · subst same
      exact shows_of_quiet found untouched cached later inside quiet
    · exact catchesUp.settled other (untouched.back found same)
  · intro other
    by_cases same : other = orderId
    · subst same
      rw [cached, version_succ _ found]
      exact (congrArg Option.isSome (Write.get?_apply_self (.update other doc) _)).symm
    · exact catchesUp.present_of_ne found same

theorem prepares_of_delivered (found : state.writes[position]? = some write)
    {seen : Nat} (later : position < seen) (inside : seen ≤ state.writes.length)
    {resumeToken : Option Doc} {clusterTime : Option ClusterTime} {correlationId : String}
    {args : AppendArgs}
    (prepared : Watcher.appendArgs state.cache
      (state.delivered write seen resumeToken clusterTime) write.op correlationId = some args) :
    state.Prepares position args write := by
  obtain ⟨after, sees, rfl⟩ := Watcher.appendArgs_eq_some prepared
  cases write with
  | insert orderId doc | replace orderId doc =>
      cases sees
      refine ⟨found, rfl, rfl, ?_⟩
      intro untouched
      rw [untouched.get?_result found]
      exact .some (Watcher.strip_agrees doc).sameGets
  | delete orderId =>
      cases sees
      refine ⟨found, rfl, rfl, ?_⟩
      intro untouched
      rw [untouched.get?_result found]
      exact .none
  | update orderId doc =>
      obtain ⟨seenDoc, lookup, rfl⟩ := Option.map_eq_some_iff.mp sees
      refine ⟨found, rfl, rfl, ?_⟩
      intro untouched
      have final := untouched.get?_result found
      -- nobody writes the order after this change, so the lookup found what it left
      have same : some seenDoc = some doc :=
        lookup.symm.trans ((untouched.get?_orders later inside).trans final)
      cases same
      rw [final]
      exact .some (Watcher.strip_agrees doc).sameGets

section

variable {args : AppendArgs} (phase : WatcherPhase)

theorem Prepares.shows_of_ne (prepares : state.Prepares position args write)
    {orderId : String} (ne : orderId ≠ write.orderId) (shows : state.Shows orderId) :
    { state with cache := Watcher.remember state.cache args, phase }.Shows orderId := by
  change Option.Rel _ ((Watcher.remember state.cache args).get? orderId)
    (state.orders.get? orderId)
  rw [Watcher.get?_remember_of_ne _ _ (prepares.named ▸ ne)]
  exact shows

theorem Prepares.catchesUp (prepares : state.Prepares position args write)
    (catchesUp : state.CatchesUp position applied) :
    { state with cache := Watcher.remember state.cache args, phase }.CatchesUp
      (position + 1) (position + 1) := by
  obtain ⟨inside, -⟩ := List.getElem?_eq_some_iff.mp prepares.found
  have remembered : (Watcher.remember state.cache args).get? write.orderId = args.after := by
    rw [← prepares.named, Watcher.get?_remember_self]
  refine ⟨Or.inl rfl, inside, ?_, ?_⟩
  · intro orderId untouched
    by_cases same : orderId = write.orderId
    · subst same
      change Option.Rel _ ((Watcher.remember state.cache args).get? write.orderId) _
      rw [remembered]
      exact prepares.settled untouched
    · apply prepares.shows_of_ne phase same
      exact catchesUp.settled orderId (Untouched.back untouched prepares.found same)
  · intro orderId
    change ((Watcher.remember state.cache args).get? orderId).isSome =
      ((version state.initial state.writes (position + 1)).get? orderId).isSome
    by_cases same : orderId = write.orderId
    · subst same
      rw [remembered, prepares.present, version_succ _ prepares.found, Write.get?_apply_self]
    · rw [Watcher.get?_remember_of_ne _ _ (prepares.named ▸ same)]
      exact catchesUp.present_of_ne prepares.found same

theorem Prepares.positioned (prepares : state.Prepares position args write)
    (positioned : state.Positioned position) :
    { state with cache := Watcher.remember state.cache args, phase }.Positioned position := by
  refine ⟨positioned.token, ?_, positioned.stale⟩
  intro missing orderId fresh
  apply prepares.shows_of_ne
  · intro same
    obtain ⟨inside, equal⟩ := List.getElem?_eq_some_iff.mp prepares.found
    have member : write ∈ state.writes.drop position := by
      rw [List.drop_eq_getElem_cons inside, equal]
      exact List.mem_cons_self
    exact fresh (same ▸ positioned.stale missing write member)
  · exact positioned.read missing orderId fresh

end

theorem CatchesUp.moved (catchesUp : state.CatchesUp position applied) (token : Option Nat)
    (phase : WatcherPhase) : { state with token, phase }.CatchesUp position applied :=
  ⟨catchesUp.resumed, catchesUp.inside, catchesUp.settled, catchesUp.present⟩

theorem SoundIn.moved {target : WatcherPhase} (sound : state.SoundIn target)
    (phase : WatcherPhase) : { state with phase }.SoundIn target := by
  have kept {position : Nat} (positioned : state.Positioned position) :
      { state with phase }.Positioned position :=
    ⟨positioned.token, positioned.read, positioned.stale⟩
  have resumed {position : Nat} :
      state.Resumes position → { state with phase }.Resumes position := by
    intro ⟨applied, catchesUp⟩
    exact ⟨applied, catchesUp.moved state.token phase⟩
  cases target with
  | scanning reconciling => exact sound
  | stopped => trivial
  | down =>
      refine ⟨?_, sound.2⟩
      intro position saved
      exact resumed (sound.1 position saved)
  | streaming position => exact ⟨kept sound.1, resumed sound.2⟩
  | appending position args =>
      obtain ⟨positioned, resumes, write, prepares⟩ := sound
      exact ⟨kept positioned, resumed resumes, write, prepares.found, prepares.named,
        prepares.present, prepares.settled⟩
  | adding position => exact ⟨kept sound.1, sound.2.moved state.token phase⟩

theorem SoundIn.shows_of_scanned {reconciling : Bool}
    (sound : state.SoundIn (.scanning reconciling)) {orderId : String}
    (fresh : orderId ∉ state.stale) (read : orderId ∉ state.missed) :
    state.Shows orderId := by
  rcases sound orderId fresh with absent | shows
  · exact shows_of_absent absent read
  · exact shows

theorem SoundIn.down (sound : state.SoundIn state.phase)
    (looping : state.phase.looping = true) : state.SoundIn .down := by
  have saved {position : Nat} (positioned : state.Positioned position)
      (resumes : state.Resumes position) : state.SoundIn .down := by
    refine ⟨?_, positioned.read⟩
    intro other token
    rcases positioned.token with missing | own
    · cases missing.symm.trans token
    · cases own.symm.trans token
      exact resumes
  cases phase : state.phase with
  | scanning reconciling =>
      rw [phase] at looping
      cases looping
  | stopped =>
      rw [phase] at looping
      cases looping
  | down =>
      rw [phase] at sound
      exact sound
  | streaming position =>
      rw [phase] at sound
      exact saved sound.1 sound.2
  | appending position args =>
      rw [phase] at sound
      exact saved sound.1 sound.2.1
  | adding position =>
      rw [phase] at sound
      exact saved sound.1 ⟨_, sound.2.back⟩

theorem positioned_of_saved (saved : state.token = some position) :
    state.Positioned position := by
  refine ⟨Or.inr saved, ?_, ?_⟩
  · intro missing
    cases saved.symm.trans missing
  · intro missing
    cases saved.symm.trans missing

theorem SoundIn.read {reconciling : Bool} (sound : state.SoundIn (.scanning reconciling))
    {orderId : String} {doc : Doc} (found : state.orders.get? orderId = some doc) :
    { state with
      cache := state.cache.set orderId (Watcher.strip doc)
      stale := state.stale.filter fun other => decide (other ≠ orderId) }.SoundIn
        (.scanning reconciling) := by
  intro other fresh
  change PyDict.get? (PyDict.set state.cache orderId _) other = none ∨
    Option.Rel _ (PyDict.get? (PyDict.set state.cache orderId _) other)
      (state.orders.get? other)
  by_cases same : other = orderId
  · subst same
    rw [PyDict.get?_set_self, found]
    exact Or.inr (.some (Watcher.strip_agrees doc).sameGets)
  · rw [PyDict.get?_set_of_ne _ _ same]
    apply sound other
    intro stale
    exact fresh (List.mem_filter.mpr ⟨stale, decide_eq_true same⟩)

theorem SoundIn.opened (sound : state.SoundIn .down)
    (fresh : state.token = none → ∀ orderId ∈ state.stale, state.Shows orderId) :
    state.SoundIn (.streaming (state.token.getD state.writes.length)) := by
  cases token : state.token with
  | some position => exact ⟨positioned_of_saved token, sound.1 position token⟩
  | none =>
      have current : state.Current := by
        intro orderId
        by_cases stale : orderId ∈ state.stale
        · exact fresh token orderId stale
        · exact sound.2 token orderId stale
      refine ⟨⟨Or.inl token, sound.2, ?_⟩, _, current.catchesUp⟩
      intro _ write member
      rw [Option.getD_none, List.drop_length] at member
      cases member

theorem SoundIn.scanFailed {reconciling : Bool}
    (sound : state.SoundIn (.scanning reconciling)) :
    (state.scanFailed reconciling).SoundIn (state.scanFailed reconciling).phase := by
  cases reconciling with
  | false => trivial
  | true =>
      constructor
      · intro position saved
        cases saved
      · intro _ orderId fresh
        rw [Lifecycle.scanFailed, if_pos rfl, List.mem_append, not_or] at fresh
        exact sound.shows_of_scanned fresh.2 fresh.1

theorem sound_step {next : Lifecycle} {action : LifecycleAction}
    (valid : state.ValidHistory) (sound : state.SoundIn state.phase)
    (opens : state.OpensFresh action) (stepped : step state action = some next) :
    next.SoundIn next.phase := by
  cases step_cases stepped with
  | wrote _ => exact sound.wrote _
  | read scanning found =>
      change SoundIn _ state.phase
      rw [scanning] at sound ⊢
      exact (sound.read found).moved _
  | scanned scanning exhausted =>
      rw [scanning] at sound
      constructor
      · intro position saved
        cases saved
      · intro _ orderId fresh
        exact sound.shows_of_scanned fresh fun missed => fresh (exhausted orderId missed)
  | opened down =>
      rw [down] at sound
      exact (sound.opened (opens rfl down)).moved _
  | skipped streaming found later inside quiet =>
      rw [streaming] at sound
      obtain ⟨-, applied, catchesUp⟩ := sound
      have caughtUp := catchesUp.skip found (valid _ _ found) later inside quiet
      exact ⟨positioned_of_saved rfl, _, caughtUp.moved _ _⟩
  | prepared streaming found later inside prepared =>
      rw [streaming] at sound
      have prepares := prepares_of_delivered found later inside prepared
      apply SoundIn.moved
      exact ⟨sound.1, sound.2, _, prepares⟩
  | appended appending =>
      rw [appending] at sound
      obtain ⟨positioned, ⟨applied, catchesUp⟩, write, prepares⟩ := sound
      exact ⟨prepares.positioned _ positioned, prepares.catchesUp _ catchesUp⟩
  | added adding =>
      rw [adding] at sound
      exact ⟨positioned_of_saved rfl, _, sound.2.moved _ _⟩
  | scanFailed _ scanning =>
      rw [scanning] at sound
      exact sound.scanFailed
  | reconciling _ =>
      intro orderId _
      exact Or.inl rfl
  | dropped looping => exact (sound.down looping).moved _

theorem validHistory_step {next : Lifecycle} {action : LifecycleAction}
    (valid : state.ValidHistory) (stepped : step state action = some next) :
    next.ValidHistory := by
  cases step_cases stepped with
  | @wrote write allowed =>
      intro position earlier found
      change (state.writes ++ [write])[position]? = some earlier at found
      change earlier.Valid (version state.initial (state.writes ++ [write]) position)
      rw [List.getElem?_append] at found
      split at found
      · rename_i inside
        rw [version_of_le _ _ (Nat.le_of_lt inside)]
        exact valid position earlier found
      · rename_i outside
        obtain ⟨bound, equal⟩ := List.getElem?_eq_some_iff.mp found
        rw [List.getElem_singleton] at equal
        rw [List.length_singleton] at bound
        have last : position = state.writes.length := by omega
        rw [← equal, last, version_of_le _ _ (Nat.le_refl _)]
        exact allowed
  | scanFailed _ _ =>
      unfold scanFailed
      split
      · exact valid
      · exact valid
  | _ => exact valid

theorem sound_of_reached {initial : Orders} {actions : List LifecycleAction}
    (along : Along step (fun _ => OpensFresh) { initial } actions)
    (reached : exec step { initial } actions = some state) :
    state.ValidHistory ∧ state.SoundIn state.phase := by
  refine exec_induction_along (motive := fun _ state =>
    state.ValidHistory ∧ state.SoundIn state.phase) ⟨?_, ?_⟩ ?_ along reached
  · intro position write found
    cases found
  · intro orderId _
    exact Or.inl rfl
  · intro _ middle action finish _ holds opens stepped
    exact ⟨validHistory_step holds.1 stepped, sound_step holds.1 holds.2 opens stepped⟩

theorem current_of_drained (sound : state.SoundIn state.phase)
    (drained : state.drained = true) : state.Current := by
  unfold Lifecycle.drained at drained
  split at drained
  · rename_i streaming
    rw [streaming] at sound
    obtain ⟨-, applied, catchesUp⟩ := sound
    intro orderId
    apply catchesUp.settled orderId
    intro write member
    rw [of_decide_eq_true drained, List.drop_length] at member
    cases member
  · cases drained

end

/-- The cache is up to date whenever the stream has delivered everything, throughout the
run, exactly when it is up to date whenever a stream is opened without a resume token. -/
theorem no_change_lost_iff (initial : Orders) (actions : List LifecycleAction) :
    (∀ before after state, actions = before ++ after →
        exec step { initial } before = some state →
          state.drained = true → state.Current) ↔
      Along step (fun _ => OpensFresh) { initial } actions := by
  constructor
  · intro caughtUp before action after split state reached opens down missing orderId _
    subst opens
    let opened := { state with phase := .streaming (state.token.getD state.writes.length) }
    have stepped : step state .openStream = some opened := by
      simp only [step, down]
      rfl
    have drained : opened.drained = true := by
      simp [opened, Lifecycle.drained, missing]
    have current : opened.Current :=
      caughtUp (before ++ [.openStream]) after opened (by simp [split])
        (exec_snoc.mpr ⟨state, reached, stepped⟩) drained
    exact current orderId
  · intro along before after state split reached drained
    have earlier : Along step (fun _ => OpensFresh) { initial } before := by
      intro first action rest equal
      apply along first action (rest ++ after)
      rw [split, equal, List.append_assoc, List.cons_append]
    exact current_of_drained (sound_of_reached earlier reached).2 drained

/-! One change seen, and a second write while the watcher sleeps after an error. -/

def sampleInsert (orderId : String) : LifecycleAction :=
  .write (.insert orderId (.ofList [("_id", .str orderId), ("price", .int 10)]))

def firstChange : List LifecycleAction :=
  [.scanEnd, .openStream, sampleInsert "1",
    .deliver 1 (some (.ofList [("_data", .str "8264")])) none "correlation", .appended, .added]

theorem no_change_lost_in_first :
    ∀ before after state, firstChange = before ++ after →
      exec step { initial := ∅ } before = some state →
        state.drained = true → state.Current := by
  apply (no_change_lost_iff ∅ firstChange).mpr
  intro earlier action later split state reached opens down missing
  subst opens
  rcases earlier with _ | ⟨first, _ | ⟨second, rest⟩⟩
  · cases split
  · cases split
    cases reached
    intro orderId stale
    cases stale
  · have opened : LifecycleAction.openStream ∈ firstChange.drop 2 := by
      rw [split]
      exact List.mem_append_right rest List.mem_cons_self
    simp [firstChange, sampleInsert] at opened

def reconciled : List LifecycleAction :=
  firstChange ++ [.pyMongoError, .read "1", .scanEnd, sampleInsert "2", .openStream]

theorem write_before_reopening_is_lost :
    ∃ state, exec step { initial := ∅ } reconciled = some state ∧ state.drained = true ∧
      ¬state.Current := by
  have facts : (exec step { initial := ∅ } reconciled).map (fun state =>
      (state.drained, (state.cache.get? "2").isSome, (state.orders.get? "2").isSome)) =
        some (true, false, true) := by
    decide +kernel
  obtain ⟨state, reached, values⟩ := Option.map_eq_some_iff.mp facts
  simp only [Prod.mk.injEq] at values
  obtain ⟨drained, missing, stored⟩ := values
  refine ⟨state, reached, drained, ?_⟩
  intro current
  have same := relIsSome (current "2")
  rw [missing, stored] at same
  cases same

end Lifecycle

end OrderStream

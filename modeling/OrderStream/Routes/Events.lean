import OrderStream.Routes.Served

/-! The replay endpoint, and a client that reads the log through it while the log grows. -/

namespace OrderStream

open Transition

inductive EventsAnswer where
  | ok (count : Nat) (events : List Doc)
  | httpException (statusCode : Nat) (detail : String)
  -- a parameter out of its bounds
  | unprocessable
  | serverError

def EventsAnswer.count? : EventsAnswer → Option Nat
  | .ok count _ => some count
  | .httpException _ _ | .unprocessable | .serverError => none

/-- The integers that BSON holds. -/
def isInt64 (value : Int) : Bool := decide (-2 ^ 63 ≤ value) && decide (value < 2 ^ 63)

/-- `replay_events` -/
def replayEvents (log : EventLog) (sinceSeq : Option Int) (sinceEvent : Option String)
    (limit : Int := 500) : EventsAnswer :=
  if limit < 1 ∨ 5000 < limit then .unprocessable
  else if sinceSeq.isNone && sinceEvent.isNone then
    .httpException 400 "provide since_seq or since_event"
  else if !sinceSeq.all isInt64 then
    -- `OverflowError` where the query is encoded
    .serverError
  else
    match replaySince log sinceSeq sinceEvent limit.toNat with
    | .error _ => .serverError
    | .ok docs =>
        let events := docs.map servedDoc
        -- `JSONResponse` raises
        if events.all Doc.isFinite then .ok events.length events else .serverError

theorem all_finite_served (docs : List Doc) :
    (docs.map servedDoc).all Doc.isFinite = docs.all Doc.isFinite := by
  rw [List.all_map]
  congr 1
  funext doc
  exact isFinite_servedDoc doc

section

variable {log : EventLog} {docs : List Doc} {limit : Int}

theorem replayEvents_of_replaySince {sinceSeq : Option Int} {sinceEvent : Option String}
    (given : (sinceSeq.isNone && sinceEvent.isNone) = false)
    (int64 : sinceSeq.all isInt64 = true) (positive : 1 ≤ limit) (atMost : limit ≤ 5000)
    (found : replaySince log sinceSeq sinceEvent limit.toNat = .ok docs) :
    replayEvents log sinceSeq sinceEvent limit =
      if docs.all Doc.isFinite then .ok docs.length (docs.map servedDoc) else .serverError := by
  rw [replayEvents, if_neg (by omega), if_neg (by simp [given]), if_neg (by simp [int64]), found]
  simp only [all_finite_served, List.length_map]

theorem replayEvents_later {start : Int} (int64 : isInt64 start = true)
    (finite : ∀ doc ∈ log, laterThan start doc = true → doc.isFinite = true)
    (positive : 1 ≤ limit) (atMost : limit ≤ 5000) :
    let docs := cursorLimit (some limit.toNat) (sortBySeq (log.filter (laterThan start)))
    replayEvents log (some start) none limit = .ok docs.length (docs.map servedDoc) := by
  intro docs
  rw [replayEvents_of_replaySince (by simp) (by simpa using int64) positive atMost
    (replaySince_seq log start limit.toNat), if_pos]
  rw [List.all_eq_true]
  intro doc member
  have listed := (cursorLimit_sublist _ _).subset member
  rw [sortBySeq, List.mem_insertionSort, List.mem_filter] at listed
  exact finite doc listed.1 listed.2

theorem bounds_of_answered {start : Int} {count : Nat} {events : List Doc}
    (answered : replayEvents log (some start) none limit = .ok count events) :
    isInt64 start = true ∧ 1 ≤ limit ∧ limit ≤ 5000 := by
  unfold replayEvents at answered
  split at answered
  · cases answered
  · rename_i within
    rw [if_neg (by simp)] at answered
    split at answered
    · cases answered
    · rename_i held
      refine ⟨by simpa using held, ?_, ?_⟩ <;> omega

end

structure EventsReader where
  log : EventLog
  sinceSeq : Int
  events : List Doc := []

inductive ReaderAction where
  | append (draft : Draft)
  | request (limit : Int)

namespace EventsReader

def answer (reader : EventsReader) (limit : Int) : EventsAnswer :=
  replayEvents reader.log (some reader.sinceSeq) none limit

def receive (reader : EventsReader) (events : List Doc) : EventsReader :=
  { reader with
    sinceSeq := match events.getLast? with
      | some last => seqOf last
      | none => reader.sinceSeq
    events := reader.events ++ events }

def step (reader : EventsReader) : ReaderAction → Option EventsReader
  | .append draft =>
      if ∀ stored ∈ reader.log, seqOf stored < draft.seq then
        (insertOne reader.log draft.storageDoc).map fun log => { reader with log }
      else none
  | .request limit =>
      match reader.answer limit with
      | .ok _ events => some (reader.receive events)
      | _ => some reader

variable {reader next : EventsReader} {start : Int}

inductive Step (reader : EventsReader) : ReaderAction → EventsReader → Prop where
  | appended {draft : Draft} {log : EventLog} :
      (∀ stored ∈ reader.log, seqOf stored < draft.seq) →
        insertOne reader.log draft.storageDoc = some log →
          Step reader (.append draft) { reader with log }
  | answered {limit : Int} {count : Nat} {events : List Doc} :
      reader.answer limit = .ok count events →
        Step reader (.request limit) (reader.receive events)
  | refused {limit : Int} : (∀ count events, reader.answer limit ≠ .ok count events) →
      Step reader (.request limit) reader

theorem step_cases {action : ReaderAction} (stepped : step reader action = some next) :
    Step reader action next := by
  cases action with
  | append draft =>
      simp only [step] at stepped
      split at stepped
      · obtain ⟨log, inserted, rfl⟩ := Option.map_eq_some_iff.mp stepped
        exact .appended ‹_› inserted
      · cases stepped
  | request limit =>
      simp only [step] at stepped
      split at stepped
      · cases stepped
        exact .answered ‹_›
      · rename_i other
        cases stepped
        exact .refused other

structure Sound (start : Int) (reader : EventsReader) (returned : List Doc) : Prop where
  replay : ReplayClient.Sound start ⟨reader.log, .seq reader.sinceSeq, returned⟩ reader.sinceSeq
  events : reader.events = returned.map servedDoc
  finite : ∀ doc ∈ returned, doc.isFinite = true

/-- A request is answered with the next events, unless one of them cannot be served. -/
theorem answer_eq {returned : List Doc} (sound : Sound start reader returned)
    (int64 : isInt64 reader.sinceSeq = true) {limit : Int} (positive : 1 ≤ limit)
    (atMost : limit ≤ 5000) :
    reader.answer limit =
      let page := (Paging.later seqOf reader.sinceSeq reader.log).take limit.toNat
      if page.all Doc.isFinite then .ok page.length (page.map servedDoc) else .serverError :=
  replayEvents_of_replaySince (by simp) (by simpa using int64) positive atMost
    (sound.replay.numbered.replaySince_eq reader.sinceSeq (by omega))

theorem receive_served {docs : List Doc} (numbered : Numbered reader.log)
    (within : ∀ doc ∈ docs, doc ∈ reader.log) (returned : List Doc) :
    ReplayClient.receive ⟨reader.log, .seq reader.sinceSeq, returned⟩ docs =
      ⟨reader.log, .seq (reader.receive (docs.map servedDoc)).sinceSeq, returned ++ docs⟩ := by
  simp only [ReplayClient.receive, receive, List.getLast?_map]
  cases ends : docs.getLast? with
  | none => rfl
  | some last =>
      have stored := numbered.numbers last (within last (List.mem_of_getLast? ends))
      simp only [Option.map_some, seqOf_servedDoc stored]

theorem Sound.receive {returned : List Doc} (sound : Sound start reader returned)
    {limit : Nat}
    (finite : ((Paging.later seqOf reader.sinceSeq reader.log).take limit).all Doc.isFinite =
      true) :
    Sound start
        (reader.receive
          (((Paging.later seqOf reader.sinceSeq reader.log).take limit).map servedDoc))
        (returned ++ (Paging.later seqOf reader.sinceSeq reader.log).take limit) ∧
      Paging.later seqOf (reader.receive
          (((Paging.later seqOf reader.sinceSeq reader.log).take limit).map
            servedDoc)).sinceSeq reader.log =
        (Paging.later seqOf reader.sinceSeq reader.log).drop limit := by
  obtain ⟨cursor, moved, rest⟩ := sound.replay.receive limit
  have within (doc : Doc)
      (member : doc ∈ (Paging.later seqOf reader.sinceSeq reader.log).take limit) :
      doc ∈ reader.log := (Paging.mem_later.mp (List.mem_of_mem_take member)).1
  rw [receive_served sound.replay.numbered within] at moved
  have same := moved.since
  cases same
  refine ⟨⟨moved, ?_, ?_⟩, rest⟩
  · rw [EventsReader.receive, sound.events, List.map_append]
  · intro doc member
    rcases List.mem_append.mp member with known | paged
    · exact sound.finite doc known
    · exact List.all_eq_true.mp finite doc paged

theorem Sound.step {returned : List Doc} (sound : Sound start reader returned)
    {action : ReaderAction} (stepped : step reader action = some next) :
    ∃ more, Sound start next (returned ++ more) := by
  cases step_cases stepped with
  | appended atTail inserted =>
      refine ⟨[], ?_⟩
      rw [List.append_nil]
      exact ⟨sound.replay.append atTail inserted, sound.events, sound.finite⟩
  | refused _ =>
      refine ⟨[], ?_⟩
      rw [List.append_nil]
      exact sound
  | @answered limit count events answered =>
      obtain ⟨int64, positive, atMost⟩ := bounds_of_answered answered
      rw [answer_eq sound int64 positive atMost] at answered
      dsimp only at answered
      split at answered
      · cases answered
        exact ⟨_, (sound.receive ‹_›).1⟩
      · cases answered

theorem sound_init {log : EventLog} (numbered : Numbered log) (start : Int) :
    Sound start { log, sinceSeq := start } [] where
  replay := ReplayClient.sound_init numbered start
  events := rfl
  finite doc member := by cases member

theorem sound_reached {log : EventLog} (numbered : Numbered log)
    {actions : List ReaderAction}
    (reached : exec step { log, sinceSeq := start } actions = some reader) :
    ∃ returned, Sound start reader returned := by
  refine exec_invariant (motive := fun reader => ∃ returned, Sound start reader returned)
    ⟨[], sound_init numbered start⟩ ?_ reached
  rintro state action finish ⟨returned, sound⟩ stepped
  obtain ⟨more, onward⟩ := sound.step stepped
  exact ⟨_, onward⟩

/-- Requests for one event each read on to the first one that cannot be served. -/
theorem Sound.read_on {returned : List Doc} (sound : Sound start reader returned)
    (int64 : isInt64 reader.sinceSeq = true)
    (stored : ∀ doc ∈ reader.log, isInt64 (seqOf doc) = true) :
    ∃ requests finish, (∀ action ∈ requests, action = .request 1) ∧
      exec EventsReader.step reader requests = some finish ∧ finish.log = reader.log ∧
      finish.events = reader.events ++
        ((Paging.later seqOf reader.sinceSeq reader.log).takeWhile Doc.isFinite).map
          servedDoc := by
  generalize behind : Paging.later seqOf reader.sinceSeq reader.log = docs
  induction docs generalizing reader returned with
  | nil => exact ⟨[], reader, by simp, rfl, rfl, by simp⟩
  | cons doc rest ih =>
      cases finite : doc.isFinite with
      | false => exact ⟨[], reader, by simp, rfl, rfl, by simp [finite]⟩
      | true =>
          have page : (Paging.later seqOf reader.sinceSeq reader.log).take 1 = [doc] := by
            rw [behind]
            rfl
          have all : ((Paging.later seqOf reader.sinceSeq reader.log).take 1).all
              Doc.isFinite = true := by
            simp [page, finite]
          obtain ⟨moved, left⟩ := sound.receive all
          have dropped : (Paging.later seqOf reader.sinceSeq reader.log).drop 1 = rest := by
            rw [behind]
            rfl
          have inside : doc ∈ reader.log := by
            have later : doc ∈ Paging.later seqOf reader.sinceSeq reader.log := by
              rw [behind]
              exact List.mem_cons_self
            exact (Paging.mem_later.mp later).1
          have onward : isInt64 (seqOf (servedDoc doc)) = true := by
            rw [seqOf_servedDoc (sound.replay.numbered.numbers doc inside)]
            exact stored doc inside
          obtain ⟨requests, finish, single, ran, kept, events⟩ :=
            ih moved (by rw [page]; exact onward) stored (left.trans dropped)
          refine ⟨.request 1 :: requests, finish, ?_, ?_, kept, ?_⟩
          · intro action member
            rcases List.mem_cons.mp member with same | later
            · exact same
            · exact single action later
          · have answered : reader.answer 1 = _ := answer_eq sound int64 (by omega) (by omega)
            rw [exec, EventsReader.step, answered]
            dsimp only
            rw [if_pos (by simpa using all)]
            exact ran
          · rw [events, EventsReader.receive, page, List.takeWhile_cons_of_pos finite,
              List.map_cons, List.append_assoc]
            rfl

/-- A client gets the events in order up to the first with NaN or an infinity in it, and can
always read on to there; no request brings it past that one. -/
theorem reads_to_first_nonfinite {log : EventLog} (numbered : Numbered log)
    (int64 : isInt64 start = true) {actions : List ReaderAction}
    (reached : exec step { log, sinceSeq := start } actions = some reader)
    (stored : ∀ doc ∈ reader.log, isInt64 (seqOf doc) = true) :
    reader.events <+:
        ((Paging.later seqOf start reader.log).takeWhile Doc.isFinite).map servedDoc ∧
      ∃ requests finish, (∀ action ∈ requests, action = .request 1) ∧
        exec step reader requests = some finish ∧
        finish.events =
          ((Paging.later seqOf start reader.log).takeWhile Doc.isFinite).map servedDoc := by
  obtain ⟨returned, sound⟩ := sound_reached numbered reached
  have whole : (Paging.later seqOf start reader.log).takeWhile Doc.isFinite =
      returned ++ (Paging.later seqOf reader.sinceSeq reader.log).takeWhile Doc.isFinite := by
    rw [← sound.replay.split]
    exact List.takeWhile_append_of_pos sound.finite
  have cursor : isInt64 reader.sinceSeq = true := by
    rcases sound.replay.reached with same | ⟨last, known, same, -⟩
    · rw [same]
      exact int64
    · rw [← same]
      exact stored last known
  obtain ⟨requests, finish, single, ran, -, events⟩ := sound.read_on cursor stored
  constructor
  · rw [sound.events, whole, List.map_append]
    exact List.prefix_append _ _
  · refine ⟨requests, finish, single, ran, ?_⟩
    rw [events, sound.events, whole, List.map_append]

open ReplayClient (sampleDraft sampleLog sampleLog_numbered)

def nanDraft : Draft where
  args := { sampleArgs with after := some (.ofList [("price", .float .nan)]) }
  eventId := "b"
  ts := sampleTime
  seq := 2
  prevHash := auditGenesisHash

theorem reads_to_first_nonfinite_of_nan :
    ∃ reader,
      exec step { log := [(sampleDraft 1 "a").storageDoc], sinceSeq := 0 }
          [.append nanDraft, .append (sampleDraft 3 "c"), .request 500, .request 1,
            .request 1] = some reader ∧
        reader.log.length = 3 ∧ reader.events.length = 1 ∧
        reader.events <+:
          ((Paging.later seqOf 0 reader.log).takeWhile Doc.isFinite).map servedDoc := by
  have ran : (exec step { log := [(sampleDraft 1 "a").storageDoc], sinceSeq := 0 }
      [.append nanDraft, .append (sampleDraft 3 "c"), .request 500, .request 1,
        .request 1]).map (fun reader => (reader.log.length, reader.events.length,
          decide (∀ doc ∈ reader.log, isInt64 (seqOf doc) = true))) = some (3, 1, true) := by
    decide +kernel
  obtain ⟨reader, reached, facts⟩ := Option.map_eq_some_iff.mp ran
  simp only [Prod.mk.injEq, decide_eq_true_iff] at facts
  obtain ⟨length, read, stored⟩ := facts
  have numbered : Numbered [(sampleDraft 1 "a").storageDoc] := by
    constructor
    · intro doc member
      rw [List.mem_singleton.mp member, Draft.seqOf_storageDoc]
      exact Draft.get_seq _
    · exact List.nodup_singleton _
  exact ⟨reader, reached, length, read,
    (reads_to_first_nonfinite numbered (by decide) reached stored).1⟩

theorem auditable_step {action : ReaderAction}
    (auditable : ∀ doc ∈ reader.log, Auditable doc) (stepped : step reader action = some next) :
    ∀ doc ∈ next.log, Auditable doc := by
  cases step_cases stepped with
  | @appended draft log atTail inserted =>
      intro doc member
      dsimp only at member
      rw [(insertOne_eq_some inserted).1] at member
      rcases List.mem_append.mp member with known | last
      · exact auditable doc known
      · rw [List.mem_singleton.mp last]
        exact auditable_storageDoc draft
  | answered _ => exact auditable
  | refused _ => exact auditable

theorem later_eq_sortBySeq {log : EventLog} (numbered : Numbered log)
    (before : ∀ doc ∈ log, start < seqOf doc) :
    Paging.later seqOf start log = sortBySeq log := by
  rw [sortBySeq_eq_insertionSort numbered.numbers, Paging.later, List.filter_eq_self.mpr]
  intro doc member
  exact decide_eq_true (before doc member)

/-- Whoever reads the log from its start until a page comes empty, and walks the chain over
what was served, comes to the report that `verify_chain` gives at that time. -/
theorem served_chain_verified {log : EventLog} (numbered : Numbered log)
    (auditable : ∀ doc ∈ log, Auditable doc) {actions : List ReaderAction}
    (reached : exec step { log, sinceSeq := start } actions = some reader)
    (before : ∀ doc ∈ reader.log, start < seqOf doc) {limit : Int}
    (ended : (reader.answer limit).count? = some 0) (genesis : String) :
    verifyLoop genesis 0 reader.events = verifyChain genesis reader.log := by
  obtain ⟨returned, sound⟩ := sound_reached numbered reached
  have known : ∀ doc ∈ reader.log, Auditable doc :=
    exec_invariant (motive := fun reader => ∀ doc ∈ reader.log, Auditable doc) auditable
      (fun _ _ _ auditable stepped => auditable_step auditable stepped) reached
  have nothing : Paging.later seqOf reader.sinceSeq reader.log = [] := by
    cases answered : reader.answer limit with
    | ok count events =>
        obtain ⟨int64, positive, atMost⟩ := bounds_of_answered answered
        rw [answer_eq sound int64 positive atMost] at ended
        dsimp only at ended
        split at ended
        · have none := List.length_eq_zero_iff.mp (Option.some.inj ended)
          rcases List.take_eq_nil_iff.mp none with zero | empty
          · omega
          · exact empty
        · cases ended
    | httpException _ _ | unprocessable | serverError =>
        rw [answered] at ended
        cases ended
  have split : returned = sortBySeq reader.log := by
    rw [← later_eq_sortBySeq sound.replay.numbered before, ← sound.replay.split, nothing,
      List.append_nil]
  have listed (doc : Doc) (member : doc ∈ returned) : Auditable doc := by
    rw [split, sortBySeq, List.mem_insertionSort] at member
    exact known doc member
  rw [sound.events, verifyLoop_served listed, verifyChain, cursorLimit, ← split]

theorem served_chain_verified_of_growing_log :
    ∃ reader,
      exec step { log := sampleLog, sinceSeq := 0 }
          [.request 1, .append (sampleDraft 7 "g"), .request 500] = some reader ∧
        reader.events.length = 3 ∧
        verifyLoop auditGenesisHash 0 reader.events = verifyChain auditGenesisHash reader.log := by
  have ran : (exec step { log := sampleLog, sinceSeq := 0 }
      [.request 1, .append (sampleDraft 7 "g"), .request 500]).map (fun reader =>
        (reader.events.length, (reader.answer 500).count?,
          decide (∀ doc ∈ reader.log, 0 < seqOf doc))) = some (3, some 0, true) := by
    decide +kernel
  obtain ⟨reader, reached, facts⟩ := Option.map_eq_some_iff.mp ran
  simp only [Prod.mk.injEq, decide_eq_true_iff] at facts
  obtain ⟨read, ended, before⟩ := facts
  refine ⟨reader, reached, read, served_chain_verified sampleLog_numbered ?_ reached before
    ended auditGenesisHash⟩
  intro doc member
  simp only [sampleLog, List.mem_cons, List.not_mem_nil, or_false] at member
  rcases member with rfl | rfl
  · exact auditable_storageDoc _
  · exact auditable_storageDoc _

end EventsReader

end OrderStream

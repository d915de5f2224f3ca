import OrderStream.Spine.Chain

/-! What `verify_chain` makes of documents that no append wrote. -/

namespace OrderStream

/-- The loop of `verify_chain` on a cursor that yields these documents and then ends, or
raises where the driver fails. -/
def verifyCursor (failure : Option PyError) (prev : String) (verified : Nat) :
    List Doc → Except PyError ChainReport
  | [] =>
      match failure with
      | none => .ok ⟨verified, prev, true, none, none⟩
      | some error => .error error
  | doc :: rest =>
      let expected := computeHash prev (hashPayloadFromDoc doc)
      if !(doc.get "prev_hash").pyEq (.str prev) ||
          !(doc.get "hash").pyEq (.str expected) then do
        let seq ← subscript doc "seq"
        let brokenAt ← pyInt seq
        let brokenEventId ← subscript doc "event_id"
        .ok ⟨verified, prev, false, some brokenAt, some brokenEventId⟩
      else
        verifyCursor failure expected (verified + 1) rest

theorem verifyChain_eq_verifyCursor (genesis : String) (log : EventLog) (limit : Option Nat) :
    verifyChain genesis log limit =
      verifyCursor none genesis 0 (cursorLimit limit (sortBySeq log)) := by
  have same (prev : String) (verified : Nat) (docs : List Doc) :
      verifyLoop prev verified docs = verifyCursor none prev verified docs := by
    induction docs generalizing prev verified with
    | nil => rfl
    | cons doc rest ih =>
        simp only [verifyLoop, verifyCursor, ih]
  exact same genesis 0 _

theorem verifyCursor_cons (failure : Option PyError) (prev : String) (verified : Nat)
    (doc : Doc) (rest : List Doc) :
    verifyCursor failure prev verified (doc :: rest) =
      match chainCheck prev doc with
      | none => reportOf verified ⟨0, prev, some doc⟩
      | some expected => verifyCursor failure expected (verified + 1) rest := by
  rw [verifyCursor]
  simp only [chainCheck]
  split
  · rfl
  · rfl

theorem verifyCursor_eq_reportOf (failure : Option PyError) (prev : String) (verified : Nat)
    (docs : List Doc) :
    verifyCursor failure prev verified docs =
      match failure, (HashChain.walk chainCheck prev docs).broken with
      | some error, none => .error error
      | _, _ => reportOf verified (HashChain.walk chainCheck prev docs) := by
  induction docs generalizing prev verified with
  | nil => cases failure <;> rfl
  | cons doc rest ih =>
      rw [verifyCursor_cons, HashChain.walk]
      cases chainCheck prev doc with
      | none => cases failure <;> rfl
      | some expected =>
          simp only [ih, reportOf, Nat.add_assoc, Nat.add_comm 1]

def recomputedHead (genesis : String) (docs : List Doc) : String :=
  docs.foldl (fun prev doc => computeHash prev (hashPayloadFromDoc doc)) genesis

def Mismatched (prev : String) (doc : Doc) : Prop :=
  doc.get "prev_hash" ≠ .str prev ∨
    doc.get "hash" ≠ .str (computeHash prev (hashPayloadFromDoc doc))

def SomeMismatch (genesis : String) (docs : List Doc) : Prop :=
  ∃ before doc after, docs = before ++ doc :: after ∧
    Mismatched (recomputedHead genesis before) doc

def FirstMismatch (genesis : String) (docs : List Doc) (doc : Doc) : Prop :=
  ∃ before after, docs = before ++ doc :: after ∧ ¬SomeMismatch genesis before ∧
    Mismatched (recomputedHead genesis before) doc

/-- The document has an `event_id`, and a `seq` that is a number to `int`. -/
structure Locatable (doc : Doc) : Prop where
  seq : ∃ seq, doc.get? "seq" = some seq ∧ seq.IntLike
  eventId : doc.contains "event_id" = true

theorem chainCheck_eq_none_iff {prev : String} {doc : Doc} :
    chainCheck prev doc = none ↔ Mismatched prev doc := by
  simp only [chainCheck, Mismatched, ite_eq_left_iff, reduceCtorEq, imp_false, not_not,
    Bool.or_eq_true, Bool.not_eq_true', ← Bool.not_eq_true, Value.pyEq_str_iff, ne_eq]

section

variable {genesis : String} {docs : List Doc}

theorem recomputedHead_of_linked {head : String}
    (linked : HashChain.Linked chainCheck genesis docs head) :
    recomputedHead genesis docs = head := by
  induction linked with
  | nil _ => rfl
  | cons extended _ ih =>
      rw [(chainCheck_eq_some_iff.mp extended).2.2] at ih
      exact ih

theorem linked_iff_no_mismatch :
    HashChain.Linked chainCheck genesis docs (recomputedHead genesis docs) ↔
      ¬SomeMismatch genesis docs := by
  constructor
  · rintro linked ⟨before, doc, after, rfl, mismatched⟩
    obtain ⟨middle, earlier, later⟩ := HashChain.linked_append.mp linked
    rw [recomputedHead_of_linked earlier] at mismatched
    cases later with
    | cons extended _ =>
        rw [chainCheck_eq_none_iff.mpr mismatched] at extended
        cases extended
  · intro none
    cases broken : (HashChain.walk chainCheck genesis docs).broken with
    | none =>
        have linked := HashChain.linked_of_walk broken
        rwa [recomputedHead_of_linked linked]
    | some doc =>
        obtain ⟨before, after, middle, split, linked, stops⟩ :=
          HashChain.walk_broken_iff.mp broken
        refine absurd ⟨before, doc, after, split, ?_⟩ none
        rw [recomputedHead_of_linked linked]
        exact chainCheck_eq_none_iff.mp stops

theorem walk_broken_iff_firstMismatch {doc : Doc} :
    (HashChain.walk chainCheck genesis docs).broken = some doc ↔
      FirstMismatch genesis docs doc := by
  rw [HashChain.walk_broken_iff]
  constructor
  · rintro ⟨before, after, middle, split, linked, stops⟩
    have head := recomputedHead_of_linked linked
    subst head
    exact ⟨before, after, split, linked_iff_no_mismatch.mp linked,
      chainCheck_eq_none_iff.mp stops⟩
  · rintro ⟨before, after, split, none, mismatched⟩
    exact ⟨before, after, _, split, linked_iff_no_mismatch.mpr none,
      chainCheck_eq_none_iff.mpr mismatched⟩

theorem someMismatch_iff :
    SomeMismatch genesis docs ↔
      ∃ doc, (HashChain.walk chainCheck genesis docs).broken = some doc := by
  constructor
  · intro mismatch
    cases broken : (HashChain.walk chainCheck genesis docs).broken with
    | none =>
        have linked := HashChain.linked_of_walk broken
        rw [← recomputedHead_of_linked linked] at linked
        exact absurd mismatch (linked_iff_no_mismatch.mp linked)
    | some doc => exact ⟨doc, rfl⟩
  · rintro ⟨doc, broken⟩
    obtain ⟨before, after, split, -, mismatched⟩ := walk_broken_iff_firstMismatch.mp broken
    exact ⟨before, doc, after, split, mismatched⟩

end

theorem reportOf_broken_iff (verified : Nat) {walk : HashChain.Walk String Doc} {doc : Doc}
    (broken : walk.broken = some doc) :
    (∃ report, reportOf verified walk = .ok report ∧ report.intact = false) ↔
      Locatable doc := by
  rw [reportOf, broken]
  constructor
  · rintro ⟨report, reported, -⟩
    obtain ⟨seq, gotSeq, reported⟩ := bind_eq_ok reported
    obtain ⟨number, converted, reported⟩ := bind_eq_ok reported
    obtain ⟨eventId, gotEventId, -⟩ := bind_eq_ok reported
    unfold subscript at gotSeq gotEventId
    refine ⟨⟨seq, ?_, (pyInt_ok_iff seq).mp ⟨number, converted⟩⟩, ?_⟩
    · split at gotSeq
      · cases gotSeq
        assumption
      · cases gotSeq
    · split at gotEventId
      · rename_i present
        rw [PyDict.contains, present]
        rfl
      · cases gotEventId
  · rintro ⟨⟨seq, stored, intLike⟩, present⟩
    obtain ⟨number, converted⟩ := (pyInt_ok_iff seq).mpr intLike
    obtain ⟨eventId, found⟩ := Option.isSome_iff_exists.mp present
    refine ⟨⟨verified + walk.verified, walk.head, false, some number, some eventId⟩, ?_,
      rfl⟩
    simp [subscript, stored, converted, found, bind, Except.bind]

/-- A report came back, and it finds a mismatch where there is one. -/
def Reports (genesis : String) (docs : List Doc) (result : Except PyError ChainReport) :
    Prop :=
  ∃ report, result = .ok report ∧ (SomeMismatch genesis docs → report.intact = false)

/-- Whatever a cursor yields before it ends or raises, the loop reports a mismatch iff the
first mismatched document can be located. -/
theorem verifyCursor_reports_iff (genesis : String) (docs : List Doc)
    (failure : Option PyError) :
    Reports genesis docs (verifyCursor failure genesis 0 docs) ↔
      (∀ doc, FirstMismatch genesis docs doc → Locatable doc) ∧
        (SomeMismatch genesis docs ∨ failure = none) := by
  rw [verifyCursor_eq_reportOf]
  simp only [Reports, someMismatch_iff, ← walk_broken_iff_firstMismatch]
  cases broken : (HashChain.walk chainCheck genesis docs).broken with
  | none =>
      cases failure with
      | none => simp [reportOf, broken]
      | some error => simp
  | some doc =>
      have located := reportOf_broken_iff 0 broken
      cases failure with
      | none => simpa using located
      | some error => simpa using located

/-- `verify_chain` returns, for every content of the log and every order in which the
server sorts it, a report that finds a mismatch where there is one, iff the first
mismatched document has an `event_id` and a `seq` that `int` takes. -/
theorem verifyChain_reports_iff (genesis : String) :
    (∀ log limit,
      Reports genesis (cursorLimit limit (sortBySeq log)) (verifyChain genesis log limit) ↔
        ∀ doc, FirstMismatch genesis (cursorLimit limit (sortBySeq log)) doc →
          Locatable doc) ∧
      ∀ docs failure,
        Reports genesis docs (verifyCursor failure genesis 0 docs) ↔
          (∀ doc, FirstMismatch genesis docs doc → Locatable doc) ∧
            (SomeMismatch genesis docs ∨ failure = none) := by
  refine ⟨?_, verifyCursor_reports_iff genesis⟩
  intro log limit
  rw [verifyChain_eq_verifyCursor, verifyCursor_reports_iff]
  exact and_iff_left (Or.inr rfl)

def unsetSeq : Doc where
  entries := [("event_id", .str "e1")]
  nodup := by decide

theorem unset_seq_raises :
    verifyChain auditGenesisHash [unsetSeq] = .error (.keyError "seq") ∧
      SomeMismatch auditGenesisHash [unsetSeq] := by
  refine ⟨rfl, [], unsetSeq, [], rfl, Or.inl ?_⟩
  rw [show unsetSeq.get "prev_hash" = .null from rfl]
  simp

end OrderStream

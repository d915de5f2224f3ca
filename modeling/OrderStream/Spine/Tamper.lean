import OrderStream.Spine.Chain

/-! What the chain says about a log that somebody rewrote. -/

namespace OrderStream

open HashChain

/-- What `compute_hash` feeds to SHA-256 while `verify_chain` walks a log. -/
def fedInputs (genesis : String) (log : EventLog) : List (List UInt8) :=
  (visits chainCheck genesis (sortBySeq log)).map fun visit =>
    hashInput visit.1 (hashPayloadFromDoc visit.2)

/-- On these inputs SHA-256 has no collision and never yields the genesis hash. -/
structure CollisionFree (genesis : String) (inputs : List (List UInt8)) : Prop where
  injective : ∀ input ∈ inputs, ∀ other ∈ inputs,
    Sha256.hexdigest input = Sha256.hexdigest other → input = other
  unreached : ∀ input ∈ inputs, Sha256.hexdigest input ≠ genesis

section

variable {genesis : String} {log : EventLog} {report : ChainReport}

theorem hashInput_mem_fedInputs {visit : String × Doc}
    (member : visit ∈ visits chainCheck genesis (sortBySeq log)) :
    hashInput visit.1 (hashPayloadFromDoc visit.2) ∈ fedInputs genesis log :=
  List.mem_map_of_mem member

theorem linked_of_intact (verified : verifyChain genesis log = .ok report)
    (intact : report.intact = true) :
    Linked chainCheck genesis (sortBySeq log) report.headHash := by
  rw [verifyChain_eq_reportOf] at verified
  cases stops : (walk chainCheck genesis (sortBySeq log)).broken with
  | none =>
      have linked := linked_of_walk stops
      simp only [reportOf, stops, Except.ok.injEq] at verified
      rw [← verified]
      exact linked
  | some doc =>
      simp only [reportOf, stops] at verified
      obtain ⟨_, -, verified⟩ := bind_eq_ok verified
      obtain ⟨_, -, verified⟩ := bind_eq_ok verified
      obtain ⟨_, -, verified⟩ := bind_eq_ok verified
      cases verified
      cases intact

theorem length_visit {visit : String × Doc}
    (genesisLength : genesis.toList.length = 64)
    (member : visit ∈ visits chainCheck genesis (sortBySeq log)) :
    visit.1.toList.length = 64 := by
  rcases visits_head member with first | ⟨earlier, -, leads⟩
  · rw [first]
    exact genesisLength
  · obtain ⟨-, -, computed⟩ := chainCheck_eq_some_iff.mp leads
    rw [computed]
    exact length_computeHash _ _

end

/-- Two logs that `verify_chain` finds intact with one head hold the same hashed
fields in the same order. -/
theorem intact_logs_agree {genesis : String} {first second : EventLog}
    {left right : ChainReport} (genesisLength : genesis.toList.length = 64)
    (collisionFree : CollisionFree genesis (fedInputs genesis first ++ fedInputs genesis second))
    (leftVerified : verifyChain genesis first = .ok left)
    (rightVerified : verifyChain genesis second = .ok right)
    (leftIntact : left.intact = true) (rightIntact : right.intact = true)
    (sameHead : left.headHash = right.headHash) :
    first.length = second.length ∧
      List.Forall₂ SameHashedFields (sortBySeq first) (sortBySeq second) := by
  have leftLinked := linked_of_intact leftVerified leftIntact
  have rightLinked := linked_of_intact rightVerified rightIntact
  rw [← sameHead] at rightLinked
  have agree : List.Forall₂ SameHashedFields (sortBySeq first) (sortBySeq second) := by
    refine binding leftLinked rightLinked ?_ ?_
    · intro visit member reached
      obtain ⟨-, -, computed⟩ := chainCheck_eq_some_iff.mp reached
      refine collisionFree.unreached _ ?_ computed.symm
      rcases List.mem_append.mp member with member | member
      · exact List.mem_append_left _ (hashInput_mem_fedInputs member)
      · exact List.mem_append_right _ (hashInput_mem_fedInputs member)
    · intro visit member other otherMember passes same
      obtain ⟨next, reached⟩ := Option.isSome_iff_exists.mp passes
      obtain ⟨-, -, computed⟩ := chainCheck_eq_some_iff.mp reached
      obtain ⟨-, -, otherComputed⟩ := chainCheck_eq_some_iff.mp (same.symm.trans reached)
      have inputs := collisionFree.injective _
        (List.mem_append_left _ (hashInput_mem_fedInputs member)) _
        (List.mem_append_right _ (hashInput_mem_fedInputs otherMember))
        (computed.symm.trans otherComputed)
      obtain ⟨heads, payloads⟩ := hashInput_unique
        ((length_visit genesisLength member).trans
          (length_visit genesisLength otherMember).symm) inputs
      exact ⟨heads, sameHashedFields_iff.mpr payloads⟩
  refine ⟨?_, agree⟩
  simpa [sortBySeq] using agree.length_eq

theorem CollisionFree.of_nodup {genesis : String} {fed inputs : List (List UInt8)}
    (distinct : (genesis :: fed.map Sha256.hexdigest).Nodup) (covers : inputs ⊆ fed) :
    CollisionFree genesis inputs := by
  obtain ⟨unreached, apart⟩ := List.nodup_cons.mp distinct
  refine ⟨?_, ?_⟩
  · intro input member other otherMember same
    exact List.inj_on_of_nodup_map apart (covers member) (covers otherMember) same
  · intro input member reaches
    exact unreached (reaches ▸ List.mem_map_of_mem (covers member))

def draftOf (eventId orderId : String) (seq : Int) (prevHash : String) : Draft :=
  ⟨{ sampleArgs with orderId }, eventId, sampleTime, seq, prevHash⟩

theorem chainCheck_draftOf (eventId orderId : String) (seq : Int) (prevHash : String) :
    chainCheck prevHash (draftOf eventId orderId seq prevHash).storageDoc =
      some (draftOf eventId orderId seq prevHash).hash :=
  (draftOf eventId orderId seq prevHash).chainCheck_storageDoc

theorem Built.draftOf {genesis : String} {log : EventLog} {seq : Int} {prevHash : String}
    (built : Built genesis log ⟨seq, prevHash⟩) (eventId orderId : String) :
    Built genesis (log ++ [(draftOf eventId orderId (seq + 1) prevHash).storageDoc])
      ⟨seq + 1, (draftOf eventId orderId (seq + 1) prevHash).hash⟩ :=
  .snoc built rfl rfl

def firstDraft : Draft := draftOf "a" "1" 1 auditGenesisHash

def secondDraft : Draft := draftOf "b" "2" 2 firstDraft.hash

def thirdDraft : Draft := draftOf "c" "1" 3 secondDraft.hash

def draftLog : EventLog :=
  [firstDraft.storageDoc, secondDraft.storageDoc, thirdDraft.storageDoc]

theorem built_draftLog : Built auditGenesisHash draftLog ⟨3, thirdDraft.hash⟩ :=
  ((Built.nil.draftOf "a" "1").draftOf "b" "2").draftOf "c" "1"

theorem chainCheck_firstDraft :
    chainCheck auditGenesisHash firstDraft.storageDoc = some firstDraft.hash :=
  chainCheck_draftOf "a" "1" 1 auditGenesisHash

theorem chainCheck_secondDraft :
    chainCheck firstDraft.hash secondDraft.storageDoc = some secondDraft.hash :=
  chainCheck_draftOf "b" "2" 2 firstDraft.hash

theorem chainCheck_thirdDraft :
    chainCheck secondDraft.hash thirdDraft.storageDoc = some thirdDraft.hash :=
  chainCheck_draftOf "c" "1" 3 secondDraft.hash

theorem fedInputs_draftLog : fedInputs auditGenesisHash draftLog =
    [hashInput auditGenesisHash firstDraft.payloadForHash,
      hashInput firstDraft.hash secondDraft.payloadForHash,
      hashInput secondDraft.hash thirdDraft.payloadForHash] := by
  rw [fedInputs, built_draftLog.sortBySeq_eq, draftLog, visits_cons chainCheck_firstDraft,
    visits_cons chainCheck_secondDraft, visits_singleton]
  simp only [List.map_cons, List.map_nil, Draft.hashPayloadFromDoc_storageDoc]

def editedDoc : Doc :=
  thirdDraft.storageDoc.set "order_id" (.str "2")

theorem digests_nodup : (auditGenesisHash ::
    [hashInput auditGenesisHash firstDraft.payloadForHash,
      hashInput firstDraft.hash secondDraft.payloadForHash,
      hashInput secondDraft.hash thirdDraft.payloadForHash,
      hashInput firstDraft.hash (hashPayloadFromDoc editedDoc)].map
        Sha256.hexdigest).Nodup := by
  decide +kernel

/-- The copy marks the second event as coalesced, which is no hashed field. -/
theorem intact_logs_agree_remarked :
    let remarked := secondDraft.storageDoc.set "coalesced" (.bool true)
    List.Forall₂ SameHashedFields (sortBySeq draftLog)
      (sortBySeq [firstDraft.storageDoc, remarked, thirdDraft.storageDoc]) := by
  intro remarked
  have payload :
      hashPayloadFromDoc remarked = hashPayloadFromDoc secondDraft.storageDoc := by
    simp [remarked, hashPayloadFromDoc, hashedFields, Doc.get, PyDict.get?_set]
  have passes : chainCheck firstDraft.hash remarked = some secondDraft.hash := by
    rw [← chainCheck_secondDraft]
    simp only [chainCheck, payload]
    simp [remarked, Doc.get]
  have sorted : sortBySeq [firstDraft.storageDoc, remarked, thirdDraft.storageDoc] =
      [firstDraft.storageDoc, remarked, thirdDraft.storageDoc] := by
    refine Ascending.sortBySeq_eq ⟨[1, 2, 3], ?_, by decide⟩
    simp [remarked, Doc.get, firstDraft, secondDraft, thirdDraft, draftOf]
  have fed : fedInputs auditGenesisHash
      [firstDraft.storageDoc, remarked, thirdDraft.storageDoc] =
        fedInputs auditGenesisHash draftLog := by
    rw [fedInputs_draftLog, fedInputs, sorted, visits_cons chainCheck_firstDraft,
      visits_cons passes, visits_singleton]
    simp only [List.map_cons, List.map_nil, payload, Draft.hashPayloadFromDoc_storageDoc]
  have collisionFree : CollisionFree auditGenesisHash
      (fedInputs auditGenesisHash draftLog ++ fedInputs auditGenesisHash
        [firstDraft.storageDoc, remarked, thirdDraft.storageDoc]) := by
    refine .of_nodup digests_nodup ?_
    rw [fed, fedInputs_draftLog]
    simp
  exact (intact_logs_agree length_auditGenesisHash collisionFree
    built_draftLog.verifyChain_eq
    (verifyChain_of_linked sorted (.cons chainCheck_firstDraft
      (.cons passes (.cons chainCheck_thirdDraft (.nil _)))))
    rfl rfl rfl).2

/-! Editing and deleting events. -/

/-- The seq can be read off the end of the hashed text. -/
theorem dumps_payloadForHash (draft : Draft) : ∃ front inner,
    Json.dumps (toCanonical (.dict draft.payloadForHash)) =
      (front ++ ':' :: Json.intText draft.seq ++ (',' :: Json.quote "ts" ++ [':'])) ++
        '"' :: inner ++ ['"', '}'] ∧ '"' ∉ inner := by
  obtain ⟨inner, quoted, plain⟩ :=
    Json.quote_eq_of_plain draft.ts.isoformat_ne_quote
  have sorted : ∃ fields, Json.sortKeys (toCanonical (.dict draft.payloadForHash)) =
      .obj (fields ++ [("seq", .int draft.seq), ("ts", .str draft.ts.isoformat)]) := by
    simp only [Draft.payloadForHash, toCanonical, toCanonicalFields, Json.sortKeys,
      Json.sortFieldKeys, Json.sortFields]
    simp only [List.insertionSort_cons, List.insertionSort_nil, List.orderedInsert,
      String.reduceLE, if_true, if_false, Json.obj.injEq]
    exact ⟨[_, _, _, _, _, _, _, _, _, _], rfl⟩
  obtain ⟨fields, sorted⟩ := sorted
  obtain ⟨front, isNext, rendered⟩ := Json.renderFields_append true fields
    [("seq", .int draft.seq), ("ts", .str draft.ts.isoformat)]
  refine ⟨'{' :: (front ++ Json.separator isNext ++ Json.quote "seq"), inner, ?_, plain⟩
  rw [Json.dumps, sorted, Json.render, rendered]
  simp [Json.renderFields, Json.render, quoted, Json.separator]

/-- Drafts with one input have one seq, however long their predecessor hashes are. -/
theorem seq_eq_of_hashInput_eq {first second : Draft}
    (equal : hashInput first.prevHash first.payloadForHash =
      hashInput second.prevHash second.payloadForHash) : first.seq = second.seq := by
  simp only [hashInput, canonicalBytes, ← encodeUtf8_append] at equal
  have texts := encodeUtf8_injective equal
  obtain ⟨front, inner, left, plain⟩ := dumps_payloadForHash first
  obtain ⟨otherFront, otherInner, right, otherPlain⟩ := dumps_payloadForHash second
  rw [left, right] at texts
  simp only [← List.append_assoc] at texts
  have ends := List.append_inj_left' texts rfl
  have strings := (Json.last_unique plain otherPlain ends).1
  have keys := List.append_inj_left' (List.append_inj_left' strings rfl) rfl
  have noColon (seq : Int) : ':' ∉ Json.intText seq := by
    intro member
    rcases Json.intText_chars member with digit | sign
    · exact absurd digit (by decide)
    · exact absurd sign (by decide)
  have seqs := (Json.last_unique (noColon _) (noColon _) keys).2
  rw [← Json.readInt_intText first.seq, seqs, Json.readInt_intText]

/-- What editing an event leaves alone. -/
structure KeepsLinks (original left : Doc) : Prop where
  seq : left.get? "seq" = original.get? "seq"
  prevHash : left.get "prev_hash" = original.get "prev_hash"
  hash : left.get "hash" = original.get "hash"
  eventId : left.contains "event_id" = true

/-- The remaining event was edited, or the event before it was deleted. -/
def Breaks (record : List (Doc × Option Doc)) (index : Nat) : Prop :=
  ∃ original left, record[index]? = some (original, some left) ∧
    (¬SameHashedFields original left ∨
      ∃ lost, 0 < index ∧ record[index - 1]? = some (lost, none))

section

variable {genesis : String} {log : EventLog} {tail : Tail} {original left : Doc}

theorem KeepsLinks.untouched (keeps : KeepsLinks original left)
    (same : SameHashedFields original left) : Untouched chainCheck original left := by
  intro head
  simp only [chainCheck, keeps.prevHash, keeps.hash, computeHash,
    hashInput_congr head (sameHashedFields_iff.mp same)]

theorem KeepsLinks.anchored (keeps : KeepsLinks original left) {first second : String}
    (passes : (chainCheck first left).isSome)
    (passed : (chainCheck second original).isSome) : first = second := by
  obtain ⟨_, reached⟩ := Option.isSome_iff_exists.mp passes
  obtain ⟨_, leads⟩ := Option.isSome_iff_exists.mp passed
  have now := (chainCheck_eq_some_iff.mp reached).1
  have before := (chainCheck_eq_some_iff.mp leads).1
  exact Value.str.inj (now.symm.trans (keeps.prevHash.trans before))

theorem KeepsLinks.sameHashedFields (keeps : KeepsLinks original left) {head : String}
    (passed : (chainCheck head original).isSome) (passes : (chainCheck head left).isSome)
    (collisionFree :
      computeHash head (hashPayloadFromDoc original) =
          computeHash head (hashPayloadFromDoc left) →
        hashInput head (hashPayloadFromDoc original) =
          hashInput head (hashPayloadFromDoc left)) :
    SameHashedFields original left := by
  obtain ⟨_, leads⟩ := Option.isSome_iff_exists.mp passed
  obtain ⟨_, reached⟩ := Option.isSome_iff_exists.mp passes
  obtain ⟨-, stored, computed⟩ := chainCheck_eq_some_iff.mp leads
  obtain ⟨-, kept, recomputed⟩ := chainCheck_eq_some_iff.mp reached
  rw [keeps.hash, stored] at kept
  have digests := computed.symm.trans ((Value.str.inj kept).trans recomputed)
  exact sameHashedFields_iff.mpr (hashInput_unique rfl (collisionFree digests)).2

theorem Built.visits_eq (built : Built genesis log tail) {visit : String × Doc}
    (member : visit ∈ visits chainCheck genesis log) :
    ∃ draft : Draft, visit = (draft.prevHash, draft.storageDoc) ∧
      draft.seq ≤ log.length := by
  induction built with
  | nil => cases member
  | @snoc log tail draft before next previous ih =>
      rw [visits_snoc _ before.linked] at member
      rcases List.mem_append.mp member with earlier | last
      · obtain ⟨found, equality, bound⟩ := ih earlier
        refine ⟨found, equality, ?_⟩
        rw [List.length_append]
        omega
      · refine ⟨draft, ?_, ?_⟩
        · rw [List.mem_singleton.mp last, previous]
        · rw [next, before.tail_seq, List.length_append, List.length_singleton]
          omega

/-- The heads of a built chain are distinct: an earlier one would hash another seq. -/
theorem Built.heads_nodup (built : Built genesis log tail)
    (collisionFree : CollisionFree genesis (fedInputs genesis log)) :
    (heads chainCheck genesis log).Nodup := by
  unfold fedInputs at collisionFree
  rw [built.sortBySeq_eq] at collisionFree
  induction built with
  | nil => exact List.nodup_singleton _
  | @snoc log tail draft before next previous ih =>
      have extended : chainCheck tail.hash draft.storageDoc = some draft.hash := by
        rw [← previous]
        exact draft.chainCheck_storageDoc
      rw [visits_snoc _ before.linked, List.map_append] at collisionFree
      obtain ⟨injective, unreached⟩ := collisionFree
      rw [heads_snoc before.linked extended, List.nodup_append]
      refine ⟨ih ⟨?_, ?_⟩, List.nodup_singleton _, ?_⟩
      · intro input member other otherMember
        exact injective input (List.mem_append_left _ member) other
          (List.mem_append_left _ otherMember)
      · exact fun input member => unreached input (List.mem_append_left _ member)
      · intro earlier member last isLast same
        rw [List.mem_singleton.mp isLast] at same
        obtain ⟨-, -, computed⟩ := chainCheck_eq_some_iff.mp extended
        rcases mem_heads member with first | ⟨visit, visited, leads⟩
        · exact unreached _ (List.mem_append_right _ (by simp))
            (computed.symm.trans (same.symm.trans first))
        · obtain ⟨found, rfl, bound⟩ := before.visits_eq visited
          obtain ⟨-, -, reached⟩ := chainCheck_eq_some_iff.mp leads
          have inputs := injective _
            (List.mem_append_left _ (List.mem_map_of_mem visited)) _
            (List.mem_append_right _ (List.mem_singleton_self _))
            (reached.symm.trans (same.trans computed))
          simp only [Draft.hashPayloadFromDoc_storageDoc, ← previous] at inputs
          have seqs := seq_eq_of_hashInput_eq inputs
          rw [next, before.tail_seq] at seqs
          omega

theorem survivors_ascending {record : List (Doc × Option Doc)}
    (ascending : Ascending (record.map Prod.fst))
    (keeps : ∀ original left, (original, some left) ∈ record → KeepsLinks original left) :
    Ascending (survivors record) := by
  refine ascending.of_sublist ?_
  clear ascending
  induction record with
  | nil => exact List.Sublist.refl _
  | cons entry record ih =>
      obtain ⟨original, remains⟩ := entry
      have rest := ih fun original left member => keeps original left (by simp [member])
      cases remains with
      | none => exact rest.cons _
      | some left =>
          have seq := (keeps original left (by simp)).seq
          simpa [survivors, Doc.get, seq] using rest

end

section

variable {genesis : String} {tail : Tail} {kept dropped later : List (Doc × Option Doc)}
  {original left : Doc}

theorem untouched_kept
    (keeps : ∀ block remains, (block, some remains) ∈ kept → KeepsLinks block remains)
    (same : ∀ entry ∈ kept, ∃ left, entry.2 = some left ∧ SameHashedFields entry.1 left) :
    ∀ entry ∈ kept, ∃ left, entry.2 = some left ∧ Untouched chainCheck entry.1 left := by
  rintro ⟨block, _⟩ member
  obtain ⟨left, rfl, fields⟩ := same _ member
  exact ⟨left, rfl, (keeps block left member).untouched fields⟩

theorem verifyChain_of_truncated
    (built : Built genesis ((kept ++ dropped).map Prod.fst) tail)
    (keeps : ∀ block remains, (block, some remains) ∈ kept ++ dropped →
      KeepsLinks block remains)
    (same : ∀ entry ∈ kept, ∃ left, entry.2 = some left ∧ SameHashedFields entry.1 left)
    (deleted : ∀ entry ∈ dropped, entry.2 = none) :
    ∃ report, verifyChain genesis (survivors (kept ++ dropped)) = .ok report ∧
      report.intact = true := by
  have untouched := untouched_kept
    (fun block remains member => keeps block remains (List.mem_append_left _ member)) same
  obtain ⟨middle, linked⟩ := linked_of_truncated built.linked untouched deleted
  refine ⟨⟨(survivors (kept ++ dropped)).length, middle, true, none, none⟩, ?_, rfl⟩
  exact verifyChain_of_linked (survivors_ascending built.ascending keeps).sortBySeq_eq linked

/-- An edited event extends no chain, when what stands before it is as it was. -/
theorem chainCheck_of_edited {record : List (Doc × Option Doc)}
    (split : record = kept ++ (original, some left) :: later)
    (built : Built genesis (record.map Prod.fst) tail)
    (keeps : ∀ block remains, (block, some remains) ∈ record → KeepsLinks block remains)
    (collisionFree : CollisionFree genesis
      (fedInputs genesis (record.map Prod.fst) ++ fedInputs genesis (survivors record)))
    (untouched : ∀ entry ∈ kept, ∃ left, entry.2 = some left ∧
      Untouched chainCheck entry.1 left)
    (edited : ¬SameHashedFields original left) (head : String) :
    chainCheck head left = none := by
  have sorted := (survivors_ascending built.ascending keeps).sortBySeq_eq
  have linked := built.linked
  rw [split, List.map_append, List.map_cons] at linked
  obtain ⟨middle, before, rest⟩ := linked_append.mp linked
  cases rest with
  | @cons _ next _ _ _ extended _ =>
      by_contra passes
      have passes := Option.isSome_iff_ne_none.mpr passes
      have passed : (chainCheck middle original).isSome := by simp [extended]
      have keepsLeft := keeps original left (by simp [split])
      cases keepsLeft.anchored passes passed
      refine edited (keepsLeft.sameHashedFields passed passes ?_)
      refine collisionFree.injective _ (List.mem_append_left _ ?_) _
        (List.mem_append_right _ ?_)
      · apply @hashInput_mem_fedInputs genesis _ (head, original)
        rw [built.sortBySeq_eq, split, List.map_append, List.map_cons,
          visits_append _ before]
        simp [visits]
      · apply @hashInput_mem_fedInputs genesis _ (head, left)
        rw [sorted, split, survivors_append,
          visits_append _ (linked_survivors before untouched)]
        simp [survivors, visits]

theorem verifyChain_of_broken {record : List (Doc × Option Doc)}
    (split : record = kept ++ (dropped ++ (original, some left) :: later))
    (built : Built genesis (record.map Prod.fst) tail)
    (keeps : ∀ block remains, (block, some remains) ∈ record → KeepsLinks block remains)
    (collisionFree : CollisionFree genesis
      (fedInputs genesis (record.map Prod.fst) ++ fedInputs genesis (survivors record)))
    (same : ∀ entry ∈ kept, ∃ left, entry.2 = some left ∧ SameHashedFields entry.1 left)
    (deleted : ∀ entry ∈ dropped, entry.2 = none)
    (cause : dropped ≠ [] ∨ ¬SameHashedFields original left) :
    ∃ report, verifyChain genesis (survivors record) = .ok report ∧
      report.intact = false ∧ report.verified = (survivors kept).length ∧
      ∃ seq, left.get "seq" = .int seq ∧ report.brokenAtSeq = some seq := by
  have sorted := (survivors_ascending built.ascending keeps).sortBySeq_eq
  have distinct := built.heads_nodup ⟨fun input member other otherMember =>
      collisionFree.injective input (List.mem_append_left _ member) other
        (List.mem_append_left _ otherMember),
    fun input member => collisionFree.unreached input (List.mem_append_left _ member)⟩
  have keepsLeft : KeepsLinks original left := keeps original left (by simp [split])
  have untouched := untouched_kept
    (fun block remains member => keeps block remains (by simp [split, member])) same
  have stops : dropped ≠ [] ∨ ∀ head, chainCheck head left = none := by
    rcases cause with lost | edited
    · exact Or.inl lost
    · cases dropped with
      | nil =>
          exact Or.inr (chainCheck_of_edited split built keeps collisionFree untouched edited)
      | cons _ _ => exact Or.inl (by simp)
  have seqStored : left.get? "seq" = some (.int (kept.length + dropped.length + 1 : Nat)) := by
    have at_index : (record.map Prod.fst)[kept.length + dropped.length]? = some original := by
      simp [split]
    rw [keepsLeft.seq]
    exact Doc.get?_eq_some (by simpa using built.get_seq at_index) (by simp)
  subst split
  obtain ⟨middle, walked⟩ := walk_of_tampered built.linked distinct untouched deleted
    (fun _ _ => keepsLeft.anchored) stops
  obtain ⟨eventId, idStored⟩ := Option.isSome_iff_exists.mp keepsLeft.eventId
  refine ⟨⟨(survivors kept).length, middle, false, some _, some eventId⟩, ?_, rfl, rfl, _,
    by rw [Doc.get, seqStored]; rfl, rfl⟩
  rw [verifyChain_eq_reportOf, sorted, walked]
  simp [reportOf, subscript, seqStored, idStored, pyInt, bind, Except.bind]

theorem breaks_first {record : List (Doc × Option Doc)}
    (split : record = kept ++ (dropped ++ (original, some left) :: later))
    (same : ∀ entry ∈ kept, ∃ left, entry.2 = some left ∧ SameHashedFields entry.1 left)
    (deleted : ∀ entry ∈ dropped, entry.2 = none)
    (cause : dropped ≠ [] ∨ ¬SameHashedFields original left) :
    record[kept.length + dropped.length]? = some (original, some left) ∧
      Breaks record (kept.length + dropped.length) ∧
      ∀ earlier < kept.length + dropped.length, ¬Breaks record earlier := by
  have at_index : record[kept.length + dropped.length]? = some (original, some left) := by
    simp [split]
  refine ⟨at_index, ⟨original, left, at_index, ?_⟩, ?_⟩
  · rcases cause with lost | edited
    · obtain ⟨before, last, rfl⟩ := (List.eq_nil_or_concat dropped).resolve_left lost
      obtain ⟨block, remains⟩ := last
      have gone : remains = none := deleted (block, remains) (by simp)
      refine Or.inr ⟨block, by simp, ?_⟩
      have place : kept.length + (before.concat (block, remains)).length - 1 =
          kept.length + before.length := by simp
      rw [place, split, gone]
      simp
    · exact Or.inl edited
  · rintro earlier bound ⟨block, remains, at_earlier, broken⟩
    by_cases within : earlier < kept.length
    · have member : (block, some remains) ∈ kept := by
        rw [split, List.getElem?_append_left within] at at_earlier
        exact List.mem_of_getElem? at_earlier
      rcases broken with edited | ⟨lost, positive, at_before⟩
      · obtain ⟨_, equality, fields⟩ := same _ member
        cases equality
        exact edited fields
      · rw [split, List.getElem?_append_left (by omega)] at at_before
        obtain ⟨_, equality, -⟩ := same _ (List.mem_of_getElem? at_before)
        cases equality
    · rw [split, List.getElem?_append_right (by omega),
        List.getElem?_append_left (by omega)] at at_earlier
      cases deleted _ (List.mem_of_getElem? at_earlier)

end

/-- Editing and deleting leaves the chain intact exactly when nothing that remains
was edited and only the end is gone; otherwise the report names the first event that
was edited or lost its predecessor. -/
theorem tampering_located {genesis : String} {record : List (Doc × Option Doc)}
    {tail : Tail} (built : Built genesis (record.map Prod.fst) tail)
    (keeps : ∀ original left, (original, some left) ∈ record → KeepsLinks original left)
    (collisionFree : CollisionFree genesis
      (fedInputs genesis (record.map Prod.fst) ++ fedInputs genesis (survivors record))) :
    ∃ report, verifyChain genesis (survivors record) = .ok report ∧
      (report.intact = true ↔
        (∀ original left, (original, some left) ∈ record →
          SameHashedFields original left) ∧ DeletesSuffix record) ∧
      (report.intact = false → ∃ index original left,
        record[index]? = some (original, some left) ∧ Breaks record index ∧
        (∀ earlier < index, ¬Breaks record earlier) ∧
        report.verified = (survivors (record.take index)).length ∧
        ∃ seq, left.get "seq" = .int seq ∧ report.brokenAtSeq = some seq) := by
  obtain ⟨kept, dropped, rest, split, same, deleted, tampered⟩ :=
    tampering_cases SameHashedFields record
  rcases tampered with rfl | ⟨original, left, later, rfl, cause⟩
  · rw [List.append_nil] at split
    subst split
    obtain ⟨report, verified, intact⟩ := verifyChain_of_truncated built keeps same deleted
    refine ⟨report, verified, ?_, ?_⟩
    · refine iff_of_true intact ⟨?_, kept, dropped, rfl, ?_, deleted⟩
      · intro original left member
        rcases List.mem_append.mp member with remains | gone
        · obtain ⟨_, equality, fields⟩ := same _ remains
          cases equality
          exact fields
        · cases deleted _ gone
      · intro entry member
        obtain ⟨left, equality, -⟩ := same entry member
        simp [equality]
    · intro broken
      rw [intact] at broken
      cases broken
  · obtain ⟨report, verified, broken, count, located⟩ :=
      verifyChain_of_broken split built keeps collisionFree same deleted cause
    refine ⟨report, verified, ?_, ?_⟩
    · refine iff_of_false (by simp [broken]) ?_
      rintro ⟨unedited, suffix⟩
      rcases cause with lost | edited
      · obtain ⟨gone, member⟩ := List.exists_mem_of_ne_nil dropped lost
        rw [split, ← List.append_assoc] at suffix
        have first : (original, some left) ∈ (original, some left) :: later := by simp
        cases suffix.deleted_after (deleted gone member) (List.mem_append_right _ member) first
      · exact edited (unedited original left (by simp [split]))
    · intro _
      obtain ⟨at_index, breaks, first⟩ := breaks_first split same deleted cause
      refine ⟨_, original, left, at_index, breaks, first, ?_, located⟩
      have taken : record.take (kept.length + dropped.length) = kept ++ dropped := by
        rw [split, ← List.append_assoc, ← List.length_append, List.take_left']
        rfl
      rw [taken, survivors_append, survivors_deleted deleted, List.append_nil, count]

/-- The second event is deleted and the order id of the third one is replaced. -/
theorem tampering_located_edited :
    ∃ report, verifyChain auditGenesisHash [firstDraft.storageDoc, editedDoc] = .ok report ∧
      report.intact = false ∧ report.verified = 1 ∧ report.brokenAtSeq = some 3 := by
  let record := [(firstDraft.storageDoc, some firstDraft.storageDoc),
    (secondDraft.storageDoc, none), (thirdDraft.storageDoc, some editedDoc)]
  have remaining : survivors record = [firstDraft.storageDoc, editedDoc] := rfl
  have keeps (original left : Doc) (member : (original, some left) ∈ record) :
      KeepsLinks original left := by
    simp only [record, List.mem_cons, Prod.mk.injEq, Option.some.injEq, reduceCtorEq,
      and_false, List.not_mem_nil, or_false, false_or] at member
    rcases member with ⟨rfl, rfl⟩ | ⟨rfl, rfl⟩
    · exact ⟨rfl, rfl, rfl, by simp [PyDict.contains]⟩
    · refine ⟨?_, ?_, ?_, ?_⟩ <;> simp [editedDoc, Doc.get, PyDict.contains]
  have seq : editedDoc.get? "seq" = some (.int 3) := by
    rw [(keeps thirdDraft.storageDoc editedDoc (by simp [record])).seq]
    simp [thirdDraft, draftOf]
  have sorted : sortBySeq [firstDraft.storageDoc, editedDoc] =
      [firstDraft.storageDoc, editedDoc] := by
    refine Ascending.sortBySeq_eq ⟨[1, 3], ?_, by decide⟩
    simp [Doc.get, seq, firstDraft, draftOf]
  have collisionFree : CollisionFree auditGenesisHash
      (fedInputs auditGenesisHash (record.map Prod.fst) ++
        fedInputs auditGenesisHash (survivors record)) := by
    have original : record.map Prod.fst = draftLog := rfl
    refine .of_nodup digests_nodup ?_
    rw [original, fedInputs_draftLog, remaining, fedInputs, sorted,
      visits_cons chainCheck_firstDraft, visits_singleton]
    simp [Draft.hashPayloadFromDoc_storageDoc]
  obtain ⟨report, verified, intact, located⟩ :=
    @tampering_located _ record _ built_draftLog keeps collisionFree
  have broken : report.intact = false := by
    rw [← Bool.not_eq_true, intact]
    rintro ⟨-, suffix⟩
    have deleted : some editedDoc = none :=
      @DeletesSuffix.deleted_after _ (record.take 2) (record.drop 2) suffix
        (secondDraft.storageDoc, none) (thirdDraft.storageDoc, some editedDoc) rfl
        (by simp [record]) (by simp [record])
    cases deleted
  obtain ⟨index, original, left, at_index, breaks, -, count, number, at_seq, brokenAt⟩ :=
    located broken
  have last : index = 2 := by
    have bound : index < 3 := (List.getElem?_eq_some_iff.mp at_index).1
    obtain rfl | rfl | rfl : index = 0 ∨ index = 1 ∨ index = 2 := by omega
    · obtain ⟨_, _, at_zero, differ | ⟨_, positive, -⟩⟩ := breaks
      · cases at_zero
        exact absurd (sameHashedFields_iff.mpr rfl) differ
      · exact absurd positive (lt_irrefl 0)
    · cases at_index
    · rfl
  subst last
  simp only [record, List.getElem?_cons_succ, List.getElem?_cons_zero, Option.some.injEq,
    Prod.mk.injEq] at at_index
  obtain ⟨-, rfl⟩ := at_index
  refine ⟨report, remaining ▸ verified, broken, count, ?_⟩
  rw [brokenAt]
  rw [Doc.get, seq] at at_seq
  cases at_seq
  rfl

end OrderStream

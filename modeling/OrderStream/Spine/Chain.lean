import Mathlib.Data.List.Sort
import OrderStream.Spine.EventSpine
import OrderStream.Theory.HashChain

/-! What successful appends build, and what the walk of `verify_chain` finds in
it. -/

namespace OrderStream

/-- The test of one turn of the loop; the new `prev` when it passes. -/
def chainCheck (prev : String) (doc : Doc) : Option String :=
  let expected := computeHash prev (hashPayloadFromDoc doc)
  if !(doc.get "prev_hash").pyEq (.str prev) ||
      !(doc.get "hash").pyEq (.str expected) then
    none
  else
    some expected

theorem chainCheck_eq_some_iff {prev next : String} {doc : Doc} :
    chainCheck prev doc = some next ↔
      doc.get "prev_hash" = .str prev ∧ doc.get "hash" = .str next ∧
        next = computeHash prev (hashPayloadFromDoc doc) := by
  simp only [chainCheck, Bool.or_eq_true, Bool.not_eq_true', ite_eq_iff, reduceCtorEq,
    and_false, false_or, not_or, Bool.not_eq_false, Value.pyEq_str_iff,
    Option.some.injEq]
  constructor
  · rintro ⟨⟨prevHash, hash⟩, rfl⟩
    exact ⟨prevHash, hash, rfl⟩
  · rintro ⟨prevHash, hash, rfl⟩
    exact ⟨⟨prevHash, hash⟩, rfl⟩

def reportOf (verified : Nat) (walk : HashChain.Walk String Doc) :
    Except PyError ChainReport :=
  match walk.broken with
  | none => .ok ⟨verified + walk.verified, walk.head, true, none, none⟩
  | some doc => do
      let seq ← subscript doc "seq"
      let brokenAt ← pyInt seq
      let brokenEventId ← subscript doc "event_id"
      .ok ⟨verified + walk.verified, walk.head, false, some brokenAt, some brokenEventId⟩

theorem verifyLoop_cons (prev : String) (verified : Nat) (doc : Doc) (rest : List Doc) :
    verifyLoop prev verified (doc :: rest) =
      match chainCheck prev doc with
      | none => reportOf verified ⟨0, prev, some doc⟩
      | some expected => verifyLoop expected (verified + 1) rest := by
  rw [verifyLoop]
  simp only [chainCheck]
  split
  · rfl
  · rfl

theorem verifyLoop_eq_reportOf (prev : String) (verified : Nat) (docs : List Doc) :
    verifyLoop prev verified docs =
      reportOf verified (HashChain.walk chainCheck prev docs) := by
  induction docs generalizing prev verified with
  | nil => rfl
  | cons doc rest ih =>
      rw [verifyLoop_cons, HashChain.walk]
      cases chainCheck prev doc with
      | none => rfl
      | some expected =>
          simp only [ih, reportOf, Nat.add_assoc, Nat.add_comm 1]

theorem verifyChain_eq_reportOf (genesis : String) (log : EventLog) :
    verifyChain genesis log =
      reportOf 0 (HashChain.walk chainCheck genesis (sortBySeq log)) :=
  verifyLoop_eq_reportOf genesis 0 _

theorem verifyChain_of_linked {genesis head : String} {log : EventLog}
    (sorted : sortBySeq log = log)
    (linked : HashChain.Linked chainCheck genesis log head) :
    verifyChain genesis log = .ok ⟨log.length, head, true, none, none⟩ := by
  rw [verifyChain_eq_reportOf, sorted, HashChain.walk_linked linked]
  simp [reportOf]

namespace Draft

variable (draft : Draft)

@[simp] theorem storageDoc_seq : draft.storageDoc.get? "seq" = some (.int draft.seq) := by
  simp [storageDoc, payloadForHash, PyDict.get?, PyDict.lookup_cons_ite]

@[simp] theorem storageDoc_prevHash :
    draft.storageDoc.get? "prev_hash" = some (.str draft.prevHash) := by
  simp [storageDoc, payloadForHash, PyDict.get?, PyDict.lookup_cons_ite]

@[simp] theorem storageDoc_hash :
    draft.storageDoc.get? "hash" = some (.str draft.hash) := by
  simp [storageDoc, payloadForHash, PyDict.get?, PyDict.lookup_cons_ite]

@[simp] theorem storageDoc_eventId :
    draft.storageDoc.get? "event_id" = some (.str draft.eventId) := by
  simp [storageDoc, payloadForHash, PyDict.get?, PyDict.lookup_cons_ite]

theorem get_seq : draft.storageDoc.get "seq" = .int draft.seq := by simp [Doc.get]

theorem get_prevHash : draft.storageDoc.get "prev_hash" = .str draft.prevHash := by
  simp [Doc.get]

theorem get_hash : draft.storageDoc.get "hash" = .str draft.hash := by simp [Doc.get]

theorem get_eventId : draft.storageDoc.get "event_id" = .str draft.eventId := by
  simp [Doc.get]

/-- Verification hashes what `append` hashed. -/
theorem hashPayloadFromDoc_storageDoc :
    hashPayloadFromDoc draft.storageDoc = draft.payloadForHash := by
  simp [hashPayloadFromDoc, hashedFields, storageDoc, payloadForHash, Doc.get,
    PyDict.get?, PyDict.lookup_cons_ite]

theorem chainCheck_storageDoc :
    chainCheck draft.prevHash draft.storageDoc = some draft.hash :=
  chainCheck_eq_some_iff.mpr
    ⟨by simp [Doc.get], by simp [Doc.get],
      congrArg (computeHash draft.prevHash) draft.hashPayloadFromDoc_storageDoc.symm⟩

end Draft

theorem laterThan_storageDoc (start : Int) (draft : Draft) :
    laterThan start draft.storageDoc = decide (start < draft.seq) := by
  simp [laterThan, Draft.get_seq, bsonRank, bsonLe, ← decide_not]

def seqOf (doc : Doc) : Int :=
  match doc.get "seq" with
  | .int seq => seq
  | _ => 0

theorem seqOf_of_get {doc : Doc} {seq : Int} (stored : doc.get "seq" = .int seq) :
    seqOf doc = seq := by
  simp [seqOf, stored]

theorem Draft.seqOf_storageDoc (draft : Draft) : seqOf draft.storageDoc = draft.seq :=
  seqOf_of_get draft.get_seq

theorem sortBySeq_eq_insertionSort {log : EventLog}
    (numbers : ∀ doc ∈ log, doc.get "seq" = .int (seqOf doc)) :
    sortBySeq log = log.insertionSort fun first second => seqOf first ≤ seqOf second := by
  have same := List.map_insertionSort
    (fun left right => bsonLe (left.get "seq") (right.get "seq") = true)
    (fun first second => seqOf first ≤ seqOf second) id log (by
      intro left leftMember right rightMember
      rw [numbers left leftMember, numbers right rightMember]
      simp [bsonLe])
  simpa [sortBySeq] using same

def Ascending (log : EventLog) : Prop :=
  ∃ seqs : List Int, log.map (·.get "seq") = seqs.map Value.int ∧ seqs.Pairwise (· < ·)

inductive TrueTail (genesis : String) : EventLog → Tail → Prop where
  | empty : TrueTail genesis [] ⟨0, genesis⟩
  | greatest {log : EventLog} {tail : Tail} {doc : Doc} :
      doc ∈ log → doc.get "seq" = .int tail.seq → doc.get "hash" = .str tail.hash →
        (∀ other ∈ log, ∃ seq, other.get "seq" = .int seq ∧ seq ≤ tail.seq) →
          TrueTail genesis log tail

namespace Ascending

variable {log : EventLog}

theorem sortBySeq_eq (ascending : Ascending log) : sortBySeq log = log := by
  obtain ⟨seqs, mapped, increasing⟩ := ascending
  have sorted : (log.map (·.get "seq")).Pairwise fun left right =>
      bsonLe left right = true := by
    rw [mapped, List.pairwise_map]
    refine increasing.imp ?_
    intro first second less
    simpa [bsonLe] using less.le
  exact (List.pairwise_map.mp sorted).insertionSort_eq

theorem of_sublist {kept : EventLog} (ascending : Ascending log)
    (fewer : (kept.map (·.get "seq")).Sublist (log.map (·.get "seq"))) :
    Ascending kept := by
  obtain ⟨seqs, mapped, increasing⟩ := ascending
  rw [mapped] at fewer
  obtain ⟨remaining, within, equality⟩ := List.sublist_map_iff.mp fewer
  exact ⟨remaining, equality, increasing.sublist within⟩

theorem snoc {doc : Doc} {seq : Int} (ascending : Ascending log)
    (below : ∀ stored ∈ log, ∃ earlier, stored.get "seq" = .int earlier ∧ earlier < seq)
    (at_seq : doc.get "seq" = .int seq) : Ascending (log ++ [doc]) := by
  obtain ⟨seqs, mapped, increasing⟩ := ascending
  refine ⟨seqs ++ [seq], by simp [mapped, at_seq], ?_⟩
  rw [List.pairwise_append]
  refine ⟨increasing, List.pairwise_singleton _ _, ?_⟩
  intro earlier member last isLast
  rw [List.mem_singleton.mp isLast]
  have listed : Value.int earlier ∈ log.map (·.get "seq") := by simp [mapped, member]
  obtain ⟨stored, within, equality⟩ := List.mem_map.mp listed
  obtain ⟨found, at_found, less⟩ := below stored within
  cases at_found.symm.trans equality
  exact less

theorem eq_of_seq {doc other : Doc} (ascending : Ascending log) (member : doc ∈ log)
    (otherMember : other ∈ log) (same : doc.get "seq" = other.get "seq") :
    doc = other := by
  obtain ⟨seqs, mapped, increasing⟩ := ascending
  have distinct : (log.map (·.get "seq")).Nodup := by
    rw [mapped]
    refine List.Nodup.map (fun _ _ => Value.int.inj) (increasing.imp ?_)
    intro first second less
    exact less.ne
  exact List.inj_on_of_nodup_map distinct member otherMember same

end Ascending

theorem TrueTail.seq_le {genesis : String} {log : EventLog} {tail : Tail} {stored : Doc}
    (whole : TrueTail genesis log tail) (member : stored ∈ log) :
    ∃ seq, stored.get "seq" = .int seq ∧ seq ≤ tail.seq := by
  cases whole with
  | empty => cases member
  | greatest _ _ _ bounded => exact bounded stored member

theorem subscript_eq_ok {doc : Doc} {key : String} {value : Value}
    (found : subscript doc key = .ok value) : doc.get key = value := by
  unfold subscript at found
  unfold Doc.get
  split at found
  · cases found
    rename_i stored
    rw [stored, Option.getD_some]
  · cases found

theorem trueTail_of_refreshHead {genesis : String} {log : EventLog} {found : Tail}
    (numbers : ∀ doc ∈ log, ∃ seq, doc.get "seq" = .int seq)
    (read : refreshHead genesis log = .ok found) : TrueTail genesis log found := by
  have named (doc : Doc) (member : doc ∈ log) : doc.get "seq" = .int (seqOf doc) := by
    obtain ⟨seq, stored⟩ := numbers doc member
    rw [stored, seqOf_of_get stored]
  have sorted : (sortBySeq log).Pairwise fun first second => seqOf first ≤ seqOf second := by
    rw [sortBySeq_eq_insertionSort named]
    exact List.pairwise_insertionSort _ _
  have members (doc : Doc) : doc ∈ sortBySeq log ↔ doc ∈ log := List.mem_insertionSort _
  unfold refreshHead at read
  cases last : (sortBySeq log).getLast? with
  | none =>
      rw [last] at read
      cases read
      have empty := List.getLast?_eq_none_iff.mp last
      rw [show log = [] from List.eq_nil_iff_forall_not_mem.mpr fun doc member => by
        simpa [empty] using (members doc).mpr member]
      exact .empty
  | some doc =>
      simp only [last] at read
      obtain ⟨hash, gotHash, read⟩ := bind_eq_ok read
      obtain ⟨seq, gotSeq, read⟩ := bind_eq_ok read
      obtain ⟨value, converted, read⟩ := bind_eq_ok read
      have member := (members doc).mp (List.mem_of_getLast? last)
      have stored := (named doc member).symm.trans (subscript_eq_ok gotSeq)
      subst stored
      cases converted
      cases hash with
      | str hash =>
          cases read
          refine .greatest member (named doc member) (subscript_eq_ok gotHash) ?_
          intro other otherMember
          refine ⟨seqOf other, named other otherMember, ?_⟩
          obtain ⟨earlier, split⟩ := List.getLast?_eq_some_iff.mp last
          rw [split] at sorted members
          rcases List.mem_append.mp ((members other).mpr otherMember) with before | isLast
          · exact (List.pairwise_append.mp sorted).2.2 other before doc List.mem_cons_self
          · rw [List.mem_singleton.mp isLast]
      | _ => cases read

/-- Where every seq is a number, a read that raises assigns nothing. -/
theorem refreshFailed_eq {genesis : String} {log : EventLog} {error : PyError}
    (numbers : ∀ doc ∈ log, ∃ seq, doc.get "seq" = .int seq)
    (failed : refreshHead genesis log = .error error) (tail : Tail) :
    refreshFailed log tail = tail := by
  unfold refreshHead at failed
  unfold refreshFailed
  cases last : (sortBySeq log).getLast? with
  | none => rfl
  | some doc =>
      have member : doc ∈ log := (List.mem_insertionSort _).mp (List.mem_of_getLast? last)
      obtain ⟨seq, stored⟩ := numbers doc member
      have present := Doc.get?_eq_some stored (by simp)
      rw [last] at failed
      dsimp only
      split
      · rename_i hash found
        simp [subscript, found, present, pyInt, bind, Except.bind] at failed
      · rfl

theorem TrueTail.unique {genesis : String} {log : EventLog} {first second : Tail}
    (ascending : Ascending log) (left : TrueTail genesis log first)
    (right : TrueTail genesis log second) : first = second := by
  cases left with
  | empty =>
      cases right with
      | empty => rfl
      | greatest member _ _ _ => cases member
  | @greatest _ _ doc member seq hash bounded =>
      cases right with
      | empty => cases member
      | @greatest _ _ other otherMember otherSeq otherHash otherBounded =>
          obtain ⟨low, lowSeq, lowLe⟩ := bounded other otherMember
          obtain ⟨high, highSeq, highLe⟩ := otherBounded doc member
          cases lowSeq.symm.trans otherSeq
          cases highSeq.symm.trans seq
          have sameSeq : first.seq = second.seq := le_antisymm highLe lowLe
          have same := ascending.eq_of_seq member otherMember
            (by rw [seq, otherSeq, sameSeq])
          subst same
          have sameHash : first.hash = second.hash :=
            Value.str.inj (hash.symm.trans otherHash)
          cases first
          cases second
          cases sameSeq
          cases sameHash
          rfl

/-! Logs of successful appends. -/

/-- Each document was inserted by an append that worked from the tail before it. -/
inductive Built (genesis : String) : EventLog → Tail → Prop where
  | nil : Built genesis [] ⟨0, genesis⟩
  | snoc {log : EventLog} {tail : Tail} {draft : Draft} :
      Built genesis log tail → draft.seq = tail.seq + 1 →
        draft.prevHash = tail.hash →
          Built genesis (log ++ [draft.storageDoc]) ⟨draft.seq, draft.hash⟩

namespace Built

variable {genesis : String} {log : EventLog} {tail : Tail}

theorem tail_seq (built : Built genesis log tail) : tail.seq = log.length := by
  induction built with
  | nil => rfl
  | snoc _ next _ ih => simp [next, ih]

theorem seqs (built : Built genesis log tail) :
    log.map (·.get "seq") =
      (List.range log.length).map fun index : Nat => Value.int (index + 1) := by
  induction built with
  | nil => rfl
  | snoc before next _ ih =>
      simp [List.range_succ, ih, Draft.get_seq, next, before.tail_seq]

theorem get_seq (built : Built genesis log tail) {index : Nat} {doc : Doc}
    (at_index : log[index]? = some doc) : doc.get "seq" = .int (index + 1) := by
  obtain ⟨bound, found⟩ := List.getElem?_eq_some_iff.mp at_index
  have mapped := congrArg (·[index]?) built.seqs
  simpa [bound, found] using mapped

theorem linked (built : Built genesis log tail) :
    HashChain.Linked chainCheck genesis log tail.hash := by
  induction built with
  | nil => exact .nil genesis
  | @snoc log tail draft _ _ previous ih =>
      refine HashChain.linked_snoc.mpr ⟨tail.hash, ih, ?_⟩
      rw [← previous]
      exact draft.chainCheck_storageDoc

theorem unique {other : Tail} (left : Built genesis log tail)
    (right : Built genesis log other) : tail = other := by
  have seq : tail.seq = other.seq := left.tail_seq.trans right.tail_seq.symm
  have hash := left.linked.unique right.linked
  cases tail
  cases other
  simp_all

theorem last {doc : Doc} (built : Built genesis log tail)
    (found : log.getLast? = some doc) :
    doc.get? "seq" = some (.int tail.seq) ∧ doc.get? "hash" = some (.str tail.hash) := by
  cases built with
  | nil => simp at found
  | snoc _ _ _ =>
      simp only [List.getLast?_append, List.getLast?_singleton, Option.some_or,
        Option.some.injEq] at found
      simp [← found]

theorem hash_of_seq {doc : Doc} (built : Built genesis log tail) (member : doc ∈ log)
    (greatest : doc.get "seq" = .int log.length) : doc.get "hash" = .str tail.hash := by
  obtain ⟨index, found⟩ := List.mem_iff_getElem?.mp member
  have seq := (built.get_seq found).symm.trans greatest
  simp only [Value.int.injEq] at seq
  have ends : log.getLast? = some doc := by
    rw [List.getLast?_eq_getElem?, ← found]
    congr 1
    omega
  simp [Doc.get, (built.last ends).2]

theorem ascending (built : Built genesis log tail) : Ascending log := by
  refine ⟨(List.range log.length).map fun index : Nat => (index + 1 : Int), ?_, ?_⟩
  · rw [built.seqs, List.map_map]
    rfl
  · rw [List.pairwise_map]
    refine List.pairwise_lt_range.imp ?_
    intro first second less
    omega

theorem trueTail (built : Built genesis log tail) : TrueTail genesis log tail := by
  cases found : log.getLast? with
  | none =>
      rw [List.getLast?_eq_none_iff] at found
      subst found
      rw [built.unique .nil]
      exact .empty
  | some doc =>
      obtain ⟨seq, hash⟩ := built.last found
      refine .greatest (List.mem_of_getLast? found) (by simp [Doc.get, seq])
        (by simp [Doc.get, hash]) ?_
      intro other member
      obtain ⟨index, at_index⟩ := List.mem_iff_getElem?.mp member
      have bound := (List.getElem?_eq_some_iff.mp at_index).1
      refine ⟨_, built.get_seq at_index, ?_⟩
      rw [built.tail_seq]
      omega

theorem sortBySeq_eq (built : Built genesis log tail) : sortBySeq log = log :=
  built.ascending.sortBySeq_eq

theorem refreshHead_eq (built : Built genesis log tail) :
    refreshHead genesis log = .ok tail := by
  unfold refreshHead
  rw [built.sortBySeq_eq]
  cases found : log.getLast? with
  | none =>
      rw [List.getLast?_eq_none_iff] at found
      subst found
      rw [Built.nil.unique built]
  | some doc =>
      obtain ⟨seq, hash⟩ := built.last found
      simp [subscript, seq, hash, pyInt, bind, Except.bind]

theorem verifyChain_eq (built : Built genesis log tail) :
    verifyChain genesis log = .ok ⟨log.length, tail.hash, true, none, none⟩ :=
  verifyChain_of_linked built.sortBySeq_eq built.linked

end Built

theorem sameIndexKey_int (left right : Int) :
    sameIndexKey (.int left) (.int right) = decide (left = right) := by
  simp [sameIndexKey, bsonRank, Value.pyEq, Value.spelling]

theorem sameIndexKey_self (text : String) :
    sameIndexKey (.str text) (.str text) = true := by
  rw [sameIndexKey, Bool.and_eq_true]
  exact ⟨decide_eq_true rfl, Value.pyEq_str_iff.mpr rfl⟩

theorem insertOne_eq_some {log next : EventLog} {doc : Doc}
    (inserted : insertOne log doc = some next) :
    next = log ++ [doc] ∧ ∀ stored ∈ log,
      sameIndexKey (stored.get "seq") (doc.get "seq") = false ∧
        sameIndexKey (stored.get "event_id") (doc.get "event_id") = false := by
  unfold insertOne at inserted
  split at inserted
  · cases inserted
  · rename_i fresh
    cases inserted
    simpa using fresh

/-- A tail that names the event at the end of some beginning of the log. -/
def Named (genesis : String) (log : EventLog) (tail : Tail) : Prop :=
  ∃ older newer, log = older ++ newer ∧ Built genesis older tail

section Named

variable {genesis : String} {log : EventLog} {tail : Tail}

theorem Built.named (built : Built genesis log tail) : Named genesis log tail :=
  ⟨log, [], by simp, built⟩

theorem Named.append (named : Named genesis log tail) (docs : EventLog) :
    Named genesis (log ++ docs) tail := by
  obtain ⟨older, newer, rfl, built⟩ := named
  exact ⟨older, newer ++ docs, by simp, built⟩

theorem named_init (genesis : String) (log : EventLog) :
    Named genesis log ⟨0, genesis⟩ :=
  ⟨[], log, rfl, .nil⟩

/-- A stale tail can only collide: what is inserted from a named tail extends the
log. -/
theorem Built.insert {current : Tail} {draft : Draft} {next : EventLog}
    (built : Built genesis log current) (named : Named genesis log tail)
    (seq : draft.seq = tail.seq + 1) (previous : draft.prevHash = tail.hash)
    (inserted : insertOne log draft.storageDoc = some next) :
    next = log ++ [draft.storageDoc] ∧ Built genesis next ⟨draft.seq, draft.hash⟩ := by
  obtain ⟨rfl, fresh⟩ := insertOne_eq_some inserted
  obtain ⟨older, newer, rfl, before⟩ := named
  cases newer with
  | nil =>
      rw [List.append_nil]
      exact ⟨rfl, .snoc before seq previous⟩
  | cons doc rest =>
      have stored : doc.get "seq" = .int (older.length + 1) :=
        built.get_seq (by simp)
      have collides := (fresh doc (by simp)).1
      rw [stored, draft.get_seq, sameIndexKey_int, seq, before.tail_seq] at collides
      simp at collides

end Named

def sampleArgs : AppendArgs where
  op := .insert
  intent := .newOrder
  priority := .urgent
  orderId := "1"
  diff := []
  before := none
  after := none
  resumeToken := none
  clusterTime := none

end OrderStream

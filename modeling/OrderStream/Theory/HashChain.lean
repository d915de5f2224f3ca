import Mathlib.Data.List.Forall2
import Mathlib.Data.List.Induction

/-! Chains of blocks.  `check head block` is the head a block leads to when it
extends the chain that ends in `head`, and `none` when it does not. -/

namespace HashChain

variable {δ : Type u} {β : Type v}

structure Walk (δ : Type u) (β : Type v) where
  verified : Nat
  head : δ
  broken : Option β

/-- Follow the chain from a head up to the first block that does not extend it. -/
def walk (check : δ → β → Option δ) (head : δ) : List β → Walk δ β
  | [] => ⟨0, head, none⟩
  | block :: rest =>
      match check head block with
      | none => ⟨0, head, some block⟩
      | some next =>
          let tail := walk check next rest
          ⟨tail.verified + 1, tail.head, tail.broken⟩

inductive Linked (check : δ → β → Option δ) : δ → List β → δ → Prop where
  | nil (head : δ) : Linked check head [] head
  | cons {head next last : δ} {block : β} {rest : List β} :
      check head block = some next → Linked check next rest last →
        Linked check head (block :: rest) last

variable {check : δ → β → Option δ}

theorem linked_append {head last : δ} {first second : List β} :
    Linked check head (first ++ second) last ↔
      ∃ middle, Linked check head first middle ∧ Linked check middle second last := by
  constructor
  · intro linked
    induction first generalizing head with
    | nil => exact ⟨head, .nil head, linked⟩
    | cons block first ih =>
        cases linked with
        | cons extended rest =>
            obtain ⟨middle, left, right⟩ := ih rest
            exact ⟨middle, .cons extended left, right⟩
  · rintro ⟨middle, left, right⟩
    induction left with
    | nil head => exact right
    | cons extended _ ih => exact .cons extended (ih right)

theorem linked_snoc {head last : δ} {blocks : List β} {block : β} :
    Linked check head (blocks ++ [block]) last ↔
      ∃ middle, Linked check head blocks middle ∧ check middle block = some last := by
  rw [linked_append]
  constructor
  · rintro ⟨middle, left, right⟩
    cases right with
    | cons extended rest =>
        cases rest
        exact ⟨middle, left, extended⟩
  · rintro ⟨middle, left, extended⟩
    exact ⟨middle, left, .cons extended (.nil last)⟩

theorem Linked.unique {head first second : δ} {blocks : List β}
    (left : Linked check head blocks first) (right : Linked check head blocks second) :
    first = second := by
  induction left with
  | nil _ =>
      cases right
      rfl
  | cons extended _ ih =>
      cases right with
      | cons other rest =>
          cases extended.symm.trans other
          exact ih rest

theorem walk_append {head middle : δ} {first : List β} (second : List β)
    (linked : Linked check head first middle) :
    walk check head (first ++ second) =
      ⟨first.length + (walk check middle second).verified,
        (walk check middle second).head, (walk check middle second).broken⟩ := by
  induction linked with
  | nil head => simp
  | @cons head next last block rest extended _ ih =>
      simp only [List.cons_append, walk, extended, ih, List.length_cons,
        Walk.mk.injEq, and_true]
      omega

theorem walk_linked {head last : δ} {blocks : List β}
    (linked : Linked check head blocks last) :
    walk check head blocks = ⟨blocks.length, last, none⟩ := by
  simpa [walk] using walk_append [] linked

theorem walk_stops {head middle : δ} {first second : List β} {block : β}
    (linked : Linked check head first middle) (stops : check middle block = none) :
    walk check head (first ++ block :: second) =
      ⟨first.length, middle, some block⟩ := by
  simpa [walk, stops] using walk_append (block :: second) linked

theorem linked_of_walk {head : δ} {blocks : List β}
    (whole : (walk check head blocks).broken = none) :
    Linked check head blocks (walk check head blocks).head := by
  induction blocks generalizing head with
  | nil => exact .nil head
  | cons block rest ih =>
      unfold walk at whole ⊢
      cases extended : check head block with
      | none => simp [extended] at whole
      | some next =>
          simp only [extended] at whole ⊢
          exact .cons extended (ih whole)

/-- A walk breaks at the first block that does not extend the chain before it. -/
theorem walk_broken_iff {head : δ} {blocks : List β} {block : β} :
    (walk check head blocks).broken = some block ↔
      ∃ before after middle, blocks = before ++ block :: after ∧
        Linked check head before middle ∧ check middle block = none := by
  constructor
  · intro broken
    induction blocks generalizing head with
    | nil => cases broken
    | cons first rest ih =>
        unfold walk at broken
        cases extended : check head first with
        | none =>
            simp only [extended, Option.some.injEq] at broken
            subst broken
            exact ⟨[], rest, head, rfl, .nil head, extended⟩
        | some next =>
            simp only [extended] at broken
            obtain ⟨before, after, middle, rfl, linked, stops⟩ := ih broken
            exact ⟨first :: before, after, middle, rfl, .cons extended linked, stops⟩
  · rintro ⟨before, after, middle, rfl, linked, stops⟩
    rw [walk_stops linked stops]

/-- The pairs of a head and a block that a walk checks, the last one included
when it does not extend the chain. -/
def visits (check : δ → β → Option δ) (head : δ) : List β → List (δ × β)
  | [] => []
  | block :: rest =>
      (head, block) ::
        match check head block with
        | none => []
        | some next => visits check next rest

theorem visits_cons {head next : δ} {block : β} (extended : check head block = some next)
    (rest : List β) :
    visits check head (block :: rest) = (head, block) :: visits check next rest := by
  simp [visits, extended]

theorem visits_singleton (head : δ) (block : β) :
    visits check head [block] = [(head, block)] := by
  cases extended : check head block <;> simp [visits, extended]

theorem visits_append {head middle : δ} {first : List β} (second : List β)
    (linked : Linked check head first middle) :
    visits check head (first ++ second) =
      visits check head first ++ visits check middle second := by
  induction linked with
  | nil head => rfl
  | cons extended _ ih => simp [visits, extended, ih]

theorem visits_snoc {head middle : δ} {blocks : List β} (block : β)
    (linked : Linked check head blocks middle) :
    visits check head (blocks ++ [block]) =
      visits check head blocks ++ [(middle, block)] := by
  rw [visits_append _ linked, visits_singleton]

theorem visits_head {head : δ} {blocks : List β} {visit : δ × β}
    (member : visit ∈ visits check head blocks) :
    visit.1 = head ∨ ∃ earlier ∈ visits check head blocks,
      check earlier.1 earlier.2 = some visit.1 := by
  induction blocks generalizing head with
  | nil => cases member
  | cons block rest ih =>
      rcases List.mem_cons.mp member with rfl | later
      · exact Or.inl rfl
      · right
        cases extended : check head block with
        | none => simp [extended] at later
        | some next =>
            simp only [extended] at later
            rcases ih later with same | ⟨earlier, reached, leads⟩
            · exact ⟨(head, block), by simp [visits], by rw [same, extended]⟩
            · exact ⟨earlier, by simp [visits, extended, reached], leads⟩

/-! Two chains with one head agree block for block, when no head is reached in
two ways and the first head is never reached. -/

section Binding

variable {genesis : δ} {Same : β → β → Prop}

theorem Linked.eq_nil_of_genesis {blocks : List β}
    (linked : Linked check genesis blocks genesis)
    (unreached : ∀ visit ∈ visits check genesis blocks,
      check visit.1 visit.2 ≠ some genesis) : blocks = [] := by
  rcases List.eq_nil_or_concat blocks with rfl | ⟨rest, block, rfl⟩
  · rfl
  · rw [List.concat_eq_append] at linked unreached
    obtain ⟨middle, before, extended⟩ := linked_snoc.mp linked
    rw [visits_snoc block before] at unreached
    exact absurd extended (unreached (middle, block) (by simp))

theorem binding {first second : List β} {last : δ}
    (left : Linked check genesis first last) (right : Linked check genesis second last)
    (unreached : ∀ visit ∈ visits check genesis first ++ visits check genesis second,
      check visit.1 visit.2 ≠ some genesis)
    (oneWay : ∀ visit ∈ visits check genesis first,
      ∀ other ∈ visits check genesis second,
        (check visit.1 visit.2).isSome → check visit.1 visit.2 = check other.1 other.2 →
          visit.1 = other.1 ∧ Same visit.2 other.2) :
    List.Forall₂ Same first second := by
  induction first using List.reverseRecOn generalizing second last with
  | nil =>
      cases left
      have empty := right.eq_nil_of_genesis fun visit member =>
        unreached visit (by simpa [visits] using member)
      rw [empty]
      exact .nil
  | append_singleton first block ih =>
      obtain ⟨middle, leftBefore, leftExtends⟩ := linked_snoc.mp left
      rw [visits_snoc block leftBefore] at unreached oneWay
      rcases List.eq_nil_or_concat second with rfl | ⟨rest, other, rfl⟩
      · cases right
        exact absurd leftExtends (unreached (middle, block) (by simp))
      · rw [List.concat_eq_append] at right unreached oneWay ⊢
        obtain ⟨otherMiddle, rightBefore, rightExtends⟩ := linked_snoc.mp right
        rw [visits_snoc other rightBefore] at unreached oneWay
        obtain ⟨heads, same⟩ := oneWay (middle, block) (by simp)
          (otherMiddle, other) (by simp) (by simp [leftExtends])
          (leftExtends.trans rightExtends.symm)
        cases heads
        have rest := ih leftBefore rightBefore
          (fun visit member => unreached visit (by
            rcases List.mem_append.mp member with member | member <;> simp [member]))
          (fun visit member other otherMember =>
            oneWay visit (by simp [member]) other (by simp [otherMember]))
        exact List.rel_append rest (.cons same .nil)

end Binding

/-! Editing and deleting blocks of a chain.  A record of the tampering pairs each
original block with what is left of it. -/

section Tampering

def heads (check : δ → β → Option δ) (head : δ) : List β → List δ
  | [] => [head]
  | block :: rest =>
      head ::
        match check head block with
        | none => []
        | some next => heads check next rest

theorem heads_suffix {head middle : δ} {first : List β} (second : List β)
    (linked : Linked check head first middle) :
    heads check middle second <:+ heads check head (first ++ second) := by
  induction linked with
  | nil head => exact List.suffix_refl _
  | @cons head next last block rest extended _ ih =>
      simp only [List.cons_append, heads, extended]
      exact ih.trans (List.suffix_cons head _)

theorem heads_snoc {head last next : δ} {blocks : List β} {block : β}
    (linked : Linked check head blocks last) (extended : check last block = some next) :
    heads check head (blocks ++ [block]) = heads check head blocks ++ [next] := by
  induction linked with
  | nil head => simp [heads, extended]
  | cons first _ ih => simp [heads, first, ih extended]

theorem mem_heads {head reached : δ} {blocks : List β}
    (member : reached ∈ heads check head blocks) :
    reached = head ∨ ∃ visit ∈ visits check head blocks,
      check visit.1 visit.2 = some reached := by
  induction blocks generalizing head with
  | nil => exact Or.inl (List.mem_singleton.mp member)
  | cons block rest ih =>
      rcases List.mem_cons.mp member with same | later
      · exact Or.inl same
      · right
        cases extended : check head block with
        | none => simp [extended] at later
        | some next =>
            simp only [extended] at later
            rcases ih later with same | ⟨visit, visited, leads⟩
            · exact ⟨(head, block), by simp [visits], by rw [same, extended]⟩
            · exact ⟨visit, by simp [visits, extended, visited], leads⟩

theorem Linked.mem_heads {head last : δ} {blocks : List β}
    (linked : Linked check head blocks last) : last ∈ heads check head blocks := by
  induction linked with
  | nil head => simp [heads]
  | cons extended _ ih => simp [heads, extended, ih]

theorem Linked.head_ne {head middle last : δ} {first second third : List β}
    (before : Linked check head first middle) (stretch : Linked check middle second last)
    (distinct : (heads check head (first ++ (second ++ third))).Nodup)
    (nonempty : second ≠ []) : middle ≠ last := by
  have distinct := distinct.sublist (heads_suffix (second ++ third) before).sublist
  cases stretch with
  | nil => exact absurd rfl nonempty
  | @cons _ next _ block rest extended tail =>
      simp only [List.cons_append, heads, extended, List.nodup_cons] at distinct
      rintro rfl
      exact distinct.1 ((heads_suffix third tail).subset (by
        cases third <;> simp [heads]))

def survivors (record : List (β × Option β)) : List β := record.filterMap Prod.snd

/-- A block kept as it was: it extends exactly what the original extended. -/
def Untouched (check : δ → β → Option δ) (block left : β) : Prop :=
  ∀ head, check head left = check head block

theorem survivors_append (first second : List (β × Option β)) :
    survivors (first ++ second) = survivors first ++ survivors second := by
  simp [survivors]

theorem survivors_deleted {record : List (β × Option β)}
    (deleted : ∀ entry ∈ record, entry.2 = none) : survivors record = [] := by
  simpa [survivors] using fun first second member => deleted (first, second) member

theorem linked_survivors {head last : δ} {record : List (β × Option β)}
    (linked : Linked check head (record.map Prod.fst) last)
    (kept : ∀ entry ∈ record, ∃ left, entry.2 = some left ∧
      Untouched check entry.1 left) :
    Linked check head (survivors record) last := by
  induction record generalizing head with
  | nil =>
      cases linked
      exact .nil last
  | cons entry rest ih =>
      obtain ⟨left, remains, untouched⟩ := kept entry (by simp)
      cases linked with
      | cons extended tail =>
          rw [survivors, List.filterMap_cons_some remains]
          exact .cons ((untouched _).trans extended)
            (ih tail fun entry member => kept entry (by simp [member]))

variable {kept dropped rest : List (β × Option β)} {head last : δ}

theorem linked_of_truncated
    (linked : Linked check head ((kept ++ dropped).map Prod.fst) last)
    (untouched : ∀ entry ∈ kept, ∃ left, entry.2 = some left ∧
      Untouched check entry.1 left)
    (deleted : ∀ entry ∈ dropped, entry.2 = none) :
    ∃ middle, Linked check head (survivors (kept ++ dropped)) middle := by
  rw [List.map_append] at linked
  obtain ⟨middle, before, -⟩ := linked_append.mp linked
  rw [survivors_append, survivors_deleted deleted, List.append_nil]
  exact ⟨middle, linked_survivors before untouched⟩

/-- The walk stops at the first block that was edited or has lost its
predecessor. -/
theorem walk_of_tampered {block left : β}
    (linked : Linked check head
      ((kept ++ (dropped ++ (block, some left) :: rest)).map Prod.fst) last)
    (distinct : (heads check head
      ((kept ++ (dropped ++ (block, some left) :: rest)).map Prod.fst)).Nodup)
    (untouched : ∀ entry ∈ kept, ∃ left, entry.2 = some left ∧
      Untouched check entry.1 left)
    (deleted : ∀ entry ∈ dropped, entry.2 = none)
    (anchored : ∀ first second, (check first left).isSome → (check second block).isSome →
      first = second)
    (cause : dropped ≠ [] ∨ ∀ head, check head left = none) :
    ∃ middle, walk check head
        (survivors (kept ++ (dropped ++ (block, some left) :: rest))) =
      ⟨(survivors kept).length, middle, some left⟩ := by
  simp only [List.map_append, List.map_cons] at linked distinct
  obtain ⟨middle, before, linked⟩ := linked_append.mp linked
  obtain ⟨previous, stretch, linked⟩ := linked_append.mp linked
  cases linked with
  | cons extended _ =>
      have stops : check middle left = none := by
        rcases cause with lost | edited
        · by_contra passes
          have same := anchored middle previous
            (Option.isSome_iff_ne_none.mpr passes) (by simp [extended])
          exact before.head_ne stretch distinct (by simpa using lost) same
        · exact edited middle
      refine ⟨middle, ?_⟩
      rw [survivors_append, survivors_append, survivors_deleted deleted,
        List.nil_append]
      exact walk_stops (linked_survivors before untouched) stops

def DeletesSuffix (record : List (β × Option β)) : Prop :=
  ∃ kept dropped, record = kept ++ dropped ∧ (∀ entry ∈ kept, entry.2.isSome) ∧
    ∀ entry ∈ dropped, entry.2 = none

theorem DeletesSuffix.deleted_after {before after : List (β × Option β)}
    (suffix : DeletesSuffix (before ++ after)) {lost entry : β × Option β}
    (deleted : lost.2 = none) (earlier : lost ∈ before) (later : entry ∈ after) :
    entry.2 = none := by
  obtain ⟨kept, dropped, split, remains, gone⟩ := suffix
  have ordered : (kept ++ dropped).Pairwise fun first second =>
      first.2 = none → second.2 = none := by
    rw [List.pairwise_append]
    refine ⟨?_, ?_, ?_⟩
    · refine List.pairwise_of_forall_mem_list ?_
      intro first member second _ none
      simpa [none] using remains first member
    · refine List.pairwise_of_forall_mem_list ?_
      intro first _ second member _
      exact gone second member
    · intro first _ second member _
      exact gone second member
  rw [← split, List.pairwise_append] at ordered
  exact ordered.2.2 lost earlier entry later deleted

/-- A record is whole, has lost its end, or has a first block that was edited or
has lost its predecessor. -/
theorem tampering_cases (Same : β → β → Prop) (record : List (β × Option β)) :
    ∃ kept dropped rest, record = kept ++ (dropped ++ rest) ∧
      (∀ entry ∈ kept, ∃ left, entry.2 = some left ∧ Same entry.1 left) ∧
      (∀ entry ∈ dropped, entry.2 = none) ∧
      (rest = [] ∨ ∃ block left later, rest = (block, some left) :: later ∧
        (dropped ≠ [] ∨ ¬Same block left)) := by
  induction record with
  | nil => exact ⟨[], [], [], rfl, by simp, by simp, Or.inl rfl⟩
  | cons entry record ih =>
      obtain ⟨kept, dropped, rest, split, same, deleted, tampered⟩ := ih
      obtain ⟨block, remains⟩ := entry
      cases remains with
      | none =>
          cases kept with
          | nil =>
              refine ⟨[], (block, none) :: dropped, rest, by simp [split], by simp, ?_, ?_⟩
              · simpa using deleted
              · rcases tampered with whole | ⟨bad, left, later, at_bad, -⟩
                · exact Or.inl whole
                · exact Or.inr ⟨bad, left, later, at_bad, Or.inl (by simp)⟩
          | cons first kept =>
              obtain ⟨left, remains, -⟩ := same first (by simp)
              obtain ⟨firstBlock, firstLeft⟩ := first
              cases remains
              exact ⟨[], [(block, none)], record, rfl, by simp, by simp,
                Or.inr ⟨firstBlock, left, _, split, Or.inl (by simp)⟩⟩
      | some left =>
          by_cases untouched : Same block left
          · refine ⟨(block, some left) :: kept, dropped, rest, by simp [split], ?_,
              deleted, tampered⟩
            intro entry member
            rcases List.mem_cons.mp member with rfl | member
            · exact ⟨left, rfl, untouched⟩
            · exact same entry member
          · exact ⟨[], [], (block, some left) :: record, rfl, by simp, by simp,
              Or.inr ⟨block, left, record, rfl, Or.inr untouched⟩⟩

end Tampering

end HashChain

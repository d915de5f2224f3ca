import OrderStream.Auth

/-! The subscription that the first frame of a connection reports, `connected` of `/stream` or
`hello` of `/ws`, given back as a query string. -/

namespace OrderStream

/-- `"subscription"` of the frame. -/
structure ReportedSubscription where
  intents : Option (List String)
  customer : Option String

namespace Subscription

/-- `order` lists a set as Python iterates over it. -/
def reported (order : Finset Intent → List Intent) (subscription : Subscription) :
    ReportedSubscription where
  intents :=
    match subscription.intents with
    | some intents => if intents = ∅ then none else some ((order intents).map Intent.value)
    | none => none
  customer := subscription.customer

def reconnected (reported : ReportedSubscription) : Subscription :=
  parse (reported.intents.map fun intents => ",".intercalate intents) reported.customer

theorem strip_value (intent : Intent) : strip intent.value.toList = intent.value.toList := by
  cases intent <;> decide

theorem comma_not_mem_value (intent : Intent) : ',' ∉ intent.value.toList := by
  cases intent <;> decide

theorem value_ne_empty (intent : Intent) : intent.value ≠ "" := by
  cases intent <;> decide

theorem intentParts_intercalate {intents : List Intent} (some : intents ≠ []) :
    intentParts (",".intercalate (intents.map Intent.value)) = intents.map Intent.value := by
  have split : (",".intercalate (intents.map Intent.value)).toList.splitOn ',' =
      intents.map fun intent => intent.value.toList := by
    rw [String.toList_intercalate, List.map_map]
    apply List.splitOn_intercalate
    · intro part member
      obtain ⟨intent, -, rfl⟩ := List.mem_map.mp member
      exact comma_not_mem_value intent
    · rw [ne_eq, List.map_eq_nil_iff]
      exact some
  rw [intentParts, split, List.map_map]
  have stripped : ((fun part => String.ofList (strip part)) ∘
      fun intent : Intent => intent.value.toList) = Intent.value := by
    funext intent
    rw [Function.comp, strip_value, String.ofList_toList]
  rw [stripped, List.filter_eq_self]
  intro part member
  obtain ⟨intent, -, rfl⟩ := List.mem_map.mp member
  exact decide_eq_true (value_ne_empty intent)

theorem mapM_intentNamed_values (intents : List Intent) :
    (intents.map Intent.value).mapM intentNamed = .ok intents := by
  induction intents with
  | nil => rfl
  | cons intent rest ih =>
      rw [List.map_cons, List.mapM_cons, intentNamed_value, ih]
      rfl

theorem parse_intercalate {intents : List Intent} (some : intents ≠ [])
    (customerParam : Option String) :
    (parse (.some (",".intercalate (intents.map Intent.value))) customerParam).intents =
      .some intents.toFinset := by
  have parts := intentParts_intercalate some
  have nonEmpty : ",".intercalate (intents.map Intent.value) ≠ "" := by
    intro empty
    rw [empty] at parts
    apply some
    rw [← List.map_eq_nil_iff (f := Intent.value), ← parts]
    decide
  rw [parse_intents nonEmpty, parts, mapM_intentNamed_values]

theorem named_of_mapM {parts : List String} {intents : List Intent}
    (read : parts.mapM intentNamed = .ok intents) : intents.map Intent.value = parts := by
  induction parts generalizing intents with
  | nil =>
      cases read
      rfl
  | cons part rest ih =>
      rw [List.mapM_cons] at read
      cases first : intentNamed part with
      | error error =>
          rw [first] at read
          cases read
      | ok intent =>
          cases others : rest.mapM intentNamed with
          | error error =>
              rw [first, others] at read
              cases read
          | ok more =>
              rw [first, others] at read
              cases read
              rw [List.map_cons, ih others, intentNamed_eq_ok first]

/-- The filter that nothing passes comes from a query string of commas and white space. -/
theorem parse_intents_empty_iff (intentsParam customerParam : Option String) :
    (parse intentsParam customerParam).intents = some ∅ ↔
      ∃ query, intentsParam = some query ∧ query ≠ "" ∧ intentParts query = [] := by
  constructor
  · intro nothing
    cases intentsParam with
    | none => cases nothing
    | some query =>
        have nonEmpty : query ≠ "" := by
          rintro rfl
          cases nothing
        refine ⟨query, rfl, nonEmpty, ?_⟩
        rw [parse_intents nonEmpty] at nothing
        split at nothing
        · rename_i intents read
          have none : intents = [] :=
            List.toFinset_eq_empty_iff intents |>.mp (Option.some.inj nothing)
          rw [← named_of_mapM read, none, List.map_nil]
        · cases nothing
  · rintro ⟨query, rfl, nonEmpty, nothing⟩
    rw [parse_intents nonEmpty, nothing]
    rfl

theorem parse_customer_parse (intentsParam other customerParam : Option String) :
    (parse other (parse intentsParam customerParam).customer).customer =
      (parse intentsParam customerParam).customer := by
  cases customerParam with
  | none => rfl
  | some customer =>
      by_cases empty : customer = ""
      · subst empty
        rfl
      · have kept (query : Option String) : (parse query (some customer)).customer =
            some customer := by
          unfold parse
          dsimp only
          split
          · cases ‹_›
          · exact absurd (Option.some.inj ‹_›) empty
          · exact ‹some customer = some _›.symm
        rw [kept, kept]

theorem eq_of_fields {left right : Subscription} (intents : left.intents = right.intents)
    (customer : left.customer = right.customer) : left = right := by
  cases left
  cases right
  rw [Subscription.mk.injEq]
  exact ⟨intents, customer⟩

/-- Giving back what the first frame reports subscribes to the same again, whatever the two
parameters were, exactly when the intents are not a string of commas and white space: that
passes nothing and is reported as no filter. -/
theorem hello_reconnects_iff {order : Finset Intent → List Intent}
    (lists : ∀ intents, (order intents).toFinset = intents)
    (intentsParam customerParam : Option String) :
    reconnected ((parse intentsParam customerParam).reported order) =
        parse intentsParam customerParam ↔
      ∀ query, intentsParam = some query → query ≠ "" → intentParts query ≠ [] := by
  have passes : (∀ query, intentsParam = some query → query ≠ "" → intentParts query ≠ []) ↔
      (parse intentsParam customerParam).intents ≠ some ∅ := by
    rw [ne_eq, parse_intents_empty_iff, not_exists]
    simp only [not_and]
  rw [passes]
  cases found : (parse intentsParam customerParam).intents with
  | none =>
      refine iff_of_true (eq_of_fields ?_ (parse_customer_parse _ _ _)) (fun same => by cases same)
      rw [reconnected, reported, found]
      rfl
  | some intents =>
      by_cases empty : intents = ∅
      · refine iff_of_false ?_ (fun passes => passes (congrArg some empty))
        intro same
        have none := congrArg Subscription.intents same
        rw [found, reconnected, reported, found] at none
        simp only [if_pos empty] at none
        cases none
      · refine iff_of_true (eq_of_fields ?_ (parse_customer_parse _ _ _))
          (fun same => empty (Option.some.inj same))
        have listed : order intents ≠ [] := by
          intro nothing
          apply empty
          rw [← lists intents, nothing]
          rfl
        rw [reconnected, reported, found]
        simp only [if_neg empty, Option.map_some]
        rw [parse_intercalate listed, lists]

/-- Two names with white space around them. -/
theorem hello_reconnects_of_two :
    ∃ order : Finset Intent → List Intent,
      (∀ intents, (order intents).toFinset = intents) ∧
        reconnected ((parse (some " deletion ,cancellation,") (some "Alice")).reported order) =
          parse (some " deletion ,cancellation,") (some "Alice") := by
  have lists : ∀ intents : Finset Intent,
      (allIntents.filter (· ∈ intents)).toFinset = intents := by
    intro intents
    ext intent
    cases intent <;> simp [allIntents]
  refine ⟨fun intents => allIntents.filter (· ∈ intents), lists,
    (hello_reconnects_iff lists _ _).mpr ?_⟩
  rintro query named -
  rw [← Option.some.inj named]
  decide +kernel

end Subscription

end OrderStream

import Mathlib.Data.Finset.Dedup
import Mathlib.Data.Finset.Insert
import OrderStream.Models

namespace OrderStream

/-- `none` stands for all intents, and for all customers. -/
structure Subscription where
  intents : Option (Finset Intent) := none
  customer : Option String := none

/-- `doc or other` -/
def Doc.orElse (doc : Option Doc) (other : Doc) : Doc :=
  match doc with
  | some found => if found.entries.isEmpty then other else found
  | none => other

/-- The document of an event that the filter looks at. -/
def filteredDoc (before after : Option Doc) : Doc :=
  Doc.orElse after (Doc.orElse before ∅)

def Subscription.matches (subscription : Subscription) (event : Event) : Bool :=
  if subscription.intents.any fun intents => decide (event.intent ∉ intents) then false
  else
    match subscription.customer with
    | some customer =>
        let doc := filteredDoc event.before event.after
        (doc.get "customer_name").pyEq (.str customer)
    | none => true

namespace Subscription

def AllowsIntent (subscription : Subscription) (intent : Intent) : Prop :=
  ∀ intents, subscription.intents = some intents → intent ∈ intents

def AllowsOwner (subscription : Subscription) (doc : Doc) : Prop :=
  ∀ customer, subscription.customer = some customer →
    doc.get "customer_name" = .str customer

theorem matches_iff (subscription : Subscription) (event : Event) :
    subscription.matches event = true ↔
      subscription.AllowsIntent event.intent ∧
        subscription.AllowsOwner (filteredDoc event.before event.after) := by
  unfold Subscription.matches AllowsIntent AllowsOwner
  cases subscription.intents <;> cases subscription.customer <;>
    simp [Value.pyEq_str_iff]

def strip (text : List Char) : List Char :=
  ((text.dropWhile isPySpace).reverse.dropWhile isPySpace).reverse

/-- `[p.strip() for p in intents_param.split(",") if p.strip()]` -/
def intentParts (intentsParam : String) : List String :=
  ((intentsParam.toList.splitOn ',').map fun part => String.ofList (strip part)).filter
    fun part => part ≠ ""

def allIntents : List Intent :=
  [.newOrder, .statusChange, .cancellation, .priceCorrection, .deletion, .other]

/-- `Intent(p)` -/
def intentNamed (name : String) : Except PyError Intent :=
  match allIntents.find? fun intent => intent.value = name with
  | some intent => .ok intent
  | none => .error .valueError

def parse (intentsParam customerParam : Option String) : Subscription where
  intents :=
    match intentsParam with
    | none | some "" => none
    | some intentsParam =>
        match (intentParts intentsParam).mapM intentNamed with
        | .ok intents => some intents.toFinset
        -- `except ValueError`
        | .error _ => none
  customer :=
    match customerParam with
    | none | some "" => none
    | some customer => some customer

theorem intentNamed_value (intent : Intent) : intentNamed intent.value = .ok intent := by
  cases intent <;> decide

theorem intentNamed_eq_ok {name : String} {intent : Intent}
    (found : intentNamed name = .ok intent) : intent.value = name := by
  unfold intentNamed at found
  split at found
  · rename_i known
    cases found
    simpa using List.find?_some known
  · cases found

theorem intentNamed_eq_error {name : String} (unknown : ∀ intent : Intent, intent.value ≠ name) :
    intentNamed name = .error .valueError := by
  cases found : intentNamed name with
  | ok intent => exact absurd (intentNamed_eq_ok found) (unknown intent)
  | error error =>
      unfold intentNamed at found
      split at found
      · cases found
      · exact found.symm

theorem mapM_intentNamed {parts : List String}
    (known : ∀ part ∈ parts, ∃ intent : Intent, intent.value = part) :
    ∃ intents, parts.mapM intentNamed = .ok intents ∧ intents.map Intent.value = parts := by
  induction parts with
  | nil => exact ⟨[], rfl, rfl⟩
  | cons part rest ih =>
      obtain ⟨intent, rfl⟩ := known part List.mem_cons_self
      obtain ⟨intents, read, named⟩ :=
        ih fun other member => known other (List.mem_cons_of_mem _ member)
      refine ⟨intent :: intents, ?_, by rw [List.map_cons, named]⟩
      rw [List.mapM_cons, intentNamed_value, read]
      rfl

theorem mapM_intentNamed_error {parts : List String} {part : String} (member : part ∈ parts)
    (unknown : ∀ intent : Intent, intent.value ≠ part) :
    ∃ error, parts.mapM intentNamed = .error error := by
  induction parts with
  | nil => cases member
  | cons first rest ih =>
      rw [List.mapM_cons]
      cases read : intentNamed first with
      | error error => exact ⟨error, rfl⟩
      | ok intent =>
          rcases List.mem_cons.mp member with rfl | later
          · rw [intentNamed_eq_error unknown] at read
            cases read
          · obtain ⟨error, failed⟩ := ih later
            exact ⟨error, by rw [failed]; rfl⟩

theorem parse_intents {intentsParam : String} (nonEmpty : intentsParam ≠ "")
    (customerParam : Option String) :
    (parse (some intentsParam) customerParam).intents =
      match (intentParts intentsParam).mapM intentNamed with
      | .ok intents => some intents.toFinset
      | .error _ => none := by
  unfold parse
  split
  · rename_i contra
    cases contra
  · rename_i contra
    exact absurd (Option.some.inj contra) nonEmpty
  · rename_i same
    cases same
    rfl

def ownEvent (intent : Intent) (customer : Option String) : Event where
  eventId := "event"
  seq := 1
  op := .update
  intent := intent
  priority := intentPriority intent
  orderId := "1"
  diff := []
  after := customer.map fun customer => ⟨[("customer_name", .str customer)], by simp⟩
  ts := sampleTime
  prevHash := ""
  hash := ""

theorem matches_ownEvent (intent : Intent) {subscription : Subscription}
    (all : subscription.intents = none) :
    subscription.matches (ownEvent intent subscription.customer) = true := by
  rw [matches_iff]
  constructor
  · intro intents some
    rw [all] at some
    cases some
  · intro customer owned
    simp [ownEvent, owned, filteredDoc, Doc.orElse, Doc.get, PyDict.get?]

/-- A subscription with an intents parameter is held to the names in it iff all of them are
intents, or every intent is among them: one unknown name subscribes to all. -/
theorem intent_filter_closed_iff {intentsParam : String} (nonEmpty : intentsParam ≠ "")
    (customerParam : Option String) :
    (∀ event, (parse (some intentsParam) customerParam).matches event = true →
        event.intent.value ∈ intentParts intentsParam) ↔
      (∀ part ∈ intentParts intentsParam, ∃ intent : Intent, intent.value = part) ∨
        ∀ intent : Intent, intent.value ∈ intentParts intentsParam := by
  have read := parse_intents nonEmpty customerParam
  constructor
  · intro closed
    by_cases known : ∀ part ∈ intentParts intentsParam, ∃ intent : Intent, intent.value = part
    · exact Or.inl known
    · right
      simp only [not_forall, not_exists] at known
      obtain ⟨part, member, unknown⟩ := known
      obtain ⟨error, failed⟩ := mapM_intentNamed_error member unknown
      rw [failed] at read
      intro intent
      exact closed _ (matches_ownEvent intent read)
  · rintro (known | complete) event matched
    · obtain ⟨intents, parsed, named⟩ := mapM_intentNamed known
      rw [parsed] at read
      have allowed := ((matches_iff _ _).mp matched).1 _ read
      rw [List.mem_toFinset] at allowed
      rw [← named]
      exact List.mem_map_of_mem allowed
    · exact complete event.intent

theorem intent_filter_closed_of_two :
    (parse (some " cancellation , ,deletion") none).matches (ownEvent .deletion none) = true ∧
      (ownEvent .deletion none).intent.value ∈ intentParts " cancellation , ,deletion" := by
  have matched : (parse (some " cancellation , ,deletion") none).matches
      (ownEvent .deletion none) = true := by
    decide +kernel
  have parts : intentParts " cancellation , ,deletion" =
      [Intent.cancellation.value, Intent.deletion.value] := by
    decide +kernel
  refine ⟨matched, ?_⟩
  refine (intent_filter_closed_iff (by decide) none).mpr (Or.inl ?_) _ matched
  rw [parts]
  intro part member
  obtain ⟨intent, -, named⟩ :=
    List.mem_map.mp (show part ∈ [Intent.cancellation, .deletion].map Intent.value from member)
  exact ⟨intent, named⟩

theorem misspelled_intent_subscribes_to_all :
    ¬∀ event, (parse (some "cancellation,delivery") none).matches event = true →
      event.intent.value ∈ intentParts "cancellation,delivery" := by
  intro closed
  have matched : (parse (some "cancellation,delivery") none).matches
      (ownEvent .newOrder none) = true := by
    decide +kernel
  exact absurd (closed _ matched) (by decide +kernel)

end Subscription

end OrderStream

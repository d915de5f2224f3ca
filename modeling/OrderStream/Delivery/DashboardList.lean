import OrderStream.Models

namespace OrderStream

inductive ListChild where
  | card (ev : Doc)
  | eventsEmpty

/-- The intents that the chips let through, and the children of `eventsList`. -/
structure EventsList where
  filters : List String := ["new_order", "status_change", "cancellation", "price_correction",
    "deletion", "other"]
  children : List ListChild := [.eventsEmpty]

inductive EventsListAction where
  | renderEvent (ev : Doc)
  | toggle (intent : String)

namespace EventsList

def maxEvents : Nat := 200

/-- The loop at the end of `renderEvent`. -/
def trim (children : List ListChild) : List ListChild :=
  if maxEvents + 1 < children.length then
    match children.getLast? with
    | some (.card _) => trim children.dropLast
    -- `break`
    | some .eventsEmpty | none => children
  else children
termination_by children.length
decreasing_by simp; omega

def admits (list : EventsList) (ev : Doc) : Bool :=
  list.filters.any fun intent => (ev.get "intent").pyEq (.str intent)

def renderEvent (list : EventsList) (ev : Doc) : EventsList :=
  if list.admits ev then { list with children := trim (.card ev :: list.children) } else list

def toggle (list : EventsList) (intent : String) : EventsList :=
  { list with
    filters :=
      if intent ∈ list.filters then list.filters.filter fun other => decide (other ≠ intent)
      else list.filters ++ [intent] }

def step (list : EventsList) : EventsListAction → EventsList
  | .renderEvent ev => list.renderEvent ev
  | .toggle intent => list.toggle intent

/-- The events that came while a chip let them through, in the order they came. -/
def rendered (list : EventsList) : List EventsListAction → List Doc
  | [] => []
  | .renderEvent ev :: rest =>
      if list.admits ev then ev :: (list.renderEvent ev).rendered rest else list.rendered rest
  | .toggle intent :: rest => (list.toggle intent).rendered rest

/-- The loop stops at the element that the list starts with. -/
theorem trim_of_eventsEmpty (cards : List ListChild) :
    trim (cards ++ [.eventsEmpty]) = cards ++ [.eventsEmpty] := by
  rw [trim]
  split
  · rw [List.getLast?_concat]
  · rfl

theorem children_step {list : EventsList} {cards : List Doc}
    (shows : list.children = cards.map .card ++ [.eventsEmpty]) (ev : Doc) :
    (list.renderEvent ev).children =
      (if list.admits ev then ev :: cards else cards).map .card ++ [.eventsEmpty] := by
  unfold renderEvent
  split
  · rw [shows, ← List.cons_append, trim_of_eventsEmpty]
    rfl
  · exact shows

theorem children_foldl {list : EventsList} {cards : List Doc}
    (shows : list.children = cards.map .card ++ [.eventsEmpty])
    (actions : List EventsListAction) :
    (actions.foldl step list).children =
      ((list.rendered actions).reverse ++ cards).map .card ++ [.eventsEmpty] := by
  induction actions generalizing list cards with
  | nil => exact shows
  | cons action rest ih =>
      cases action with
      | toggle intent => exact ih shows
      | renderEvent ev =>
          rw [List.foldl_cons, step, ih (children_step shows ev), rendered]
          split
          · rw [List.reverse_cons, List.append_assoc]
            rfl
          · rename_i hidden
            rw [renderEvent, if_neg hidden]

/-- Whatever events come and whichever chips are clicked, no card is ever removed: the list
shows every event that a chip let through, the newest first, however many there are. -/
theorem never_trimmed (actions : List EventsListAction) :
    (actions.foldl step {}).children =
      (({} : EventsList).rendered actions).reverse.map .card ++ [.eventsEmpty] := by
  have shows : ({} : EventsList).children = ([] : List Doc).map .card ++ [.eventsEmpty] := rfl
  rw [children_foldl shows, List.append_nil]

end EventsList

end OrderStream

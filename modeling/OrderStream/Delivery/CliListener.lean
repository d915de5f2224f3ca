import OrderStream.Auth
import OrderStream.Data.Lines

/-! The listener on the command line, which reads the stream line by line. -/

namespace OrderStream

/-- What is handed to `json.loads`; no error of it or of the rendering ends the loop. -/
inductive Heard where
  | change (text : String)
  | systemHealth (text : String)
  deriving DecidableEq

structure CliListener where
  eventName : String := "message"
  dataLines : List String := []
  heard : List Heard := []

def afterLabel (label line : String) : Option String :=
  if label.toList.isPrefixOf line.toList then
    some (String.ofList (line.toList.drop label.length))
  else none

def Heard.of? (eventName : String) (dataLines : List String) : Option Heard :=
  if dataLines.isEmpty then none
  else if eventName = "change" then some (.change ("\n".intercalate dataLines))
  else if eventName = "system_health" then some (.systemHealth ("\n".intercalate dataLines))
  else none

namespace CliListener

/-- One turn of the loop over `r.iter_lines()`. -/
def read (listener : CliListener) (line : String) : CliListener :=
  if line = "" then
    { heard := listener.heard ++ (Heard.of? listener.eventName listener.dataLines).toList }
  else
    match afterLabel "event: " line with
    | some name =>
        { listener with eventName := String.ofList (Subscription.strip name.toList) }
    | none =>
        match afterLabel "data: " line with
        | some text => { listener with dataLines := listener.dataLines ++ [text] }
        | none => listener

def listen (lines : List String) : List Heard := (lines.foldl read {}).heard

/-- Where `str.splitlines` ends a line. -/
def isLineBreak (c : Char) : Bool :=
  [10, 11, 12, 13, 28, 29, 30, 133, 8232, 8233].contains c.toNat

/-- `r.iter_lines()` over a stream that has ended. -/
def iterLines (text : List Char) : List String := Lines.lines isLineBreak text

def blockName (block : List String) : String :=
  ((block.filterMap (afterLabel "event: ")).getLast?.map fun name =>
    String.ofList (Subscription.strip name.toList)).getD "message"

def blockData (block : List String) : List String := block.filterMap (afterLabel "data: ")

def blockHeard (block : List String) : Option Heard :=
  Heard.of? (blockName block) (blockData block)

theorem data_of_event {line name : String} (event : afterLabel "event: " line = some name) :
    afterLabel "data: " line = none := by
  unfold afterLabel at event ⊢
  split at event
  · rename_i starts
    obtain ⟨rest, line⟩ := List.isPrefixOf_iff_prefix.mp starts
    rw [← line]
    rfl
  · cases event

structure Within (listener : CliListener) (block : List String) : Prop where
  unbroken : "" ∉ block
  name : listener.eventName = blockName block
  data : listener.dataLines = blockData block

theorem Within.read {listener : CliListener} {block : List String}
    (within : listener.Within block) {line : String} (some : line ≠ "") :
    (listener.read line).Within (block ++ [line]) ∧
      (listener.read line).heard = listener.heard := by
  obtain ⟨unbroken, name, data⟩ := within
  have onward : "" ∉ block ++ [line] := by
    simp [unbroken, Ne.symm some]
  unfold CliListener.read
  rw [if_neg some]
  cases event : afterLabel "event: " line with
  | some given =>
      refine ⟨⟨onward, ?_, ?_⟩, rfl⟩
      · simp [blockName, event]
      · simp [blockData, data_of_event event, data]
  | none =>
      cases told : afterLabel "data: " line with
      | some text =>
          refine ⟨⟨onward, ?_, ?_⟩, rfl⟩
          · simp [blockName, event, name]
          · simp [blockData, told, data]
      | none =>
          refine ⟨⟨onward, ?_, ?_⟩, rfl⟩
          · simp [blockName, event, name]
          · simp [blockData, told, data]

theorem heard_from {listener : CliListener} {block : List String}
    (within : listener.Within block) (lines : List String) :
    (lines.foldl read listener).heard =
      listener.heard ++ ((block ++ lines).splitOn "").dropLast.filterMap blockHeard := by
  induction lines generalizing listener block with
  | nil =>
      rw [List.append_nil, List.splitOn_eq_singleton within.unbroken]
      exact (List.append_nil _).symm
  | cons line lines ih =>
      rw [List.foldl_cons]
      by_cases blank : line = ""
      · subst blank
        have fresh : (listener.read "").Within [] := ⟨List.not_mem_nil, rfl, rfl⟩
        have told : (listener.read "").heard =
            listener.heard ++ (blockHeard block).toList := by
          rw [blockHeard, ← within.name, ← within.data]
          rfl
        rw [ih fresh, told, List.nil_append,
          List.splitOn_append_cons_self_of_not_mem within.unbroken,
          List.dropLast_cons_of_ne_nil (List.splitOn_ne_nil _ _), List.filterMap_cons,
          List.append_assoc]
        cases blockHeard block <;> rfl
      · obtain ⟨further, same⟩ := within.read blank
        rw [ih further, same, List.append_assoc, List.singleton_append]

/-- Whatever lines come, the listener takes each block between blank lines by itself, and
nothing of what comes after the last one. -/
theorem listen_eq_blocks (lines : List String) :
    listen lines = (lines.splitOn "").dropLast.filterMap blockHeard :=
  heard_from ⟨List.not_mem_nil, rfl, rfl⟩ lines

theorem listen_block {block : List String} (unbroken : "" ∉ block) (rest : List String) :
    listen (block ++ "" :: rest) = (blockHeard block).toList ++ listen rest := by
  rw [listen_eq_blocks, listen_eq_blocks,
    List.splitOn_append_cons_self_of_not_mem unbroken,
    List.dropLast_cons_of_ne_nil (List.splitOn_ne_nil _ _), List.filterMap_cons]
  cases blockHeard block <;> rfl

theorem listen_cut {lines : List String} (unbroken : "" ∉ lines) : listen lines = [] := by
  rw [listen_eq_blocks, List.splitOn_eq_singleton unbroken]
  rfl

end CliListener

/-! What `/stream` sends. -/

/-- The dictionaries that `event_gen` yields. -/
inductive StreamFrame where
  | connected (data : String)
  | systemHealth (data : String)
  | heartbeat (data : String)
  | change (id : Option String) (data : String)

namespace StreamFrame

def event : StreamFrame → String
  | .connected _ => "connected"
  | .systemHealth _ => "system_health"
  | .heartbeat _ => "heartbeat"
  | .change _ _ => "change"

def id : StreamFrame → Option String
  | .change id _ => id
  | .connected _ | .systemHealth _ | .heartbeat _ => none

def data : StreamFrame → String
  | .connected data | .systemHealth data | .heartbeat data | .change _ data => data

/-- The breaks that `EventSourceResponse` takes out of an id and cuts the data at. -/
def isNewline (c : Char) : Bool := c == '\r' || c == '\n'

def fields (frame : StreamFrame) : List String :=
  (frame.id.map fun id => "id: " ++ String.ofList (id.toList.filter (!isNewline ·))).toList ++
    ("event: " ++ frame.event) ::
      (Lines.pieces isNewline frame.data.toList).map ("data: " ++ ·)

def lines (frame : StreamFrame) : List String := frame.fields ++ [""]

def text (frame : StreamFrame) : List Char := Lines.join frame.lines

/-- `str.splitlines` finds no line break in what the frame carries. -/
def Plain (frame : StreamFrame) : Prop :=
  (∀ id ∈ frame.id, Lines.Plain CliListener.isLineBreak id.toList) ∧
    Lines.Plain CliListener.isLineBreak frame.data.toList

instance (frame : StreamFrame) : Decidable frame.Plain :=
  inferInstanceAs (Decidable (_ ∧ _))

/-- The frames of which so many characters hold everything but a last line feed. -/
def whole (received : Nat) : List StreamFrame → List StreamFrame
  | [] => []
  | frame :: rest =>
      if frame.text.length ≤ received + 1 then
        frame :: whole (received - frame.text.length) rest
      else []

def heard : StreamFrame → Option Heard
  | .change _ data => some (.change data)
  | .systemHealth data => some (.systemHealth data)
  | .connected _ | .heartbeat _ => none

theorem afterLabel_append (label text : String) :
    afterLabel label (label ++ text) = some text := by
  unfold afterLabel
  rw [String.toList_append, if_pos (List.isPrefixOf_iff_prefix.mpr (List.prefix_append _ _)),
    ← String.length_toList, List.drop_left, String.ofList_toList]

theorem afterLabel_of_other {label other : String} (apart : ∀ rest : List Char,
    label.toList.isPrefixOf (other.toList ++ rest) = false) (text : String) :
    afterLabel label (other ++ text) = none := by
  unfold afterLabel
  rw [String.toList_append, apart]
  rfl

theorem labelled_ne_blank {label : String} (some : label ≠ "") (text : String) :
    label ++ text ≠ "" := by
  intro blank
  exact some (String.append_eq_empty_iff.mp blank).1

theorem isNewline_of_plain {text : List Char} (plain : Lines.Plain CliListener.isLineBreak text) :
    Lines.Plain isNewline text := by
  intro c member
  have unbroken := plain c member
  cases newline : isNewline c with
  | false => rfl
  | true =>
      rcases Bool.or_eq_true _ _ ▸ newline with same | same
      · rw [eq_of_beq same] at unbroken
        cases unbroken
      · rw [eq_of_beq same] at unbroken
        cases unbroken

theorem fields_of_plain {frame : StreamFrame} (plain : frame.Plain) :
    frame.fields =
      (frame.id.map ("id: " ++ ·)).toList ++
        ["event: " ++ frame.event, "data: " ++ frame.data] := by
  have ids : (frame.id.map fun id =>
      "id: " ++ String.ofList (id.toList.filter (!isNewline ·))) =
        frame.id.map ("id: " ++ ·) := by
    apply Option.map_congr
    intro id known
    rw [List.filter_eq_self.mpr, String.ofList_toList]
    intro c member
    rw [isNewline_of_plain (plain.1 id known) c member]
    rfl
  rw [fields, ids, Lines.pieces_of_plain (isNewline_of_plain plain.2), String.ofList_toList]
  rfl

theorem plain_append {label text : String}
    (first : Lines.Plain CliListener.isLineBreak label.toList)
    (second : Lines.Plain CliListener.isLineBreak text.toList) :
    Lines.Plain CliListener.isLineBreak (label ++ text).toList := by
  intro c member
  rw [String.toList_append] at member
  exact (List.mem_append.mp member).elim (first c) (second c)

theorem plain_event (frame : StreamFrame) :
    Lines.Plain CliListener.isLineBreak frame.event.toList := by
  have names : ∀ name ∈ ["connected", "system_health", "heartbeat", "change"],
      Lines.Plain CliListener.isLineBreak name.toList := by
    decide
  apply names
  cases frame <;> simp [event]

theorem plain_fields {frame : StreamFrame} (plain : frame.Plain) :
    ∀ line ∈ frame.fields, Lines.Plain CliListener.isLineBreak line.toList := by
  intro line member
  rw [fields_of_plain plain, List.mem_append, Option.mem_toList, Option.map_eq_some_iff,
    List.mem_pair] at member
  rcases member with ⟨id, known, rfl⟩ | rfl | rfl
  · exact plain_append (by decide) (plain.1 id known)
  · exact plain_append (by decide) frame.plain_event
  · exact plain_append (by decide) plain.2

theorem unbroken_fields {frame : StreamFrame} (plain : frame.Plain) : "" ∉ frame.fields := by
  intro member
  rw [fields_of_plain plain, List.mem_append, Option.mem_toList, Option.map_eq_some_iff,
    List.mem_pair] at member
  rcases member with ⟨id, -, blank⟩ | blank | blank
  · exact labelled_ne_blank (by decide) id blank
  · exact labelled_ne_blank (by decide) frame.event blank.symm
  · exact labelled_ne_blank (by decide) frame.data blank.symm

theorem filterMap_fields {label : String} {frame : StreamFrame} (plain : frame.Plain)
    (apart : ∀ rest : List Char, label.toList.isPrefixOf ("id: ".toList ++ rest) = false) :
    frame.fields.filterMap (afterLabel label) =
      (afterLabel label ("event: " ++ frame.event)).toList ++
        (afterLabel label ("data: " ++ frame.data)).toList := by
  have skipped : (frame.id.map ("id: " ++ ·)).toList.filterMap (afterLabel label) = [] := by
    cases frame.id with
    | none => rfl
    | some id =>
        rw [Option.map_some, Option.toList_some, List.filterMap_cons,
          afterLabel_of_other apart]
        rfl
  rw [fields_of_plain plain, List.filterMap_append, skipped, List.nil_append,
    List.filterMap_cons, List.filterMap_cons, List.filterMap_nil]
  cases afterLabel label ("event: " ++ frame.event) <;>
    cases afterLabel label ("data: " ++ frame.data) <;> rfl

theorem strip_event (frame : StreamFrame) :
    String.ofList (Subscription.strip frame.event.toList) = frame.event := by
  have names : ∀ name ∈ ["connected", "system_health", "heartbeat", "change"],
      String.ofList (Subscription.strip name.toList) = name := by
    decide
  apply names
  cases frame <;> simp [event]

theorem blockName_fields {frame : StreamFrame} (plain : frame.Plain) :
    CliListener.blockName frame.fields = frame.event := by
  rw [CliListener.blockName, filterMap_fields plain fun _ => rfl, afterLabel_append,
    afterLabel_of_other fun _ => rfl]
  exact frame.strip_event

theorem blockHeard_fields {frame : StreamFrame} (plain : frame.Plain) :
    CliListener.blockHeard frame.fields = frame.heard := by
  have data : CliListener.blockData frame.fields = [frame.data] := by
    rw [CliListener.blockData, filterMap_fields plain fun _ => rfl, afterLabel_append,
      afterLabel_of_other fun _ => rfl]
    rfl
  have alone : "\n".intercalate [frame.data] = frame.data := by simp
  rw [CliListener.blockHeard, blockName_fields plain, data, Heard.of?, alone]
  cases frame with
  | connected _ | systemHealth _ | heartbeat _ | change _ _ => rfl

theorem text_eq (frame : StreamFrame) : frame.text = Lines.join frame.fields ++ ['\r', '\n'] := by
  rw [text, lines, Lines.join, List.flatMap_append]
  rfl

theorem two_le_length_text (frame : StreamFrame) : 2 ≤ frame.text.length := by
  rw [text_eq, List.length_append]
  exact Nat.le_add_left _ _

theorem whole_of_cut {frames : List StreamFrame} : whole 0 frames = [] := by
  cases frames with
  | nil => rfl
  | cons frame rest =>
      have long := frame.two_le_length_text
      rw [whole, if_neg (by omega)]

theorem iterLines_text {frame : StreamFrame} (plain : frame.Plain) (rest : List Char) :
    CliListener.iterLines (frame.text ++ rest) =
      frame.fields ++ "" :: CliListener.iterLines rest := by
  rw [text_eq, List.append_assoc, CliListener.iterLines,
    Lines.lines_join_append rfl (plain_fields plain)]
  have blank : Lines.lines CliListener.isLineBreak ('\r' :: '\n' :: rest) =
      "" :: Lines.lines CliListener.isLineBreak rest :=
    Lines.lines_line rfl (Lines.plain_nil _) rest
  exact congrArg (frame.fields ++ ·) blank

end StreamFrame

namespace CliListener

theorem listen_of_cut {frame : StreamFrame} (plain : frame.Plain) {received : Nat}
    (cut : received + 1 < frame.text.length) (rest : List Char) :
    listen (iterLines ((frame.text ++ rest).take received)) = [] := by
  apply listen_cut
  rw [StreamFrame.text_eq, List.length_append] at cut
  have within : received ≤ (Lines.join frame.fields).length := by
    change received + 1 < _ + 2 at cut
    omega
  rw [StreamFrame.text_eq, List.append_assoc, List.take_append_of_le_length within]
  exact Lines.blank_not_mem_lines_take rfl (StreamFrame.plain_fields plain)
    (StreamFrame.unbroken_fields plain) received

/-- The carriage return of the blank line ends the frame. -/
theorem listen_of_last {frame : StreamFrame} (plain : frame.Plain) {received : Nat}
    (last : frame.text.length = received + 1) (rest : List Char) :
    listen (iterLines ((frame.text ++ rest).take received)) = frame.heard.toList := by
  have taken : (frame.text ++ rest).take received = Lines.join frame.fields ++ ['\r'] := by
    have split : frame.text = (Lines.join frame.fields ++ ['\r']) ++ ['\n'] := by
      rw [StreamFrame.text_eq, List.append_assoc]
      rfl
    have front : received = (Lines.join frame.fields ++ ['\r']).length := by
      rw [split, List.length_append] at last
      exact (Nat.succ.inj last).symm
    rw [split, front, List.append_assoc, List.take_left]
  rw [taken, iterLines, Lines.lines_join_append rfl (StreamFrame.plain_fields plain)]
  have blank : Lines.lines isLineBreak ['\r'] = [""] :=
    Lines.lines_return rfl (Lines.plain_nil _)
  rw [blank, listen_block (StreamFrame.unbroken_fields plain), StreamFrame.blockHeard_fields plain]
  exact List.append_nil _

/-- Wherever the stream ends, the listener has handed on the data of the changes and of the
health reports among the frames that came whole, in order, if no frame carries a character
that `str.splitlines` takes for the end of a line. -/
theorem reads_whole_frames {frames : List StreamFrame}
    (plain : ∀ frame ∈ frames, frame.Plain) (received : Nat) :
    listen (iterLines ((frames.flatMap StreamFrame.text).take received)) =
      (StreamFrame.whole received frames).filterMap StreamFrame.heard := by
  induction frames generalizing received with
  | nil =>
      rw [List.flatMap_nil, List.take_nil]
      rfl
  | cons frame frames ih =>
      have own := plain frame List.mem_cons_self
      have others : ∀ frame ∈ frames, frame.Plain :=
        fun frame member => plain frame (List.mem_cons_of_mem _ member)
      rw [List.flatMap_cons, StreamFrame.whole]
      rcases Nat.lt_trichotomy frame.text.length (received + 1) with beyond | last | cut
      · obtain ⟨more, rfl⟩ := Nat.exists_eq_add_of_le (Nat.le_of_lt_succ beyond)
        rw [if_pos (by omega), List.take_append, List.take_of_length_le (by omega),
          Nat.add_sub_cancel_left, StreamFrame.iterLines_text own,
          listen_block (StreamFrame.unbroken_fields own), StreamFrame.blockHeard_fields own,
          ih others, List.filterMap_cons]
        cases frame.heard <;> rfl
      · have none : received - frame.text.length = 0 := by omega
        rw [listen_of_last own last, if_pos (by omega), none, StreamFrame.whole_of_cut]
        cases heard : frame.heard <;> simp [heard]
      · rw [listen_of_cut own cut, if_neg (by omega)]
        rfl

def sampleFrames : List StreamFrame :=
  [.connected "\x7b\x7d", .change (some "a") "\x7b\"seq\": 1\x7d", .heartbeat "\x7b\x7d",
    .systemHealth "\x7b\"status\": 0\x7d", .change none "\x7b\"seq\": 2\x7d"]

theorem reads_whole_frames_of_sample :
    listen (iterLines ((sampleFrames.flatMap StreamFrame.text).take 160)) =
        [.change "\x7b\"seq\": 1\x7d", .systemHealth "\x7b\"status\": 0\x7d"] := by
  have plain : ∀ frame ∈ sampleFrames, frame.Plain := by decide
  rw [reads_whole_frames plain]
  decide +kernel

/-- A line separator inside the data cuts it. -/
example : listen (iterLines (StreamFrame.text
    (.change none (String.ofList ['a', Char.ofNat 8232, 'b'])))) = [.change "a"] :=
  by decide +kernel

end CliListener

end OrderStream

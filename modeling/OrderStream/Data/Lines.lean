import Mathlib.Data.List.Basic

/-! Texts cut into lines at the characters of some set, where a carriage return and the line
feed after it are one break. -/

namespace Lines

/-- The lines that are ended, and what is left.  `current` is the line begun, `returned` whether
the character before was a carriage return. -/
def split (breaks : Char → Bool) (current : List Char) (returned : Bool) :
    List Char → List String × List Char
  | [] => ([], current)
  | c :: rest =>
      if returned && c == '\n' then split breaks current false rest
      else if breaks c then
        let (ended, left) := split breaks [] (c == '\r') rest
        (String.ofList current :: ended, left)
      else split breaks (current ++ [c]) false rest

/-- Every text between two breaks, the last one included. -/
def pieces (breaks : Char → Bool) (text : List Char) : List String :=
  let (ended, left) := split breaks [] false text
  ended ++ [String.ofList left]

/-- A last line that is not ended counts if there is something in it. -/
def lines (breaks : Char → Bool) (text : List Char) : List String :=
  let (ended, left) := split breaks [] false text
  if left.isEmpty then ended else ended ++ [String.ofList left]

def join (lines : List String) : List Char :=
  lines.flatMap fun line => line.toList ++ ['\r', '\n']

def Plain (breaks : Char → Bool) (text : List Char) : Prop := ∀ c ∈ text, breaks c = false

instance (breaks : Char → Bool) (text : List Char) : Decidable (Plain breaks text) :=
  List.decidableBAll (fun c => breaks c = false) text

theorem plain_nil (breaks : Char → Bool) : Plain breaks [] :=
  fun _ member => absurd member List.not_mem_nil

section

variable {breaks : Char → Bool} {text rest : List Char} {ended : List String}

theorem split_append (plain : Plain breaks text) (current rest : List Char) :
    split breaks current false (text ++ rest) = split breaks (current ++ text) false rest := by
  induction text generalizing current with
  | nil => rw [List.nil_append, List.append_nil]
  | cons c text ih =>
      rw [List.cons_append, split, Bool.false_and, if_neg Bool.false_ne_true,
        plain c List.mem_cons_self, if_neg Bool.false_ne_true,
        ih fun c member => plain c (List.mem_cons_of_mem _ member), List.append_assoc,
        List.singleton_append]

theorem split_of_plain (plain : Plain breaks text) :
    split breaks [] false text = ([], text) := by
  have alone := split_append plain [] []
  rwa [List.append_nil, List.nil_append, split] at alone

theorem pieces_of_plain (plain : Plain breaks text) :
    pieces breaks text = [String.ofList text] := by
  rw [pieces, split_of_plain plain]
  rfl

theorem lines_of_plain (plain : Plain breaks text) :
    lines breaks text = if text.isEmpty then [] else [String.ofList text] := by
  rw [lines, split_of_plain plain]
  rfl

theorem lines_return (ends : breaks '\r' = true) (plain : Plain breaks text) :
    lines breaks (text ++ ['\r']) = [String.ofList text] := by
  rw [lines, split_append plain, List.nil_append, split, Bool.false_and,
    if_neg Bool.false_ne_true, if_pos ends, split]
  rfl

theorem lines_line (ends : breaks '\r' = true) (plain : Plain breaks text) (rest : List Char) :
    lines breaks (text ++ '\r' :: '\n' :: rest) = String.ofList text :: lines breaks rest := by
  rw [lines, split_append plain, List.nil_append, split, Bool.false_and,
    if_neg Bool.false_ne_true, if_pos ends]
  have fed : split breaks [] ('\r' == '\r') ('\n' :: rest) = split breaks [] false rest := by
    rw [split]
    rfl
  rw [fed, lines]
  dsimp only
  split
  · rfl
  · rfl

theorem join_cons (line : String) (ended : List String) :
    join (line :: ended) = line.toList ++ '\r' :: '\n' :: join ended := by
  rw [join, List.flatMap_cons, List.append_assoc]
  rfl

theorem lines_join_append (ends : breaks '\r' = true)
    (plain : ∀ line ∈ ended, Plain breaks line.toList) (rest : List Char) :
    lines breaks (join ended ++ rest) = ended ++ lines breaks rest := by
  induction ended with
  | nil => rfl
  | cons line ended ih =>
      have first := lines_line ends (plain line List.mem_cons_self) (join ended ++ rest)
      rw [String.ofList_toList] at first
      rw [join_cons, List.append_assoc, List.cons_append, List.cons_append, first,
        ih fun line member => plain line (List.mem_cons_of_mem _ member), List.cons_append]

/-- However a text of lines with something in each is cut, it has no blank line. -/
theorem blank_not_mem_lines_take (ends : breaks '\r' = true)
    (plain : ∀ line ∈ ended, Plain breaks line.toList) (some : "" ∉ ended) (length : Nat) :
    "" ∉ lines breaks ((join ended).take length) := by
  induction ended generalizing length with
  | nil =>
      rw [join, List.flatMap_nil, List.take_nil]
      exact List.not_mem_nil
  | cons line ended ih =>
      have own := plain line List.mem_cons_self
      have nonblank : "" ≠ line := fun blank => some (blank ▸ List.mem_cons_self)
      rw [join_cons, List.take_append]
      rcases Nat.lt_trichotomy length (line.toList.length + 1) with within | atReturn | beyond
      · have none : length - line.toList.length = 0 := by omega
        have cut : Plain breaks (line.toList.take length) :=
          fun c member => own c (List.mem_of_mem_take member)
        rw [none, List.take_zero, List.append_nil, lines_of_plain cut]
        split
        · exact List.not_mem_nil
        · rename_i begun
          intro blank
          apply begun
          have empty := congrArg String.toList (List.mem_singleton.mp blank)
          rw [String.toList_ofList, String.toList_ofList] at empty
          rw [← empty]
          rfl
      · have one : length - line.toList.length = 1 := by omega
        rw [one, List.take_of_length_le (by omega), List.take_succ_cons, List.take_zero,
          lines_return ends own, String.ofList_toList, List.mem_singleton]
        exact nonblank
      · obtain ⟨more, rfl⟩ := Nat.exists_eq_add_of_lt beyond
        have left : line.toList.length + 1 + more + 1 - line.toList.length = more + 2 := by omega
        rw [left, List.take_of_length_le (by omega), List.take_succ_cons, List.take_succ_cons,
          lines_line ends own, String.ofList_toList, List.mem_cons, not_or]
        have others : ∀ line ∈ ended, Plain breaks line.toList :=
          fun line member => plain line (List.mem_cons_of_mem _ member)
        exact ⟨nonblank, ih others (fun blank => some (List.mem_cons_of_mem _ blank)) more⟩

end

end Lines

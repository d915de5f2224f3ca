import Mathlib.Data.List.Sort
import OrderStream.Data.PyFloat

/-! JSON values and the text `json.dumps(value, sort_keys=True,
separators=(",", ":"))` gives them. -/

inductive Json where
  | null
  | bool (value : Bool)
  | int (value : Int)
  | float (value : PyFloat)
  | str (value : String)
  | arr (items : List Json)
  | obj (fields : List (String × Json))

namespace Json

def hexFour (code : Nat) : List Char :=
  [Nat.digitChar (code / 4096 % 16), Nat.digitChar (code / 256 % 16),
    Nat.digitChar (code / 16 % 16), Nat.digitChar (code % 16)]

def escapeChar (c : Char) : List Char :=
  if c = '"' then ['\\', '"']
  else if c = '\\' then ['\\', '\\']
  else if c = '\n' then ['\\', 'n']
  else if c = '\r' then ['\\', 'r']
  else if c = '\t' then ['\\', 't']
  else if c.toNat = 8 then ['\\', 'b']
  else if c.toNat = 12 then ['\\', 'f']
  else if 32 ≤ c.toNat ∧ c.toNat ≤ 126 then [c]
  else if c.toNat < 65536 then '\\' :: 'u' :: hexFour c.toNat
  else
    '\\' :: 'u' :: hexFour (55296 + (c.toNat - 65536) / 1024) ++
      '\\' :: 'u' :: hexFour (56320 + (c.toNat - 65536) % 1024)

def escapeTail : List Char → List Char
  | [] => ['"']
  | c :: rest => escapeChar c ++ escapeTail rest

def quote (text : String) : List Char := '"' :: escapeTail text.toList

def intText : Int → List Char
  | .ofNat value => Nat.toDigits 10 value
  | .negSucc value => '-' :: Nat.toDigits 10 (value + 1)

def floatText : PyFloat → List Char
  | .nan => ['N', 'a', 'N']
  | .inf false => ['I', 'n', 'f', 'i', 'n', 'i', 't', 'y']
  | .inf true => ['-', 'I', 'n', 'f', 'i', 'n', 'i', 't', 'y']
  | .finite repr => repr.text

def separator (first : Bool) : List Char := if first then [] else [',']

mutual
def render : Json → List Char
  | .null => ['n', 'u', 'l', 'l']
  | .bool true => ['t', 'r', 'u', 'e']
  | .bool false => ['f', 'a', 'l', 's', 'e']
  | .int value => intText value
  | .float value => floatText value
  | .str value => quote value
  | .arr items => '[' :: renderItems true items
  | .obj fields => '{' :: renderFields true fields

def renderItems : Bool → List Json → List Char
  | _, [] => [']']
  | first, item :: rest =>
      separator first ++ (render item ++ renderItems false rest)

def renderFields : Bool → List (String × Json) → List Char
  | _, [] => ['}']
  | first, (key, value) :: rest =>
      separator first ++
        (quote key ++ ':' :: (render value ++ renderFields false rest))
end

def sortFields (fields : List (String × Json)) : List (String × Json) :=
  fields.insertionSort fun left right => left.1 ≤ right.1

mutual
def sortKeys : Json → Json
  | .arr items => .arr (sortItemKeys items)
  | .obj fields => .obj (sortFields (sortFieldKeys fields))
  | scalar => scalar

def sortItemKeys : List Json → List Json
  | [] => []
  | item :: rest => item.sortKeys :: sortItemKeys rest

def sortFieldKeys : List (String × Json) → List (String × Json)
  | [] => []
  | (key, value) :: rest => (key, value.sortKeys) :: sortFieldKeys rest
end

def dumps (value : Json) : List Char := render value.sortKeys

/-- Equal but for the order of the keys of their objects. -/
def SameUpToKeyOrder (left right : Json) : Prop := left.sortKeys = right.sortKeys

def shortEscapes : List (Char × Char) :=
  [('"', '"'), ('\\', '\\'), ('n', '\n'), ('r', '\r'), ('t', '\t'),
    ('b', Char.ofNat 8), ('f', Char.ofNat 12)]

inductive Escaped (c : Char) : List Char → Prop where
  | plain (notBackslash : c ≠ '\\') (notQuote : c ≠ '"') : Escaped c [c]
  | short (letter : Char) (listed : (letter, c) ∈ shortEscapes) :
      Escaped c ['\\', letter]
  | unit (small : c.toNat < 65536) : Escaped c ('\\' :: 'u' :: hexFour c.toNat)
  | surrogates (large : 65536 ≤ c.toNat) :
      Escaped c ('\\' :: 'u' :: hexFour (55296 + (c.toNat - 65536) / 1024) ++
        '\\' :: 'u' :: hexFour (56320 + (c.toNat - 65536) % 1024))

theorem escaped_escapeChar (c : Char) : Escaped c (escapeChar c) := by
  have named (code : Nat) (equal : c.toNat = code) : c = Char.ofNat code := by
    rw [← equal, Char.ofNat_toNat]
  unfold escapeChar
  by_cases quote : c = '"'
  · rw [if_pos quote]
    exact .short '"' (by simp [shortEscapes, quote])
  by_cases backslash : c = '\\'
  · rw [if_neg quote, if_pos backslash]
    exact .short '\\' (by simp [shortEscapes, backslash])
  rw [if_neg quote, if_neg backslash]
  split
  · next equal => exact .short 'n' (by simp [shortEscapes, equal])
  split
  · next equal => exact .short 'r' (by simp [shortEscapes, equal])
  split
  · next equal => exact .short 't' (by simp [shortEscapes, equal])
  split
  · next equal => exact .short 'b' (by simp [shortEscapes, named 8 equal])
  split
  · next equal => exact .short 'f' (by simp [shortEscapes, named 12 equal])
  split
  · exact .plain backslash quote
  split
  · next small => exact .unit small
  · next large => exact .surrogates (by omega)

def hexValue (c : Char) : Nat := if c.isDigit then c.toNat - 48 else c.toNat - 87

theorem hexValue_digitChar {value : Nat} (bound : value < 16) :
    hexValue (Nat.digitChar value) = value := by
  have table : ∀ digit < 16, hexValue (Nat.digitChar digit) = digit := by decide
  exact table value bound

def readHexFour : List Char → Option (Nat × List Char)
  | a :: b :: c :: d :: rest =>
      some (hexValue a * 4096 + hexValue b * 256 + hexValue c * 16 + hexValue d, rest)
  | _ => none

theorem readHexFour_hexFour {code : Nat} (bound : code < 65536) (rest : List Char) :
    readHexFour (hexFour code ++ rest) = some (code, rest) := by
  simp only [hexFour, List.cons_append, List.nil_append, readHexFour,
    hexValue_digitChar (Nat.mod_lt _ (by decide : 16 > 0)), Option.some.injEq,
    Prod.mk.injEq, and_true]
  omega

def readUnicode (text : List Char) : Option (Char × List Char) := do
  let (high, rest) ← readHexFour text
  if 55296 ≤ high ∧ high ≤ 56319 then
    let (low, rest) ← readHexFour (rest.drop 2)
    pure (Char.ofNat (65536 + (high - 55296) * 1024 + (low - 56320)), rest)
  else
    pure (Char.ofNat high, rest)

def readChar : List Char → Option (Char × List Char)
  | [] => none
  | c :: rest =>
      if c ≠ '\\' then some (c, rest)
      else
        match rest with
        | [] => none
        | letter :: rest =>
            if letter = 'u' then readUnicode rest
            else (shortEscapes.lookup letter).map fun c => (c, rest)

theorem lookup_shortEscapes {letter c : Char} (listed : (letter, c) ∈ shortEscapes) :
    letter ≠ 'u' ∧ shortEscapes.lookup letter = some c := by
  have table : ∀ pair ∈ shortEscapes,
      pair.1 ≠ 'u' ∧ shortEscapes.lookup pair.1 = some pair.2 := by decide
  exact table _ listed

theorem readUnicode_unit {c : Char} (small : c.toNat < 65536) (rest : List Char) :
    readUnicode (hexFour c.toNat ++ rest) = some (c, rest) := by
  have outside : ¬(55296 ≤ c.toNat ∧ c.toNat ≤ 56319) := by
    rcases c.valid with low | high
    · have : c.toNat < 55296 := low
      omega
    · have : 57343 < c.toNat := high.1
      omega
  simp [readUnicode, readHexFour_hexFour small, outside, Char.ofNat_toNat]

theorem readUnicode_pair {high low : Nat} (highBound : high < 1024)
    (lowBound : low < 1024) (rest : List Char) :
    readUnicode (hexFour (55296 + high) ++
      '\\' :: 'u' :: hexFour (56320 + low) ++ rest) =
        some (Char.ofNat (65536 + high * 1024 + low), rest) := by
  have inside : 55296 ≤ 55296 + high ∧ 55296 + high ≤ 56319 := by omega
  rw [readUnicode, List.append_assoc, readHexFour_hexFour (by omega)]
  simp only [Option.pure_def, Option.bind_eq_bind, Option.bind_some, if_pos inside,
    List.cons_append, List.drop_succ_cons, List.drop_zero]
  rw [readHexFour_hexFour (by omega)]
  simp only [Option.bind_some, Nat.add_sub_cancel_left]

theorem readChar_escapeChar (c : Char) (rest : List Char) :
    readChar (escapeChar c ++ rest) = some (c, rest) := by
  have escaped := escaped_escapeChar c
  generalize escapeChar c = text at escaped ⊢
  cases escaped with
  | plain notBackslash notQuote => simp [readChar, notBackslash]
  | short letter listed =>
      obtain ⟨notU, found⟩ := lookup_shortEscapes listed
      simp [readChar, notU, found]
  | unit small => simp [readChar, readUnicode_unit small]
  | surrogates large =>
      have bound : c.toNat < 1114112 := by
        rcases c.valid with low | high
        · have : c.toNat < 55296 := low
          omega
        · exact high.2
      have code : 65536 + (c.toNat - 65536) / 1024 * 1024 +
          (c.toNat - 65536) % 1024 = c.toNat := by omega
      have read := @readUnicode_pair ((c.toNat - 65536) / 1024)
        ((c.toNat - 65536) % 1024) (by omega) (by omega) rest
      rw [code, Char.ofNat_toNat] at read
      simpa [readChar] using read

theorem escapeChar_unique {c d : Char} {left right : List Char}
    (equal : escapeChar c ++ left = escapeChar d ++ right) :
    c = d ∧ left = right := by
  have read := congrArg readChar equal
  rw [readChar_escapeChar, readChar_escapeChar] at read
  simpa using read

theorem escapeChar_ne_quote (c : Char) (left right : List Char) :
    escapeChar c ++ left ≠ '"' :: right := by
  have escaped := escaped_escapeChar c
  generalize escapeChar c = text at escaped ⊢
  cases escaped <;> simp_all

theorem escapeTail_unique {first second left right : List Char}
    (equal : escapeTail first ++ left = escapeTail second ++ right) :
    first = second ∧ left = right := by
  induction first generalizing second with
  | nil =>
      cases second with
      | nil => simpa [escapeTail] using equal
      | cons d second =>
          simp only [escapeTail, List.append_assoc] at equal
          exact absurd equal.symm (escapeChar_ne_quote d _ _)
  | cons c first ih =>
      cases second with
      | nil =>
          simp only [escapeTail, List.append_assoc] at equal
          exact absurd equal (escapeChar_ne_quote c _ _)
      | cons d second =>
          simp only [escapeTail, List.append_assoc] at equal
          obtain ⟨rfl, tails⟩ := escapeChar_unique equal
          obtain ⟨rfl, rests⟩ := ih tails
          exact ⟨rfl, rests⟩

theorem quote_unique {first second : String} {left right : List Char}
    (equal : quote first ++ left = quote second ++ right) :
    first = second ∧ left = right := by
  simp only [quote, List.cons_append, List.cons.injEq, true_and] at equal
  obtain ⟨same, equal⟩ := escapeTail_unique equal
  exact ⟨String.toList_injective same, equal⟩

theorem intText_chars {value : Int} {c : Char} (member : c ∈ intText value) :
    c.isDigit = true ∨ c = '-' := by
  cases value with
  | ofNat value =>
      exact Or.inl (Nat.isDigit_of_mem_toDigits (by decide) (by decide) member)
  | negSucc value =>
      rcases List.mem_cons.mp member with sign | member
      · exact Or.inr sign
      · exact Or.inl (Nat.isDigit_of_mem_toDigits (by decide) (by decide) member)

theorem readInt_intText (value : Int) : PyFloat.readInt (intText value) = value := by
  cases value with
  | ofNat value =>
      have digits : ∀ c ∈ Nat.toDigits 10 value, c.isDigit = true := fun c member =>
        Nat.isDigit_of_mem_toDigits (by decide) (by decide) member
      have parsed := Nat.ofDigitChars_ten_toDigits (n := value)
      simp only [intText]
      generalize Nat.toDigits 10 value = text at digits parsed
      unfold PyFloat.readInt
      split
      · next rest => exact absurd (digits '-' (by simp)) (by decide)
      · next rest => exact absurd (digits '+' (by simp)) (by decide)
      · rw [parsed]
        rfl
  | negSucc value =>
      simp only [intText, PyFloat.readInt, Nat.ofDigitChars_ten_toDigits]
      omega

def readScalar (text : List Char) : Json :=
  if text = ['n', 'u', 'l', 'l'] then .null
  else if text = ['t', 'r', 'u', 'e'] then .bool true
  else if text = ['f', 'a', 'l', 's', 'e'] then .bool false
  else if text = ['N', 'a', 'N'] then .float .nan
  else if text = ['I', 'n', 'f', 'i', 'n', 'i', 't', 'y'] then .float (.inf false)
  else if text = ['-', 'I', 'n', 'f', 'i', 'n', 'i', 't', 'y'] then .float (.inf true)
  else if wellFormed : PyFloat.isFloatText text = true then
    .float (.finite ⟨text, wellFormed⟩)
  else .int (PyFloat.readInt text)

def IsScalar : Json → Prop
  | .null | .bool _ | .int _ | .float _ => True
  | _ => False

theorem readScalar_int (value : Int) : readScalar (intText value) = .int value := by
  have absent (c : Char) (letter : ¬(c.isDigit = true ∨ c = '-')) :
      c ∉ intText value := fun member => letter (intText_chars member)
  have notFloat : ¬PyFloat.isFloatText (intText value) = true := by
    intro wellFormed
    simp only [PyFloat.isFloatText, Bool.and_eq_true, List.any_eq_true] at wellFormed
    obtain ⟨c, member, point⟩ := wellFormed.1.2
    rcases intText_chars member with digit | rfl
    · simp only [Bool.or_eq_true, decide_eq_true_eq] at point
      rcases point with rfl | rfl <;> revert digit <;> decide
    · revert point
      decide
  have ne (text : List Char) (c : Char) (inside : c ∈ text)
      (letter : ¬(c.isDigit = true ∨ c = '-')) : intText value ≠ text := by
    rintro rfl
    exact absent c letter inside
  unfold readScalar
  rw [if_neg (ne _ 'n' (by simp) (by decide)), if_neg (ne _ 't' (by simp) (by decide)),
    if_neg (ne _ 'f' (by simp) (by decide)), if_neg (ne _ 'N' (by simp) (by decide)),
    if_neg (ne _ 'I' (by simp) (by decide)), if_neg (ne _ 'I' (by simp) (by decide)),
    dif_neg notFloat, readInt_intText]

theorem readScalar_float (value : PyFloat) :
    readScalar (floatText value) = .float value := by
  cases value with
  | nan => rfl
  | inf negative => cases negative <;> rfl
  | finite repr =>
      obtain ⟨text, wellFormed⟩ := repr
      have number : ∀ c ∈ text, PyFloat.isNumberChar c = true := by
        simp only [PyFloat.isFloatText, Bool.and_eq_true, List.all_eq_true] at wellFormed
        exact wellFormed.1.1
      have ne (other : List Char) (c : Char) (inside : c ∈ other)
          (letter : ¬PyFloat.isNumberChar c = true) : text ≠ other := by
        rintro rfl
        exact letter (number c inside)
      change readScalar text = _
      unfold readScalar
      rw [if_neg (ne _ 'n' (by simp) (by decide)), if_neg (ne _ 't' (by simp) (by decide)),
        if_neg (ne _ 'f' (by simp) (by decide)), if_neg (ne _ 'N' (by simp) (by decide)),
        if_neg (ne _ 'I' (by simp) (by decide)), if_neg (ne _ 'I' (by simp) (by decide)),
        dif_pos wellFormed]

theorem readScalar_render {value : Json} (scalar : value.IsScalar) :
    readScalar (render value) = value := by
  cases value with
  | null => rfl
  | bool value => cases value <;> rfl
  | int value => simpa [render] using readScalar_int value
  | float value => simpa [render] using readScalar_float value
  | str value => exact scalar.elim
  | arr items => exact scalar.elim
  | obj fields => exact scalar.elim

/-! The text determines the value.  Reading proceeds from the left: two texts
that agree, each followed by a delimiter, have equal first values. -/

def Delimited (rest : List Char) : Prop :=
  ∀ c ∈ rest.head?, c = ',' ∨ c = ']' ∨ c = '}'

theorem delimited_renderItems (items : List Json) (rest : List Char) :
    Delimited (renderItems false items ++ rest) := by
  cases items <;> simp [Delimited, renderItems, separator]

theorem delimited_renderFields (fields : List (String × Json)) (rest : List Char) :
    Delimited (renderFields false fields ++ rest) := by
  rcases fields with _ | ⟨⟨key, value⟩, fields⟩ <;>
    simp [Delimited, renderFields, separator]

def isTokenChar (c : Char) : Bool := c.isAlphanum || PyFloat.isNumberChar c

theorem isTokenChar_of_isDigit {c : Char} (digit : c.isDigit = true) :
    isTokenChar c = true := by
  simp [isTokenChar, Char.isAlphanum, digit]

theorem render_scalar_chars {value : Json} (scalar : value.IsScalar) :
    ∀ c ∈ render value, isTokenChar c = true := by
  cases value with
  | null => simp [render, isTokenChar]
  | bool value => cases value <;> simp [render, isTokenChar]
  | int value =>
      intro c member
      rcases intText_chars (by simpa [render] using member) with digit | rfl
      · exact isTokenChar_of_isDigit digit
      · decide
  | float value =>
      cases value with
      | nan => simp [render, floatText, isTokenChar]
      | inf negative =>
          cases negative <;> simp [render, floatText, isTokenChar, PyFloat.isNumberChar]
      | finite repr =>
          intro c member
          have wellFormed := repr.wellFormed
          simp only [PyFloat.isFloatText, Bool.and_eq_true, List.all_eq_true] at wellFormed
          have number := wellFormed.1.1 c (by simpa [render, floatText] using member)
          simp [isTokenChar, number]
  | str value => exact scalar.elim
  | arr items => exact scalar.elim
  | obj fields => exact scalar.elim

theorem render_scalar_ne_nil {value : Json} (scalar : value.IsScalar) :
    render value ≠ [] := by
  intro empty
  have read := readScalar_render scalar
  rw [empty] at read
  have zero : value = .int (PyFloat.readInt []) := read.symm
  rw [zero] at empty
  revert empty
  decide

theorem not_isTokenChar_of_delimited {rest : List Char} (delimited : Delimited rest)
    {c : Char} {tail : List Char} (equal : rest = c :: tail) :
    isTokenChar c = false := by
  subst equal
  rcases delimited c (by simp) with rfl | rfl | rfl <;> decide

theorem token_unique {first second left right : List Char}
    (firstToken : ∀ c ∈ first, isTokenChar c = true)
    (secondToken : ∀ c ∈ second, isTokenChar c = true)
    (leftDelimited : Delimited left) (rightDelimited : Delimited right)
    (equal : first ++ left = second ++ right) :
    first = second ∧ left = right := by
  induction first generalizing second with
  | nil =>
      cases second with
      | nil => exact ⟨rfl, by simpa using equal⟩
      | cons d second =>
          have delimiter := not_isTokenChar_of_delimited leftDelimited
            (by simpa using equal)
          simp [secondToken d (by simp)] at delimiter
  | cons c first ih =>
      cases second with
      | nil =>
          have delimiter := not_isTokenChar_of_delimited rightDelimited
            (by simpa using equal.symm)
          simp [firstToken c (by simp)] at delimiter
      | cons d second =>
          simp only [List.cons_append, List.cons.injEq] at equal
          obtain ⟨rfl, equal⟩ := equal
          obtain ⟨rfl, rests⟩ := ih (fun c member => firstToken c (by simp [member]))
            (fun c member => secondToken c (by simp [member])) equal
          exact ⟨rfl, rests⟩

theorem render_scalar_unique {first second : Json} {left right : List Char}
    (firstScalar : first.IsScalar) (secondScalar : second.IsScalar)
    (leftDelimited : Delimited left) (rightDelimited : Delimited right)
    (equal : render first ++ left = render second ++ right) :
    first = second ∧ left = right := by
  obtain ⟨texts, rests⟩ := token_unique (render_scalar_chars firstScalar)
    (render_scalar_chars secondScalar) leftDelimited rightDelimited equal
  have read := congrArg readScalar texts
  rw [readScalar_render firstScalar, readScalar_render secondScalar] at read
  exact ⟨read, rests⟩

/-- What the first character of a text says about the value. -/
def opener : Json → Option Char
  | .str _ => some '"'
  | .arr _ => some '['
  | .obj _ => some '{'
  | _ => none

theorem render_eq_opener_cons {value : Json} {c : Char} (opened : value.opener = some c) :
    ∃ tail, render value = c :: tail := by
  cases value with
  | str text =>
      cases opened
      exact ⟨_, rfl⟩
  | arr items =>
      cases opened
      exact ⟨_, rfl⟩
  | obj fields =>
      cases opened
      exact ⟨_, rfl⟩
  | _ => cases opened

theorem isScalar_iff_opener {value : Json} : value.IsScalar ↔ value.opener = none := by
  cases value <;> simp [IsScalar, opener]

theorem opener_mem {value : Json} {c : Char} (opened : value.opener = some c) :
    isTokenChar c = false := by
  cases value <;> simp_all [opener] <;> subst opened <;> decide

theorem opener_eq {first second : Json} {left right : List Char}
    (equal : render first ++ left = render second ++ right) :
    first.opener = second.opener := by
  have scalarHead {value : Json} (scalar : value.opener = none) :
      ∃ c tail, render value = c :: tail ∧ isTokenChar c = true := by
    have scalar := isScalar_iff_opener.mpr scalar
    obtain ⟨c, tail, text⟩ := List.exists_cons_of_ne_nil (render_scalar_ne_nil scalar)
    exact ⟨c, tail, text, render_scalar_chars scalar c (by simp [text])⟩
  cases firstOpener : first.opener with
  | none =>
      obtain ⟨c, tail, text, token⟩ := scalarHead firstOpener
      cases secondOpener : second.opener with
      | none => rfl
      | some d =>
          obtain ⟨other, otherText⟩ := render_eq_opener_cons secondOpener
          have notToken := opener_mem secondOpener
          simp only [text, otherText, List.cons_append, List.cons.injEq] at equal
          rw [equal.1, notToken] at token
          contradiction
  | some c =>
      obtain ⟨tail, text⟩ := render_eq_opener_cons firstOpener
      cases secondOpener : second.opener with
      | none =>
          obtain ⟨d, other, otherText, token⟩ := scalarHead secondOpener
          have notToken := opener_mem firstOpener
          simp only [text, otherText, List.cons_append, List.cons.injEq] at equal
          rw [← equal.1, notToken] at token
          contradiction
      | some d =>
          obtain ⟨other, otherText⟩ := render_eq_opener_cons secondOpener
          simp only [text, otherText, List.cons_append, List.cons.injEq] at equal
          rw [equal.1]

theorem render_ne_close (value : Json) {c : Char} (close : c = ']' ∨ c = '}')
    (left right : List Char) : render value ++ left ≠ c :: right := by
  intro equal
  cases opened : value.opener with
  | none =>
      have scalar := isScalar_iff_opener.mpr opened
      obtain ⟨d, tail, text⟩ := List.exists_cons_of_ne_nil (render_scalar_ne_nil scalar)
      have token := render_scalar_chars scalar d (by simp [text])
      simp only [text, List.cons_append, List.cons.injEq] at equal
      rw [equal.1] at token
      rcases close with rfl | rfl <;> revert token <;> decide
  | some d =>
      obtain ⟨tail, text⟩ := render_eq_opener_cons opened
      simp only [text, List.cons_append, List.cons.injEq] at equal
      rw [equal.1] at opened
      rcases close with rfl | rfl <;> cases value <;> simp [opener] at opened

mutual

theorem render_unique (first second : Json) {left right : List Char}
    (leftDelimited : Delimited left) (rightDelimited : Delimited right)
    (equal : render first ++ left = render second ++ right) :
    first = second ∧ left = right := by
  have opened := opener_eq equal
  cases first with
  | str text =>
      cases second with
      | str other =>
          simp only [render] at equal
          obtain ⟨rfl, rests⟩ := quote_unique equal
          exact ⟨rfl, rests⟩
      | _ => simp [opener] at opened
  | arr items =>
      cases second with
      | arr others =>
          simp only [render, List.cons_append, List.cons.injEq, true_and] at equal
          obtain ⟨rfl, rests⟩ := renderItems_unique items others equal
          exact ⟨rfl, rests⟩
      | _ => simp [opener] at opened
  | obj fields =>
      cases second with
      | obj others =>
          simp only [render, List.cons_append, List.cons.injEq, true_and] at equal
          obtain ⟨rfl, rests⟩ := renderFields_unique fields others equal
          exact ⟨rfl, rests⟩
      | _ => simp [opener] at opened
  | _ =>
      exact render_scalar_unique trivial (isScalar_iff_opener.mpr opened.symm)
        leftDelimited rightDelimited equal

theorem renderItems_unique (items others : List Json) {isFirst : Bool}
    {left right : List Char}
    (equal : renderItems isFirst items ++ left = renderItems isFirst others ++ right) :
    items = others ∧ left = right := by
  cases items with
  | nil =>
      cases others with
      | nil => simpa [renderItems] using equal
      | cons other others =>
          cases isFirst with
          | true =>
              simp only [renderItems, separator, if_true, List.nil_append,
                List.append_assoc, List.cons_append] at equal
              exact absurd equal.symm (render_ne_close other (Or.inl rfl) _ _)
          | false => simp [renderItems, separator] at equal
  | cons item items =>
      cases others with
      | nil =>
          cases isFirst with
          | true =>
              simp only [renderItems, separator, if_true, List.nil_append,
                List.append_assoc, List.cons_append] at equal
              exact absurd equal (render_ne_close item (Or.inl rfl) _ _)
          | false => simp [renderItems, separator] at equal
      | cons other others =>
          simp only [renderItems, List.append_assoc] at equal
          have equal := List.append_cancel_left equal
          obtain ⟨rfl, tails⟩ := render_unique item other
            (delimited_renderItems items left) (delimited_renderItems others right) equal
          obtain ⟨rfl, rests⟩ := renderItems_unique items others tails
          exact ⟨rfl, rests⟩

theorem renderFields_unique (fields others : List (String × Json)) {isFirst : Bool}
    {left right : List Char}
    (equal : renderFields isFirst fields ++ left = renderFields isFirst others ++ right) :
    fields = others ∧ left = right := by
  cases fields with
  | nil =>
      cases others with
      | nil => simpa [renderFields] using equal
      | cons other others =>
          obtain ⟨key, value⟩ := other
          cases isFirst <;> simp [renderFields, separator, quote] at equal
  | cons field fields =>
      obtain ⟨key, value⟩ := field
      cases others with
      | nil => cases isFirst <;> simp [renderFields, separator, quote] at equal
      | cons other others =>
          obtain ⟨otherKey, otherValue⟩ := other
          simp only [renderFields, List.append_assoc, List.cons_append] at equal
          have equal := List.append_cancel_left equal
          obtain ⟨rfl, values⟩ := quote_unique equal
          simp only [List.cons.injEq, true_and] at values
          obtain ⟨rfl, tails⟩ := render_unique value otherValue
            (delimited_renderFields fields left) (delimited_renderFields others right) values
          obtain ⟨rfl, rests⟩ := renderFields_unique fields others tails
          exact ⟨rfl, rests⟩

end

/-- `dumps` loses nothing but the order of keys. -/
theorem dumps_eq_iff {first second : Json} :
    dumps first = dumps second ↔ SameUpToKeyOrder first second := by
  constructor
  · intro equal
    have delimited : Delimited [] := by simp [Delimited]
    exact (@render_unique first.sortKeys second.sortKeys [] [] delimited delimited
      (by simpa [dumps] using equal)).1
  · intro same
    rw [dumps, dumps, same]

theorem sortFieldKeys_eq_map (fields : List (String × Json)) :
    sortFieldKeys fields = fields.map fun field => (field.1, field.2.sortKeys) := by
  induction fields with
  | nil => rfl
  | cons field rest ih =>
      obtain ⟨key, value⟩ := field
      simp [sortFieldKeys, ih]

theorem sameUpToKeyOrder_obj_map {keys : List String} {first second : String → Json} :
    SameUpToKeyOrder (.obj (keys.map fun key => (key, first key)))
        (.obj (keys.map fun key => (key, second key))) ↔
      ∀ key ∈ keys, SameUpToKeyOrder (first key) (second key) := by
  simp only [SameUpToKeyOrder, sortKeys, sortFieldKeys_eq_map, List.map_map,
    Function.comp_def, obj.injEq]
  constructor
  · intro equal key member
    have listed : (key, (first key).sortKeys) ∈
        sortFields (keys.map fun key => (key, (second key).sortKeys)) := by
      rw [← equal, sortFields, List.mem_insertionSort]
      exact List.mem_map.mpr ⟨key, member, rfl⟩
    rw [sortFields, List.mem_insertionSort] at listed
    obtain ⟨other, _, same⟩ := List.mem_map.mp listed
    simp only [Prod.mk.injEq] at same
    obtain ⟨rfl, values⟩ := same
    exact values.symm
  · intro same
    apply congrArg sortFields
    apply List.map_congr_left
    intro key member
    rw [same key member]

theorem sortFields_perm {left right : List (String × Json)} (moved : left.Perm right)
    (distinct : (left.map Prod.fst).Nodup) : sortFields left = sortFields right := by
  have sorted (fields : List (String × Json)) :
      (sortFields fields).Pairwise fun first second => first.1 ≤ second.1 :=
    List.pairwise_insertionSort _ fields
  have perm : (sortFields left).Perm (sortFields right) :=
    (List.perm_insertionSort _ left).trans
      (moved.trans (List.perm_insertionSort _ right).symm)
  refine perm.eq_of_pairwise ?_ (sorted left) (sorted right)
  intro first second inLeft inRight below above
  have firstMember : first ∈ left := (List.mem_insertionSort _).mp inLeft
  have secondMember : second ∈ left :=
    moved.mem_iff.mpr ((List.mem_insertionSort _).mp inRight)
  exact List.inj_on_of_nodup_map distinct firstMember secondMember (String.le_antisymm below above)

/-- A separator that neither tail holds splits a text in one way. -/
theorem last_unique {c : Char} {first second left right : List Char}
    (inLeft : c ∉ left) (inRight : c ∉ right)
    (equal : first ++ c :: left = second ++ c :: right) : first = second ∧ left = right := by
  rcases List.append_eq_append_iff.mp equal with ⟨between, outer, inner⟩ |
      ⟨between, outer, inner⟩
  · cases between with
    | nil => simp_all
    | cons d between =>
        obtain ⟨-, split⟩ := List.cons.inj inner
        exact absurd (by simp [split]) inLeft
  · cases between with
    | nil => simp_all
    | cons d between =>
        obtain ⟨-, split⟩ := List.cons.inj inner
        exact absurd (by simp [split]) inRight

theorem digitChar_ne_quote (value : Nat) : Nat.digitChar (value % 16) ≠ '"' := by
  have small : ∀ digit < 16, Nat.digitChar digit ≠ '"' := by decide
  exact small _ (Nat.mod_lt _ (by decide))

theorem quote_mem_escapeChar {c : Char} (member : '"' ∈ escapeChar c) : c = '"' := by
  have shape := escaped_escapeChar c
  generalize escapeChar c = text at member shape
  cases shape with
  | plain _ _ => simpa [eq_comm] using member
  | short letter listed =>
      have letterQuote : letter = '"' := by simpa [eq_comm] using member
      rw [letterQuote] at listed
      simpa [shortEscapes] using listed
  | unit _ => simp [hexFour, (digitChar_ne_quote _).symm] at member
  | surrogates _ => simp [hexFour, (digitChar_ne_quote _).symm] at member

theorem quote_eq_of_plain {text : String} (plain : '"' ∉ text.toList) :
    ∃ inner, quote text = '"' :: (inner ++ ['"']) ∧ '"' ∉ inner := by
  have tails (chars : List Char) (plain : '"' ∉ chars) :
      ∃ inner, escapeTail chars = inner ++ ['"'] ∧ '"' ∉ inner := by
    induction chars with
    | nil => exact ⟨[], rfl, by simp⟩
    | cons c rest ih =>
        rw [List.mem_cons, not_or] at plain
        obtain ⟨inner, equality, absent⟩ := ih plain.2
        refine ⟨escapeChar c ++ inner, by simp [escapeTail, equality], ?_⟩
        rw [List.mem_append, not_or]
        exact ⟨fun member => plain.1 (quote_mem_escapeChar member).symm, absent⟩
  obtain ⟨inner, equality, absent⟩ := tails text.toList plain
  exact ⟨inner, by rw [quote, equality], absent⟩

theorem renderFields_append (isFirst : Bool) (fields rest : List (String × Json)) :
    ∃ front isNext, renderFields isFirst (fields ++ rest) =
      front ++ renderFields isNext rest := by
  induction fields generalizing isFirst with
  | nil => exact ⟨[], isFirst, rfl⟩
  | cons field fields ih =>
      obtain ⟨key, value⟩ := field
      obtain ⟨front, isNext, equality⟩ := ih false
      refine ⟨separator isFirst ++ (quote key ++ ':' :: (render value ++ front)), isNext, ?_⟩
      simp [renderFields, equality]

end Json

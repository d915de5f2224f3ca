import Mathlib.Data.List.Infix
import OrderStream.Data.Dict
import OrderStream.Data.Json

/-! The Python values that BSON documents are read into, with `==`, `int()` and
the order in which MongoDB sorts them. -/

namespace OrderStream

structure CivilDate where
  year : Nat
  month : Nat
  day : Nat
  deriving DecidableEq

structure ClockTime where
  hour : Nat
  minute : Nat
  second : Nat
  microsecond : Nat
  utcOffset : Option Int := none
  deriving DecidableEq

inductive Temporal where
  | datetime (day : CivilDate) (clock : ClockTime)
  | date (day : CivilDate)
  | time (clock : ClockTime)
  deriving DecidableEq

/-- A dictionary inside a value is a list of entries, each key once.  `other` is
any further BSON type, known by its name and its `str()`. -/
inductive Value where
  | null
  | bool (value : Bool)
  | int (value : Int)
  | float (value : PyFloat)
  | str (value : String)
  | temporal (value : Temporal)
  | uuid (value : BitVec 128)
  | bytes (value : List UInt8)
  | list (items : List Value)
  | tuple (items : List Value)
  | dict (fields : List (String × Value))
  | other (typeName : String) (text : String)

abbrev Doc := PyDict String Value

/-- `doc.get(key)` -/
def Doc.get (doc : Doc) (key : String) : Value := (doc.get? key).getD .null

theorem Doc.get?_eq_some {doc : Doc} {key : String} {value : Value}
    (found : doc.get key = value) (present : value ≠ .null) :
    doc.get? key = some value := by
  unfold Doc.get at found
  cases entry : doc.get? key with
  | none =>
      rw [entry] at found
      exact absurd found.symm present
  | some stored => simpa [entry] using found

theorem Doc.get_of_not_contains {doc : Doc} {field : String}
    (absent : ¬doc.contains field) : doc.get field = .null := by
  simp only [PyDict.contains, Bool.not_eq_true, Option.isSome_eq_false_iff,
    Option.isNone_iff_eq_none] at absent
  rw [Doc.get, absent, Option.getD_none]

/-- `Doc.get` on a value that may be `None`, read as `(doc or {}).get(key)`. -/
def Doc.getOr (doc : Option Doc) (key : String) : Value :=
  match doc with
  | some doc => doc.get key
  | none => .null

inductive PyError where
  | keyError (key : String)
  | typeError
  | valueError
  | overflowError
  | attributeError
  | runtimeError (message : String)
  | pyMongoError (message : String)
  deriving DecidableEq

theorem bind_eq_ok {ε α β : Type} {first : Except ε α} {next : α → Except ε β} {result : β}
    (returned : first >>= next = .ok result) :
    ∃ value, first = .ok value ∧ next value = .ok result := by
  cases first with
  | error _ => cases returned
  | ok value => exact ⟨value, rfl, returned⟩

def padded (width value : Nat) : List Char :=
  let digits := Nat.toDigits 10 value
  List.replicate (width - digits.length) '0' ++ digits

def CivilDate.isoformat (date : CivilDate) : List Char :=
  padded 4 date.year ++ '-' :: padded 2 date.month ++ '-' :: padded 2 date.day

def utcOffsetText (offset : Int) : List Char :=
  let seconds := offset.natAbs
  (if offset < 0 then '-' else '+') :: padded 2 (seconds / 3600) ++
    ':' :: padded 2 (seconds / 60 % 60) ++
    if seconds % 60 = 0 then [] else ':' :: padded 2 (seconds % 60)

def ClockTime.isoformat (time : ClockTime) : List Char :=
  padded 2 time.hour ++ ':' :: padded 2 time.minute ++ ':' :: padded 2 time.second ++
    (if time.microsecond = 0 then [] else '.' :: padded 6 time.microsecond) ++
    (time.utcOffset.map utcOffsetText).getD []

def Temporal.isoformat : Temporal → String
  | .datetime day clock => String.ofList (day.isoformat ++ 'T' :: clock.isoformat)
  | .date day => String.ofList day.isoformat
  | .time clock => String.ofList clock.isoformat

theorem padded_digits {width value : Nat} {c : Char} (member : c ∈ padded width value) :
    c.isDigit = true := by
  rcases List.mem_append.mp member with zero | digit
  · rw [List.eq_of_mem_replicate zero]
    rfl
  · exact Nat.isDigit_of_mem_toDigits (by decide) (by decide) digit

theorem padded_ne_quote (width value : Nat) : '"' ∉ padded width value := by
  intro member
  exact absurd (padded_digits member) (by decide)

theorem CivilDate.isoformat_ne_quote (date : CivilDate) : '"' ∉ date.isoformat := by
  simp [CivilDate.isoformat, padded_ne_quote]

theorem utcOffsetText_ne_quote (offset : Int) : '"' ∉ utcOffsetText offset := by
  unfold utcOffsetText
  dsimp only
  split <;> split <;> simp [padded_ne_quote]

theorem ClockTime.isoformat_ne_quote (time : ClockTime) : '"' ∉ time.isoformat := by
  unfold ClockTime.isoformat
  cases time.utcOffset <;> split <;> simp [padded_ne_quote, utcOffsetText_ne_quote]

theorem Temporal.isoformat_ne_quote (value : Temporal) :
    '"' ∉ value.isoformat.toList := by
  cases value <;>
    simp [Temporal.isoformat, CivilDate.isoformat_ne_quote, ClockTime.isoformat_ne_quote]

def hexDigits (width value : Nat) : List Char :=
  (List.range width).map fun index =>
    Nat.digitChar (value / 16 ^ (width - 1 - index) % 16)

def uuidText (value : BitVec 128) : String :=
  let digits := hexDigits 32 value.toNat
  String.ofList (digits.take 8 ++ '-' :: (digits.drop 8).take 4 ++
    '-' :: (digits.drop 12).take 4 ++ '-' :: (digits.drop 16).take 4 ++
    '-' :: digits.drop 20)

def bytesHex (value : List UInt8) : String :=
  String.ofList (value.flatMap fun byte => hexDigits 2 byte.toNat)

def daysBeforeMonth (year month : Nat) : Nat :=
  let leap := year % 4 = 0 ∧ (year % 100 ≠ 0 ∨ year % 400 = 0)
  [0, 31, 59, 90, 120, 151, 181, 212, 243, 273, 304, 334].getD (month - 1) 0 +
    if leap ∧ 2 < month then 1 else 0

def CivilDate.ordinal (date : CivilDate) : Nat :=
  let past := date.year - 1
  365 * past + past / 4 - past / 100 + past / 400 +
    daysBeforeMonth date.year date.month + date.day

/-- Microseconds from midnight, in UTC when the offset is known. -/
def ClockTime.instant (time : ClockTime) : Int :=
  ((time.hour * 60 + time.minute) * 60 + time.second : Nat) * 1000000 +
    time.microsecond - time.utcOffset.getD 0 * 1000000

/-- What a temporal value is to `==`: naive and aware values are never equal. -/
def Temporal.key : Temporal → Nat × Bool × Int
  | .datetime day clock =>
      (0, clock.utcOffset.isSome, day.ordinal * 86400000000 + clock.instant)
  | .date day => (1, false, day.ordinal)
  | .time clock => (2, clock.utcOffset.isSome, clock.instant)

/-- A value spelled out for `==`: equal values have equal spellings. -/
inductive EqToken where
  | null
  | number (value : PyFloat.Magnitude)
  | str (value : String)
  | temporal (value : Nat × Bool × Int)
  | uuid (value : BitVec 128)
  | bytes (value : List UInt8)
  | other (typeName : String) (text : String)
  | openList
  | openTuple
  | openDict
  | key (name : String)
  | close
  deriving DecidableEq

def sortByKey (fields : List (String × List EqToken)) : List (String × List EqToken) :=
  fields.insertionSort fun left right => left.1 ≤ right.1

mutual
/-- `none` for NaN and whatever holds one: it equals nothing. -/
def Value.spelling : Value → Option (List EqToken)
  | .null => some [.null]
  | .bool value => some [.number (.finite (if value then 1 else 0))]
  | .int value => some [.number (.finite value)]
  | .float value => value.magnitude?.map fun magnitude => [.number magnitude]
  | .str value => some [.str value]
  | .temporal value => some [.temporal value.key]
  | .uuid value => some [.uuid value]
  | .bytes value => some [.bytes value]
  | .list items => (Value.spellItems items).map fun tokens => .openList :: tokens
  | .tuple items => (Value.spellItems items).map fun tokens => .openTuple :: tokens
  | .dict fields => (Value.spellFields fields).map fun entries =>
      .openDict :: (sortByKey entries).flatMap (fun entry => .key entry.1 :: entry.2) ++
        [.close]
  | .other typeName text => some [.other typeName text]

def Value.spellItems : List Value → Option (List EqToken)
  | [] => some [.close]
  | item :: rest =>
      match item.spelling, Value.spellItems rest with
      | some first, some tokens => some (first ++ tokens)
      | _, _ => none

def Value.spellFields : List (String × Value) → Option (List (String × List EqToken))
  | [] => some []
  | (name, value) :: rest =>
      match value.spelling, Value.spellFields rest with
      | some first, some entries => some ((name, first) :: entries)
      | _, _ => none
end

/-- `left == right` on values that are not the same object. -/
def Value.pyEq (left right : Value) : Bool :=
  match left.spelling, right.spelling with
  | some first, some second => decide (first = second)
  | _, _ => false

theorem Value.pyEq_iff {left right : Value} :
    left.pyEq right = true ↔
      ∃ tokens, left.spelling = some tokens ∧ right.spelling = some tokens := by
  unfold Value.pyEq
  cases left.spelling <;> cases right.spelling <;> simp [eq_comm]

theorem Value.pyEq_symm {left right : Value} (equal : left.pyEq right = true) :
    right.pyEq left = true := by
  obtain ⟨tokens, first, second⟩ := Value.pyEq_iff.mp equal
  exact Value.pyEq_iff.mpr ⟨tokens, second, first⟩

theorem Value.pyEq_trans {first second third : Value}
    (left : first.pyEq second = true) (right : second.pyEq third = true) :
    first.pyEq third = true := by
  obtain ⟨tokens, leftFirst, leftSecond⟩ := Value.pyEq_iff.mp left
  obtain ⟨others, rightFirst, rightSecond⟩ := Value.pyEq_iff.mp right
  cases leftSecond.symm.trans rightFirst
  exact Value.pyEq_iff.mpr ⟨tokens, leftFirst, rightSecond⟩

def Value.Same (left right : Value) : Prop := left = right ∨ left.pyEq right = true

theorem Value.Same.refl (value : Value) : value.Same value := Or.inl rfl

theorem Value.Same.symm {left right : Value} (same : left.Same right) :
    right.Same left := by
  rcases same with rfl | equal
  · exact .refl left
  · exact Or.inr (Value.pyEq_symm equal)

theorem Value.Same.trans {first second third : Value}
    (left : first.Same second) (right : second.Same third) : first.Same third := by
  rcases left with rfl | left
  · exact right
  · rcases right with rfl | right
    · exact Or.inr left
    · exact Or.inr (Value.pyEq_trans left right)

theorem Value.Same.pyEq_iff {left right : Value} (same : left.Same right) (value : Value) :
    value.pyEq left = true ↔ value.pyEq right = true := by
  rcases same with rfl | equal
  · exact Iff.rfl
  · constructor
    · intro first
      exact Value.pyEq_trans first equal
    · intro first
      exact Value.pyEq_trans first (Value.pyEq_symm equal)

theorem Value.pyEq_comm (left right : Value) :
    left.pyEq right = true ↔ right.pyEq left = true :=
  ⟨Value.pyEq_symm, Value.pyEq_symm⟩

theorem Value.pyEq_str_iff {value : Value} {text : String} :
    value.pyEq (.str text) = true ↔ value = .str text := by
  constructor
  · intro equal
    obtain ⟨tokens, first, second⟩ := Value.pyEq_iff.mp equal
    simp only [Value.spelling, Option.some.injEq] at second
    subst second
    cases value <;> simp_all [Value.spelling]
  · rintro rfl
    exact Value.pyEq_iff.mpr ⟨_, rfl, rfl⟩

theorem Value.pyEq_int_iff {left right : Int} :
    (Value.int left).pyEq (.int right) = true ↔ left = right := by
  simp [Value.pyEq, Value.spelling]

/-- `str.isspace` -/
def isPySpace (c : Char) : Bool :=
  let code := c.toNat
  (9 ≤ code && code ≤ 13) || (28 ≤ code && code ≤ 32) || code == 133 || code == 160 ||
    code == 5760 || (8192 ≤ code && code ≤ 8202) || code == 8232 || code == 8233 ||
    code == 8239 || code == 8287 || code == 12288

/-- The zero of every script that has decimal digits; nine more follow each. -/
def digitZeros : List Nat :=
  [0x30, 0x660, 0x6f0, 0x7c0, 0x966, 0x9e6, 0xa66, 0xae6, 0xb66, 0xbe6, 0xc66, 0xce6, 0xd66,
    0xde6, 0xe50, 0xed0, 0xf20, 0x1040, 0x1090, 0x17e0, 0x1810, 0x1946, 0x19d0, 0x1a80,
    0x1a90, 0x1b50, 0x1bb0, 0x1c40, 0x1c50, 0xa620, 0xa8d0, 0xa900, 0xa9d0, 0xa9f0, 0xaa50,
    0xabf0, 0xff10, 0x104a0, 0x10d30, 0x11066, 0x110f0, 0x11136, 0x111d0, 0x112f0, 0x11450,
    0x114d0, 0x11650, 0x116c0, 0x11730, 0x118e0, 0x11950, 0x11c50, 0x11d50, 0x11da0,
    0x16a60, 0x16ac0, 0x16b50, 0x1d7ce, 0x1d7d8, 0x1d7e2, 0x1d7ec, 0x1d7f6, 0x1e140,
    0x1e2f0, 0x1e950, 0x1fbf0]

def decimalDigit? (c : Char) : Option Nat :=
  (digitZeros.find? fun first => first ≤ c.toNat && c.toNat < first + 10).map (c.toNat - ·)

/-- A character of a text as `int` reads it: the spaces and digits of all scripts become
those of ASCII. -/
def asciiChar (c : Char) : Char :=
  if c.toNat < 127 then c
  else if isPySpace c then ' '
  else ((decimalDigit? c).map Nat.digitChar).getD '?'

/-- The digits of an integer literal, at most 4300 of them: underscores may stand between
digits. -/
def readDigits (text : List Char) : Option Nat :=
  let digits := text.filter Char.isDigit
  if text.all (fun c => c.isDigit || c = '_') ∧ text.head?.any Char.isDigit ∧
      text.getLast?.any Char.isDigit ∧ ¬['_', '_'] <:+: text ∧ digits.length ≤ 4300 then
    some (Nat.ofDigitChars 10 digits 0)
  else
    none

def isAsciiSpace (c : Char) : Bool := (9 ≤ c.toNat && c.toNat ≤ 13) || c == ' '

def readIntLiteral (text : List Char) : Option Int :=
  let stripped := ((text.dropWhile isAsciiSpace).reverse.dropWhile isAsciiSpace).reverse
  match stripped with
  | '-' :: digits => (readDigits digits).map fun value => -(value : Int)
  | '+' :: digits => (readDigits digits).map fun value => (value : Int)
  | digits => (readDigits digits).map fun value => (value : Int)

def truncate (value : Rat) : Int := if 0 ≤ value then value.floor else value.ceil

def literalInt (text : List Char) : Except PyError Int :=
  match readIntLiteral text with
  | some value => .ok value
  | none => .error .valueError

def pyInt : Value → Except PyError Int
  | .int value => .ok value
  | .bool value => .ok (if value then 1 else 0)
  | .float value =>
      match value.magnitude? with
      | none => .error .valueError
      | some (.inf _) => .error .overflowError
      | some (.finite value) => .ok (truncate value)
  | .str text => literalInt (text.toList.map asciiChar)
  | .bytes value => literalInt (value.map fun byte => Char.ofNat byte.toNat)
  | .uuid value => .ok value.toNat
  | .other typeName text =>
      -- JavaScript code is read into a subclass of `str`
      if typeName = "Code" then literalInt (text.toList.map asciiChar) else .error .typeError
  | _ => .error .typeError

/-- What `int` takes: numbers other than NaN and the infinities, and decimal literals. -/
def Value.IntLike : Value → Prop
  | .int _ | .bool _ | .uuid _ => True
  | .float value => ∃ number, value.magnitude? = some (.finite number)
  | .str text => (readIntLiteral (text.toList.map asciiChar)).isSome = true
  | .bytes value => (readIntLiteral (value.map fun byte => Char.ofNat byte.toNat)).isSome = true
  | .other typeName text =>
      typeName = "Code" ∧ (readIntLiteral (text.toList.map asciiChar)).isSome = true
  | _ => False

theorem literalInt_ok_iff (text : List Char) :
    (∃ number, literalInt text = .ok number) ↔ (readIntLiteral text).isSome = true := by
  unfold literalInt
  cases readIntLiteral text <;> simp

theorem pyInt_ok_iff (value : Value) :
    (∃ number, pyInt value = .ok number) ↔ value.IntLike := by
  cases value with
  | int _ | bool _ | uuid _ => exact iff_of_true ⟨_, rfl⟩ trivial
  | float value =>
      simp only [pyInt, Value.IntLike]
      cases value.magnitude? with
      | none => simp
      | some magnitude => cases magnitude <;> simp
  | str text => exact literalInt_ok_iff _
  | bytes value => exact literalInt_ok_iff _
  | other typeName text =>
      simp only [pyInt, Value.IntLike]
      split
      · rename_i code
        rw [literalInt_ok_iff]
        exact (and_iff_right code).symm
      · rename_i plain
        simp [plain]
  | null | temporal _ | list _ | tuple _ | dict _ => simp [pyInt, Value.IntLike]

/-! The order of BSON values, by type and then, for scalars, by value.  A missing
field sorts as null. -/

def bsonRank : Value → Nat
  | .null => 0
  | .bool _ => 7
  | .int _ => 1
  | .float _ => 1
  | .str _ => 2
  | .temporal _ => 8
  | .uuid _ => 5
  | .bytes _ => 5
  | .list _ => 4
  | .tuple _ => 4
  | .dict _ => 3
  | .other _ _ => 6

def bsonLe (left right : Value) : Bool :=
  match left, right with
  | .bool first, .bool second => decide (first ≤ second)
  | .str first, .str second => decide (first ≤ second)
  | .temporal first, .temporal second => decide (first.key.2.2 ≤ second.key.2.2)
  | .int first, .int second => decide (first ≤ second)
  | .int first, .float second =>
      (second.magnitude?.map fun magnitude =>
        PyFloat.Magnitude.le (.finite first) magnitude).getD false
  | .float first, .int second =>
      (first.magnitude?.map fun magnitude =>
        magnitude.le (.finite second)).getD true
  | .float first, .float second =>
      match first.magnitude?, second.magnitude? with
      | none, _ => true
      | some _, none => false
      | some first, some second => first.le second
  | left, right => decide (bsonRank left ≤ bsonRank right)

end OrderStream

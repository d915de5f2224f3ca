import OrderStream.Data.Sha256
import OrderStream.Data.Utf8
import OrderStream.Models

/-! The canonical form of a value and the hash of an event's payload. -/

namespace OrderStream

mutual
/-- `_to_canonical`: what is no JSON value becomes text. -/
def toCanonical : Value → Json
  | .null => .null
  | .str value => .str value
  | .int value => .int value
  | .bool value => .bool value
  | .float value => .float value
  | .temporal value => .str value.isoformat
  | .uuid value => .str (uuidText value)
  | .bytes value => .str (bytesHex value)
  | .dict fields => .obj (toCanonicalFields fields)
  | .list items => .arr (toCanonicalItems items)
  | .tuple items => .arr (toCanonicalItems items)
  | .other _ text => .str text

def toCanonicalItems : List Value → List Json
  | [] => []
  | item :: rest => toCanonical item :: toCanonicalItems rest

def toCanonicalFields : List (String × Value) → List (String × Json)
  | [] => []
  | (name, value) :: rest => (name, toCanonical value) :: toCanonicalFields rest
end

mutual
def ofJson : Json → Value
  | .null => .null
  | .bool value => .bool value
  | .int value => .int value
  | .float value => .float value
  | .str value => .str value
  | .arr items => .list (ofJsonItems items)
  | .obj fields => .dict (ofJsonFields fields)

def ofJsonItems : List Json → List Value
  | [] => []
  | item :: rest => ofJson item :: ofJsonItems rest

def ofJsonFields : List (String × Json) → List (String × Value)
  | [] => []
  | (name, value) :: rest => (name, ofJson value) :: ofJsonFields rest
end

def canonical (value : Value) : Value := ofJson (toCanonical value)

def canonicalDoc (doc : Doc) : Doc := doc.mapValues canonical

def canonicalEntry (entry : DiffEntry) : DiffEntry where
  field := entry.field
  before := canonical entry.before
  after := canonical entry.after

theorem toCanonicalFields_eq_map (fields : List (String × Value)) :
    toCanonicalFields fields = fields.map fun field => (field.1, toCanonical field.2) := by
  induction fields with
  | nil => rfl
  | cons field rest ih =>
      obtain ⟨name, value⟩ := field
      simp [toCanonicalFields, ih]

mutual
theorem toCanonical_ofJson (value : Json) : toCanonical (ofJson value) = value := by
  cases value with
  | arr items => simp only [ofJson, toCanonical, toCanonicalItems_ofJson items]
  | obj fields => simp only [ofJson, toCanonical, toCanonicalFields_ofJson fields]
  | _ => rfl

theorem toCanonicalItems_ofJson (items : List Json) :
    toCanonicalItems (ofJsonItems items) = items := by
  cases items with
  | nil => rfl
  | cons item rest =>
      simp only [ofJsonItems, toCanonicalItems, toCanonical_ofJson item,
        toCanonicalItems_ofJson rest]

theorem toCanonicalFields_ofJson (fields : List (String × Json)) :
    toCanonicalFields (ofJsonFields fields) = fields := by
  cases fields with
  | nil => rfl
  | cons field rest =>
      obtain ⟨name, value⟩ := field
      simp only [ofJsonFields, toCanonicalFields, toCanonical_ofJson value,
        toCanonicalFields_ofJson rest]
end

@[simp] theorem toCanonical_canonical (value : Value) :
    toCanonical (canonical value) = toCanonical value :=
  toCanonical_ofJson _

def hashedFields : List String :=
  ["event_id", "seq", "op", "intent", "priority", "order_id", "diff", "before",
    "after", "ts", "schema_version", "correlation_id"]

def canonicalBytes (payload : List (String × Value)) : List UInt8 :=
  encodeUtf8 (Json.dumps (toCanonical (.dict payload)))

/-- The bytes that `compute_hash` feeds to SHA-256. -/
def hashInput (prevHash : String) (payload : List (String × Value)) : List UInt8 :=
  encodeUtf8 prevHash.toList ++ canonicalBytes payload

def computeHash (prevHash : String) (payload : List (String × Value)) : String :=
  Sha256.hexdigest (hashInput prevHash payload)

def hashPayloadFromDoc (doc : Doc) : List (String × Value) :=
  hashedFields.map fun key => (key, doc.get key)

theorem length_computeHash (prevHash : String) (payload : List (String × Value)) :
    (computeHash prevHash payload).toList.length = 64 :=
  Sha256.length_hexdigest _

/-- Predecessor hashes of one length and payloads are read back from the bytes,
payloads up to the order of their keys. -/
theorem hashInput_unique {first second : String} {left right : List (String × Value)}
    (lengths : first.toList.length = second.toList.length)
    (equal : hashInput first left = hashInput second right) :
    first = second ∧
      (toCanonical (.dict left)).SameUpToKeyOrder (toCanonical (.dict right)) := by
  simp only [hashInput, canonicalBytes, ← encodeUtf8_append] at equal
  obtain ⟨hashes, texts⟩ := List.append_inj (encodeUtf8_injective equal) lengths
  exact ⟨String.toList_injective hashes, Json.dumps_eq_iff.mp texts⟩

theorem hashInput_congr (prevHash : String) {left right : List (String × Value)}
    (same : (toCanonical (.dict left)).SameUpToKeyOrder (toCanonical (.dict right))) :
    hashInput prevHash left = hashInput prevHash right := by
  simp only [hashInput, canonicalBytes, Json.dumps_eq_iff.mpr same]

/-- Every hashed field of two documents has one canonical form, the order of keys
aside. -/
def SameHashedFields (left right : Doc) : Prop :=
  ∀ key ∈ hashedFields,
    (toCanonical (left.get key)).SameUpToKeyOrder (toCanonical (right.get key))

theorem sameHashedFields_iff {left right : Doc} :
    SameHashedFields left right ↔
      (toCanonical (.dict (hashPayloadFromDoc left))).SameUpToKeyOrder
        (toCanonical (.dict (hashPayloadFromDoc right))) := by
  simp only [toCanonical, toCanonicalFields_eq_map, hashPayloadFromDoc, List.map_map,
    Function.comp_def]
  exact Json.sameUpToKeyOrder_obj_map.symm

end OrderStream

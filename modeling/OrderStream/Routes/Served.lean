import OrderStream.Routes.Orders
import OrderStream.Spine.Replay
import OrderStream.Spine.Storage

/-! Stored events as a route serves them, and the chain walked over what was served. -/

namespace OrderStream

/-- `str(value)` -/
def Temporal.str : Temporal → String
  | .datetime day clock => String.ofList (day.isoformat ++ ' ' :: clock.isoformat)
  | .date day => String.ofList day.isoformat
  | .time clock => String.ofList clock.isoformat

def reprByte (quote : Char) (byte : UInt8) : List Char :=
  let c := Char.ofNat byte.toNat
  if c = quote ∨ c = '\\' then ['\\', c]
  else if c = '\t' then ['\\', 't']
  else if c = '\n' then ['\\', 'n']
  else if c = '\r' then ['\\', 'r']
  else if byte.toNat < 32 ∨ 127 ≤ byte.toNat then '\\' :: 'x' :: hexDigits 2 byte.toNat
  else [c]

/-- `repr(value)`: in single quotes, unless only double quotes need no escape. -/
def bytesRepr (value : List UInt8) : String :=
  let quote := if value.contains 39 && !value.contains 34 then '"' else '\''
  String.ofList ('b' :: quote :: value.flatMap (reprByte quote) ++ [quote])

mutual
/-- `json.loads(json.dumps(value, default=str))` -/
def throughJson : Value → Value
  | .null => .null
  | .bool value => .bool value
  | .int value => .int value
  | .float value => .float value
  | .str value => .str value
  | .temporal value => .str value.str
  | .uuid value => .str (uuidText value)
  | .bytes value => .str (bytesRepr value)
  | .list items => .list (throughJsonItems items)
  | .tuple items => .list (throughJsonItems items)
  | .dict fields => .dict (throughJsonFields fields)
  | .other _ text => .str text

def throughJsonItems : List Value → List Value
  | [] => []
  | item :: rest => throughJson item :: throughJsonItems rest

def throughJsonFields : List (String × Value) → List (String × Value)
  | [] => []
  | (name, value) :: rest => (name, throughJson value) :: throughJsonFields rest
end

def servedDoc (doc : Doc) : Doc := doc.mapValues throughJson

mutual
theorem throughJson_of_isJson (value : Value) (json : value.IsJson) :
    throughJson value = value := by
  cases value with
  | list items => exact congrArg Value.list (throughJsonItems_of_areJson items json)
  | dict fields => exact congrArg Value.dict (throughJsonFields_of_holdJson fields json)
  | null | bool _ | int _ | float _ | str _ => rfl
  | temporal _ | uuid _ | bytes _ | tuple _ | other _ _ => cases json

theorem throughJsonItems_of_areJson (items : List Value) (json : Value.AreJson items) :
    throughJsonItems items = items := by
  cases items with
  | nil => rfl
  | cons item rest =>
      simp only [throughJsonItems, throughJson_of_isJson item json.1,
        throughJsonItems_of_areJson rest json.2]

theorem throughJsonFields_of_holdJson (fields : List (String × Value))
    (json : Value.HoldJson fields) : throughJsonFields fields = fields := by
  cases fields with
  | nil => rfl
  | cons field rest =>
      obtain ⟨name, value⟩ := field
      simp only [throughJsonFields, throughJson_of_isJson value json.1,
        throughJsonFields_of_holdJson rest json.2]
end

mutual
theorem isFinite_throughJson (value : Value) :
    (throughJson value).isFinite = value.isFinite := by
  cases value with
  | list items => exact areFinite_throughJson items
  | tuple items => exact areFinite_throughJson items
  | dict fields => exact holdFinite_throughJson fields
  | null | bool _ | int _ | float _ | str _ => rfl
  | temporal _ | uuid _ | bytes _ | other _ _ => rfl

theorem areFinite_throughJson (items : List Value) :
    Value.areFinite (throughJsonItems items) = Value.areFinite items := by
  cases items with
  | nil => rfl
  | cons item rest =>
      simp only [throughJsonItems, Value.areFinite, isFinite_throughJson item,
        areFinite_throughJson rest]

theorem holdFinite_throughJson (fields : List (String × Value)) :
    Value.holdFinite (throughJsonFields fields) = Value.holdFinite fields := by
  cases fields with
  | nil => rfl
  | cons field rest =>
      obtain ⟨name, value⟩ := field
      simp only [throughJsonFields, Value.holdFinite, isFinite_throughJson value,
        holdFinite_throughJson rest]
end

theorem throughJsonFields_eq_map (fields : List (String × Value)) :
    throughJsonFields fields = fields.map fun field => (field.1, throughJson field.2) := by
  induction fields with
  | nil => rfl
  | cons field rest ih =>
      obtain ⟨name, value⟩ := field
      simp only [throughJsonFields, List.map_cons, ih]

def Doc.isFinite (doc : Doc) : Bool := Value.holdFinite doc.entries

theorem isFinite_servedDoc (doc : Doc) : (servedDoc doc).isFinite = doc.isFinite := by
  rw [Doc.isFinite, Doc.isFinite, ← holdFinite_throughJson doc.entries, throughJsonFields_eq_map]
  rfl

section

variable {doc : Doc} {key : String}

/-- What verification reads of a document is JSON, as the spine stores it. -/
def Auditable (doc : Doc) : Prop :=
  ∀ key ∈ "prev_hash" :: "hash" :: hashedFields, (doc.get key).IsJson

theorem get?_servedDoc (json : (doc.get key).IsJson) :
    (servedDoc doc).get? key = doc.get? key := by
  rw [servedDoc, PyDict.get?_mapValues]
  cases found : doc.get? key with
  | none => rfl
  | some value =>
      rw [Doc.get, found, Option.getD_some] at json
      rw [Option.map_some, throughJson_of_isJson value json]

theorem get_servedDoc (json : (doc.get key).IsJson) :
    (servedDoc doc).get key = doc.get key := by
  rw [Doc.get, Doc.get, get?_servedDoc json]

theorem hashPayloadFromDoc_servedDoc (auditable : Auditable doc) :
    hashPayloadFromDoc (servedDoc doc) = hashPayloadFromDoc doc := by
  unfold hashPayloadFromDoc
  apply List.map_congr_left
  intro key member
  rw [get_servedDoc (auditable key (List.mem_cons_of_mem _ (List.mem_cons_of_mem _ member)))]

theorem seqOf_servedDoc {doc : Doc} {seq : Int} (stored : doc.get "seq" = .int seq) :
    seqOf (servedDoc doc) = seqOf doc := by
  rw [seqOf, seqOf, get_servedDoc (by rw [stored]; trivial)]

theorem subscript_servedDoc (json : (doc.get key).IsJson) :
    subscript (servedDoc doc) key = subscript doc key := by
  rw [subscript, subscript, get?_servedDoc json]

/-- Walking the chain over what was served comes to what walking it over the stored
documents comes to. -/
theorem verifyLoop_served {docs : List Doc} (auditable : ∀ doc ∈ docs, Auditable doc)
    (prev : String) (verified : Nat) :
    verifyLoop prev verified (docs.map servedDoc) = verifyLoop prev verified docs := by
  induction docs generalizing prev verified with
  | nil => rfl
  | cons doc rest ih =>
      have own := auditable doc List.mem_cons_self
      have others := ih fun doc member => auditable doc (List.mem_cons_of_mem _ member)
      rw [List.map_cons, verifyLoop, verifyLoop, hashPayloadFromDoc_servedDoc own,
        get_servedDoc (own "prev_hash" (by decide)), get_servedDoc (own "hash" (by decide)),
        subscript_servedDoc (own "seq" (by decide)),
        subscript_servedDoc (own "event_id" (by decide))]
      simp only [others]

end

theorem holdJson_canonical (entries : List (String × Value)) :
    Value.HoldJson (entries.map fun entry => (entry.1, canonical entry.2)) := by
  induction entries with
  | nil => trivial
  | cons entry rest ih => exact ⟨isJson_ofJson _, ih⟩

theorem isJson_optionalDoc (doc : Option Doc) :
    (optionalDoc (doc.map canonicalDoc)).IsJson := by
  cases doc with
  | none => trivial
  | some doc => exact holdJson_canonical doc.entries

theorem areJson_canonicalEntries (entries : List DiffEntry) :
    Value.AreJson ((entries.map canonicalEntry).map DiffEntry.modelDump) := by
  induction entries with
  | nil => trivial
  | cons entry rest ih =>
      exact ⟨⟨trivial, isJson_ofJson _, isJson_ofJson _, trivial⟩, ih⟩

theorem auditable_storageDoc (draft : Draft) : Auditable draft.storageDoc := by
  intro key member
  have diff := areJson_canonicalEntries draft.args.diff
  have before := isJson_optionalDoc draft.args.before
  have after := isJson_optionalDoc draft.args.after
  have correlation : (optionalText draft.args.correlationId).IsJson := by
    cases draft.args.correlationId with
    | none => trivial
    | some _ => trivial
  simp only [hashedFields, List.mem_cons, List.not_mem_nil, or_false] at member
  rcases member with rfl | rfl | rfl | rfl | rfl | rfl | rfl | rfl | rfl | rfl | rfl | rfl |
    rfl | rfl <;> trivial

theorem holdJson_storageDoc (draft : Draft) : Value.HoldJson draft.storageDoc.entries := by
  have correlation : (optionalText draft.args.correlationId).IsJson := by
    cases draft.args.correlationId with
    | none => trivial
    | some _ => trivial
  exact ⟨trivial, trivial, trivial, trivial, trivial, trivial,
    areJson_canonicalEntries draft.args.diff, isJson_optionalDoc draft.args.before,
    isJson_optionalDoc draft.args.after, trivial, trivial, correlation,
    isJson_optionalDoc draft.args.resumeToken, isJson_optionalDoc draft.args.clusterTime,
    trivial, trivial, trivial, trivial, trivial⟩

theorem servedDoc_storageDoc (draft : Draft) : servedDoc draft.storageDoc = draft.storageDoc := by
  have same := throughJsonFields_of_holdJson _ (holdJson_storageDoc draft)
  rw [throughJsonFields_eq_map] at same
  exact PyDict.ext_entries same

end OrderStream

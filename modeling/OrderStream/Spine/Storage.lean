import OrderStream.Spine.Chain

/-! What storage may do to a payload without changing its hash. -/

namespace OrderStream

mutual
def Value.DistinctKeys : Value → Prop
  | .list items => Value.DistinctItems items
  | .tuple items => Value.DistinctItems items
  | .dict fields => (fields.map Prod.fst).Nodup ∧ Value.DistinctFields fields
  | _ => True

def Value.DistinctItems : List Value → Prop
  | [] => True
  | item :: rest => item.DistinctKeys ∧ Value.DistinctItems rest

def Value.DistinctFields : List (String × Value) → Prop
  | [] => True
  | (_, value) :: rest => value.DistinctKeys ∧ Value.DistinctFields rest
end

mutual
/-- Nothing but `str`, `int`, `float`, `bool`, `None`, lists and dictionaries of these. -/
def Value.IsJson : Value → Prop
  | .null | .bool _ | .int _ | .float _ | .str _ => True
  | .list items => Value.AreJson items
  | .dict fields => Value.HoldJson fields
  | .temporal _ | .uuid _ | .bytes _ | .tuple _ | .other _ _ => False

def Value.AreJson : List Value → Prop
  | [] => True
  | item :: rest => item.IsJson ∧ Value.AreJson rest

def Value.HoldJson : List (String × Value) → Prop
  | [] => True
  | (_, value) :: rest => value.IsJson ∧ Value.HoldJson rest
end

mutual
/-- The same value with the keys of its dictionaries in another order, at any depth. -/
inductive Reordered : Value → Value → Prop where
  | same {value : Value} : Reordered value value
  | list {items moved : List Value} : ReorderedItems items moved →
      Reordered (.list items) (.list moved)
  | dict {fields values moved : List (String × Value)} : ReorderedFields fields values →
      values.Perm moved → Reordered (.dict fields) (.dict moved)

inductive ReorderedItems : List Value → List Value → Prop where
  | nil : ReorderedItems [] []
  | cons {item moved : Value} {rest others : List Value} : Reordered item moved →
      ReorderedItems rest others → ReorderedItems (item :: rest) (moved :: others)

inductive ReorderedFields : List (String × Value) → List (String × Value) → Prop where
  | nil : ReorderedFields [] []
  | cons {name : String} {value moved : Value} {rest others : List (String × Value)} :
      Reordered value moved → ReorderedFields rest others →
        ReorderedFields ((name, value) :: rest) ((name, moved) :: others)
end

theorem canonical_canonical (value : Value) : canonical (canonical value) = canonical value :=
  congrArg ofJson (toCanonical_canonical value)

mutual
theorem isJson_ofJson (value : Json) : (ofJson value).IsJson := by
  cases value with
  | arr items => exact areJson_ofJson items
  | obj fields => exact holdJson_ofJson fields
  | _ => trivial

theorem areJson_ofJson (items : List Json) : Value.AreJson (ofJsonItems items) := by
  cases items with
  | nil => trivial
  | cons item rest => exact ⟨isJson_ofJson item, areJson_ofJson rest⟩

theorem holdJson_ofJson (fields : List (String × Json)) :
    Value.HoldJson (ofJsonFields fields) := by
  cases fields with
  | nil => trivial
  | cons field rest =>
      obtain ⟨name, value⟩ := field
      exact ⟨isJson_ofJson value, holdJson_ofJson rest⟩
end

theorem map_fst_canonicalFields (fields : List (String × Value)) :
    (ofJsonFields (toCanonicalFields fields)).map Prod.fst = fields.map Prod.fst := by
  induction fields with
  | nil => rfl
  | cons field rest ih =>
      obtain ⟨name, value⟩ := field
      simp only [toCanonicalFields, ofJsonFields, List.map_cons, ih]

mutual
theorem distinctKeys_canonical (value : Value) (distinct : value.DistinctKeys) :
    (ofJson (toCanonical value)).DistinctKeys := by
  cases value with
  | list items => exact distinctItems_canonical items distinct
  | tuple items => exact distinctItems_canonical items distinct
  | dict fields =>
      refine ⟨?_, distinctFields_canonical fields distinct.2⟩
      rw [map_fst_canonicalFields]
      exact distinct.1
  | _ => trivial

theorem distinctItems_canonical (items : List Value) (distinct : Value.DistinctItems items) :
    Value.DistinctItems (ofJsonItems (toCanonicalItems items)) := by
  cases items with
  | nil => trivial
  | cons item rest =>
      exact ⟨distinctKeys_canonical item distinct.1, distinctItems_canonical rest distinct.2⟩

theorem distinctFields_canonical (fields : List (String × Value))
    (distinct : Value.DistinctFields fields) :
    Value.DistinctFields (ofJsonFields (toCanonicalFields fields)) := by
  cases fields with
  | nil => trivial
  | cons field rest =>
      obtain ⟨name, value⟩ := field
      exact ⟨distinctKeys_canonical value distinct.1, distinctFields_canonical rest distinct.2⟩
end

theorem ReorderedFields.map_fst {fields values : List (String × Value)}
    (reordered : ReorderedFields fields values) :
    values.map Prod.fst = fields.map Prod.fst := by
  induction fields generalizing values with
  | nil =>
      cases reordered
      rfl
  | cons field rest ih =>
      cases reordered with
      | cons _ others => rw [List.map_cons, List.map_cons, ih others]

theorem map_fst_sortFieldKeys (fields : List (String × Value)) :
    (Json.sortFieldKeys (toCanonicalFields fields)).map Prod.fst = fields.map Prod.fst := by
  rw [Json.sortFieldKeys_eq_map, toCanonicalFields_eq_map, List.map_map, List.map_map]
  rfl

theorem sortFieldKeys_perm {values moved : List (String × Value)} (perm : values.Perm moved) :
    (Json.sortFieldKeys (toCanonicalFields values)).Perm
      (Json.sortFieldKeys (toCanonicalFields moved)) := by
  simp only [Json.sortFieldKeys_eq_map, toCanonicalFields_eq_map]
  exact (perm.map _).map _

mutual
theorem Reordered.sameUpToKeyOrder {value moved : Value} (reordered : Reordered value moved)
    (distinct : value.DistinctKeys) :
    (toCanonical value).SameUpToKeyOrder (toCanonical moved) := by
  cases reordered with
  | same => rfl
  | list items =>
      simp only [Json.SameUpToKeyOrder, toCanonical, Json.sortKeys,
        items.sortItemKeys_eq distinct]
  | dict fields perm =>
      simp only [Json.SameUpToKeyOrder, toCanonical, Json.sortKeys,
        fields.sortFieldKeys_eq distinct.2]
      apply congrArg Json.obj
      apply Json.sortFields_perm (sortFieldKeys_perm perm)
      rw [map_fst_sortFieldKeys, fields.map_fst]
      exact distinct.1

theorem ReorderedItems.sortItemKeys_eq {items moved : List Value}
    (reordered : ReorderedItems items moved) (distinct : Value.DistinctItems items) :
    Json.sortItemKeys (toCanonicalItems items) = Json.sortItemKeys (toCanonicalItems moved) := by
  cases reordered with
  | nil => rfl
  | cons first rest =>
      have same := first.sameUpToKeyOrder distinct.1
      simp only [toCanonicalItems, Json.sortItemKeys, rest.sortItemKeys_eq distinct.2]
      rw [same]

theorem ReorderedFields.sortFieldKeys_eq {fields values : List (String × Value)}
    (reordered : ReorderedFields fields values) (distinct : Value.DistinctFields fields) :
    Json.sortFieldKeys (toCanonicalFields fields) =
      Json.sortFieldKeys (toCanonicalFields values) := by
  cases reordered with
  | nil => rfl
  | cons first rest =>
      have same := first.sameUpToKeyOrder distinct.1
      simp only [toCanonicalFields, Json.sortFieldKeys, rest.sortFieldKeys_eq distinct.2]
      rw [same]
end

theorem computeHash_congr (prevHash : String) {left right : List (String × Value)}
    (same : (toCanonical (.dict left)).SameUpToKeyOrder (toCanonical (.dict right))) :
    computeHash prevHash left = computeHash prevHash right :=
  congrArg Sha256.hexdigest (hashInput_congr prevHash same)

theorem computeHash_of_reordered (prevHash : String) {payload stored : List (String × Value)}
    (distinct : (Value.dict payload).DistinctKeys)
    (reordered : Reordered (canonical (.dict payload)) (.dict stored)) :
    computeHash prevHash payload = computeHash prevHash stored := by
  apply computeHash_congr
  have same := reordered.sameUpToKeyOrder (distinctKeys_canonical _ distinct)
  rwa [toCanonical_canonical] at same

theorem reorderedFields_map {first second : String → Value} (keys : List String)
    (reordered : ∀ key ∈ keys, Reordered (first key) (second key)) :
    ReorderedFields (keys.map fun key => (key, first key))
      (keys.map fun key => (key, second key)) := by
  induction keys with
  | nil => exact .nil
  | cons key rest ih =>
      exact .cons (reordered key List.mem_cons_self)
        (ih fun other member => reordered other (List.mem_cons_of_mem _ member))

/-- What is read back hashes to what `append` hashed, whatever stands in the fields that
are not hashed. -/
theorem Draft.computeHash_stored (draft : Draft)
    (distinct : (Value.dict draft.payloadForHash).DistinctKeys) {stored : Doc}
    (reordered : ∀ key ∈ hashedFields,
      Reordered (draft.storageDoc.get key) (stored.get key)) :
    computeHash draft.prevHash (hashPayloadFromDoc stored) = draft.hash := by
  have fields := reorderedFields_map hashedFields reordered
  rw [show (hashedFields.map fun key => (key, draft.storageDoc.get key)) =
    draft.payloadForHash from draft.hashPayloadFromDoc_storageDoc] at fields
  have moved : Reordered (.dict draft.payloadForHash) (.dict (hashPayloadFromDoc stored)) :=
    .dict fields (.refl _)
  exact (computeHash_congr draft.prevHash (moved.sameUpToKeyOrder distinct)).symm

/-- `_to_canonical` yields JSON and changes nothing more when it runs again; its keys may
be stored in any order, and beside other fields, without changing the hash. -/
theorem hash_stable_across_storage :
    (∀ value, canonical (canonical value) = canonical value ∧ (canonical value).IsJson) ∧
    (∀ prevHash payload, (Value.dict payload).DistinctKeys →
      ∀ stored, Reordered (canonical (.dict payload)) (.dict stored) →
        computeHash prevHash payload = computeHash prevHash stored) ∧
    ∀ draft : Draft, (Value.dict draft.payloadForHash).DistinctKeys →
      ∀ stored : Doc,
        (∀ key ∈ hashedFields, Reordered (draft.storageDoc.get key) (stored.get key)) →
          computeHash draft.prevHash (hashPayloadFromDoc stored) = draft.hash := by
  refine ⟨?_, ?_, ?_⟩
  · intro value
    exact ⟨canonical_canonical value, isJson_ofJson _⟩
  · intro prevHash payload distinct stored reordered
    exact computeHash_of_reordered prevHash distinct reordered
  · intro draft distinct stored reordered
    exact draft.computeHash_stored distinct reordered

def nestedPayload : List (String × Value) :=
  [("seq", .int 1), ("after", .dict [("tags", .tuple [.temporal sampleTime]), ("a", .null)])]

theorem hash_stable_of_nestedPayload :
    computeHash auditGenesisHash nestedPayload =
      computeHash auditGenesisHash
        [("after", .dict [("a", .null),
            ("tags", .list [.str sampleTime.isoformat])]), ("seq", .int 1)] := by
  obtain ⟨-, stable, -⟩ := hash_stable_across_storage
  have distinct : (Value.dict nestedPayload).DistinctKeys := by
    simp [nestedPayload, Value.DistinctKeys, Value.DistinctFields, Value.DistinctItems]
  have after : Reordered
      (.dict [("tags", .list [.str sampleTime.isoformat]), ("a", .null)])
      (.dict [("a", .null), ("tags", .list [.str sampleTime.isoformat])]) :=
    .dict (.cons .same (.cons .same .nil)) (.swap _ _ _)
  exact stable auditGenesisHash nestedPayload distinct _
    (.dict (.cons .same (.cons after .nil)) (.swap _ _ _))

end OrderStream

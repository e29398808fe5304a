import DbosTransact.Serialize.Tokens
import DbosTransact.Serialize.Values

/-!
# Plain JSON under the SuperJSON reader

A plain JSON row may be read as `js_superjson` or without a format. Both readers look for the marker
of a SuperJSON envelope anywhere in the text before they parse it, and what they find decides how
the parsed value is read: with the marker it is taken apart as an envelope, without it it is kept,
legacy wrappers apart.

`plain_json_iff` says for which values that goes wrong: exactly for those with a field, at any
depth, whose text is the marker. Nothing inside a string is (quotes are escaped there), but a key
that only ends in the key of the marker, after a quote of its own, is enough. That such a value is
never read back by accident is a matter of size: what an envelope carries is a proper part of it,
and annotations make nothing bigger (`nodes_applySuperjsonMeta`).
-/

namespace Dbos

/-- The library writes the compact text, with numbers of digits, signs, a point and an exponent. -/
structure SerdeJson.Compact [SerdeJson] (num : JsonNumber → List Char) : Prop where
  number : ∀ n, ∀ c ∈ num n, c ∈ "0123456789+-.eE".toList
  text : ∀ v, (toString v).toList = JsonText.tokenText (JsonText.tokens num v)

/-- The key, written out, ends in the key of the marker. -/
def MarkerKey (k : String) : Prop := '"' :: "__dbos_serializer".toList <:+ '"' :: k.toList

instance (k : String) : Decidable (MarkerKey k) := inferInstanceAs (Decidable (_ <:+ _))

namespace Json

/-- Some field in the tree has the marker as its text. -/
def Marked (v : Json) : Prop := ∃ e ∈ v.textFields, MarkerKey e.1 ∧ e.2 = "superjson"

instance (v : Json) : Decidable v.Marked := inferInstanceAs (Decidable (∃ e ∈ _, _))

mutual

/-- The keys of all objects in a tree. -/
def keys : Json → List String
  | array items => itemKeys items
  | object fields => fieldKeys fields
  | _ => []

def itemKeys : List Json → List String
  | [] => []
  | v :: rest => keys v ++ itemKeys rest

def fieldKeys : List (String × Json) → List String
  | [] => []
  | (k, v) :: rest => k :: (keys v ++ fieldKeys rest)

end

mutual

/-- The number of nodes of a tree. -/
def nodes : Json → ℕ
  | array items => itemNodes items + 1
  | object fields => fieldNodes fields + 1
  | _ => 1

def itemNodes : List Json → ℕ
  | [] => 0
  | v :: rest => nodes v + itemNodes rest

def fieldNodes : List (String × Json) → ℕ
  | [] => 0
  | (_, v) :: rest => nodes v + fieldNodes rest

end

theorem nodes_pos (v : Json) : 0 < v.nodes := by
  cases v <;> simp [nodes]

theorem findField_eq_none {k : String} {fields : List (String × Json)}
    (h : k ∉ fieldKeys fields) : findField k fields = none := by
  induction fields with
  | nil => rfl
  | cons f rest ih =>
    simp only [fieldKeys, List.mem_cons, List.mem_append, not_or] at h
    have hrest := ih h.2.2
    simp only [findField, Option.map_eq_none_iff] at hrest ⊢
    rw [List.find?_cons_of_neg (by simpa using Ne.symm h.1), hrest]

theorem nodes_le_of_findField {k : String} {v : Json} {fields : List (String × Json)}
    (h : findField k fields = some v) : v.nodes ≤ fieldNodes fields := by
  induction fields with
  | nil => cases h
  | cons f rest ih =>
    rw [fieldNodes]
    by_cases hk : f.1 = k
    · obtain rfl : f.2 = v := by simpa [findField, hk] using h
      omega
    · have hrest : findField k rest = some v := by simpa [findField, hk] using h
      have := ih hrest
      omega

end Json

/-! ### Annotations make nothing bigger -/

section

variable {f : Json → Json} (hf : ∀ v, (f v).nodes ≤ v.nodes)
include hf

theorem fieldNodes_modify (key : String) (fields : List (String × Json)) :
    Json.fieldNodes (fields.map fun e ↦ if e.1 = key then (e.1, f e.2) else e) ≤
      Json.fieldNodes fields := by
  induction fields with
  | nil => exact le_rfl
  | cons e rest ih =>
    have he := hf e.2
    rw [List.map_cons]
    split
    · simp only [Json.fieldNodes]
      omega
    · simp only [Json.fieldNodes]
      omega

theorem itemNodes_modify (i : ℕ) (items : List Json) :
    Json.itemNodes (items.modify i f) ≤ Json.itemNodes items := by
  induction items generalizing i with
  | nil => simp
  | cons v rest ih =>
    have hv := hf v
    cases i with
    | zero =>
      rw [List.modify_zero_cons]
      simp only [Json.itemNodes]
      omega
    | succ i =>
      have hrest := ih i
      rw [List.modify_succ_cons]
      simp only [Json.itemNodes]
      omega

theorem nodes_modifyAt (key : String) (v : Json) : (modifyAt key f v).nodes ≤ v.nodes := by
  unfold modifyAt
  split
  · have h := fieldNodes_modify hf key ‹_›
    simp only [Json.nodes]
    omega
  · split
    · have h := itemNodes_modify hf ‹_› ‹_›
      simp only [Json.nodes]
      omega
    · exact le_rfl
  · exact le_rfl

end

theorem fieldNodes_insertField (k : String) (v : Json) (fields : List (String × Json)) :
    Json.fieldNodes (Json.insertField k v fields) ≤ v.nodes + Json.fieldNodes fields := by
  induction fields with
  | nil => simp [Json.insertField, Json.fieldNodes]
  | cons e rest ih =>
    rw [Json.insertField]
    repeat' split
    all_goals
      simp only [Json.fieldNodes]
      omega

section

variable [SerdeJson]

theorem fieldNodes_mapOfPairs {pairs : List Json} {acc fields : List (String × Json)}
    (h : mapOfPairs pairs acc = some fields) :
    Json.fieldNodes fields ≤ Json.fieldNodes acc + Json.itemNodes pairs := by
  induction pairs, acc using mapOfPairs.induct with
  | case1 acc =>
    obtain rfl : acc = fields := by simpa [mapOfPairs] using h
    omega
  | case2 k v rest acc ih =>
    have hrest := ih h
    have hinsert := fieldNodes_insertField k v acc
    simp only [Json.itemNodes, Json.nodes]
    omega
  | case3 k v rest acc hk ih =>
    rw [mapOfPairs] at h
    · have hrest := ih h
      have hinsert := fieldNodes_insertField (SerdeJson.toString k) v acc
      simp only [Json.itemNodes, Json.nodes]
      omega
    · exact hk
  | case4 pair rest acc h₁ h₂ =>
    rw [mapOfPairs] at h
    · cases h
    · exact h₁
    · exact h₂

omit [SerdeJson] in
theorem number_of_bigIntNumber {s : String} {v : Json} (h : bigIntNumber s = some v) :
    ∃ n, v = .number n := by
  unfold bigIntNumber at h
  split at h
  · exact ⟨_, (Option.some.inj h).symm⟩
  · obtain ⟨n, -, rfl⟩ := Option.map_eq_some_iff.1 h
    exact ⟨_, rfl⟩

theorem nodes_applySuperjsonTag (json : Json) (tag : String) :
    (applySuperjsonTag json tag).nodes ≤ json.nodes := by
  unfold applySuperjsonTag
  split
  · rename_i s
    cases hnumber : bigIntNumber s with
    | none => exact le_rfl
    | some v =>
      obtain ⟨n, rfl⟩ := number_of_bigIntNumber hnumber
      exact le_rfl
  · rename_i pairs
    cases hmap : mapOfPairs pairs [] with
    | none => exact le_rfl
    | some fields =>
      have hle := fieldNodes_mapOfPairs hmap
      simp only [Option.map_some, Option.getD_some, Json.nodes, Json.fieldNodes] at hle ⊢
      omega
  · exact le_rfl

mutual

/-- Annotations make nothing bigger. -/
theorem nodes_applySuperjsonMeta (note json : Json) :
    (applySuperjsonMeta note json).nodes ≤ json.nodes := by
  match note with
  | .string tag =>
    rw [applySuperjsonMeta]
    exact nodes_applySuperjsonTag json tag
  | .array parts =>
    rw [applySuperjsonMeta]
    exact nodes_applySuperjsonCompound parts json
  | .object children =>
    rw [applySuperjsonMeta]
    exact nodes_applySuperjsonChildren children json
  | .null | .bool _ | .number _ => exact le_rfl

theorem nodes_applySuperjsonCompound (parts : List Json) (json : Json) :
    (applySuperjsonCompound parts json).nodes ≤ json.nodes := by
  match parts with
  | [.string tag] =>
    rw [applySuperjsonCompound]
    exact nodes_applySuperjsonTag json tag
  | .string tag :: sub :: rest =>
    rw [applySuperjsonCompound]
    exact (nodes_applySuperjsonTag _ tag).trans (nodes_applySuperjsonMeta sub json)
  | [] | .null :: _ | .bool _ :: _ | .number _ :: _ | .array _ :: _ | .object _ :: _ =>
    exact le_rfl

theorem nodes_applySuperjsonChildren (children : List (String × Json)) (json : Json) :
    (applySuperjsonChildren children json).nodes ≤ json.nodes := by
  match children with
  | [] => exact le_rfl
  | (key, child) :: rest =>
    rw [applySuperjsonChildren]
    exact (nodes_applySuperjsonChildren rest _).trans
      (nodes_modifyAt (nodes_applySuperjsonMeta child) key json)

end

end

/-! ### Legacy wrappers -/

/-- What an object stands for that is a legacy wrapper. -/
def legacyContent (fields : List (String × Json)) : Option Json :=
  match Json.findField "dbos_type" fields, Json.findField "dbos_data" fields with
  | some (.string "dbos_Date"), some data => some data
  | some (.string "dbos_BigInt"), some (.string s) => bigIntNumber s
  | _, _ => none

theorem applyLegacyRevival_object (fields : List (String × Json)) :
    applyLegacyRevival (.object fields) =
      (legacyContent fields).getD (.object (applyLegacyRevivalFields fields)) := by
  rw [applyLegacyRevival]
  split
  · rename_i data htype hdata
    rw [legacyContent, htype, hdata]
    rfl
  · rename_i s htype hdata
    rw [legacyContent, htype, hdata]
    show _ = (bigIntNumber s).getD _
    cases bigIntNumber s <;> rfl
  · rename_i hdate hbigint
    have hnone : legacyContent fields = none := by
      unfold legacyContent
      split
      · rename_i data htype hdata
        exact (hdate data htype hdata).elim
      · rename_i s htype hdata
        exact (hbigint s htype hdata).elim
      · rfl
    rw [hnone]
    rfl

theorem nodes_legacyContent {fields : List (String × Json)} {v : Json}
    (h : legacyContent fields = some v) : v.nodes ≤ Json.fieldNodes fields := by
  unfold legacyContent at h
  split at h
  · cases h
    exact Json.nodes_le_of_findField (by assumption)
  · obtain ⟨n, rfl⟩ := number_of_bigIntNumber h
    rename_i s _ hdata
    exact (show 1 ≤ (Json.string s).nodes from le_rfl).trans (Json.nodes_le_of_findField hdata)
  · cases h

namespace Json

mutual

/-- Some object in the tree is a legacy wrapper. -/
def wrapped : Json → Bool
  | array items => itemsWrapped items
  | object fields => (legacyContent fields).isSome || fieldsWrapped fields
  | _ => false

def itemsWrapped : List Json → Bool
  | [] => false
  | v :: rest => wrapped v || itemsWrapped rest

def fieldsWrapped : List (String × Json) → Bool
  | [] => false
  | (_, v) :: rest => wrapped v || fieldsWrapped rest

end

end Json

mutual

/-- A value without wrappers is left alone. -/
theorem applyLegacyRevival_eq (v : Json) (h : v.wrapped = false) : applyLegacyRevival v = v := by
  match v with
  | .null | .bool _ | .number _ | .string _ => rfl
  | .array items =>
    rw [applyLegacyRevival, applyLegacyRevivalItems_eq items h]
  | .object fields =>
    rw [Json.wrapped, Bool.or_eq_false_iff, Option.isSome_eq_false_iff,
      Option.isNone_iff_eq_none] at h
    rw [applyLegacyRevival_object, h.1, applyLegacyRevivalFields_eq fields h.2]
    rfl

theorem applyLegacyRevivalItems_eq (items : List Json) (h : Json.itemsWrapped items = false) :
    applyLegacyRevivalItems items = items := by
  match items with
  | [] => rfl
  | v :: rest =>
    rw [Json.itemsWrapped, Bool.or_eq_false_iff] at h
    rw [applyLegacyRevivalItems, applyLegacyRevival_eq v h.1, applyLegacyRevivalItems_eq rest h.2]

theorem applyLegacyRevivalFields_eq (fields : List (String × Json))
    (h : Json.fieldsWrapped fields = false) : applyLegacyRevivalFields fields = fields := by
  match fields with
  | [] => rfl
  | (k, v) :: rest =>
    rw [Json.fieldsWrapped, Bool.or_eq_false_iff] at h
    rw [applyLegacyRevivalFields, applyLegacyRevival_eq v h.1,
      applyLegacyRevivalFields_eq rest h.2]

end

theorem toNat_or_le : ∀ a b : Bool, (a || b).toNat ≤ a.toNat + b.toNat := by
  decide

mutual

/-- Revival takes a node away wherever there is a wrapper. -/
theorem nodes_applyLegacyRevival (v : Json) :
    (applyLegacyRevival v).nodes + v.wrapped.toNat ≤ v.nodes := by
  match v with
  | .null | .bool _ | .number _ | .string _ => exact le_rfl
  | .array items =>
    have hitems := nodes_applyLegacyRevivalItems items
    rw [applyLegacyRevival, Json.nodes, Json.nodes, Json.wrapped]
    omega
  | .object fields =>
    have hfields := nodes_applyLegacyRevivalFields fields
    rw [applyLegacyRevival_object, Json.wrapped, Json.nodes]
    cases hcontent : legacyContent fields with
    | some content =>
      have hnodes := nodes_legacyContent hcontent
      simpa using hnodes
    | none =>
      rw [Option.getD_none, Json.nodes, Option.isSome_none, Bool.false_or]
      omega

theorem nodes_applyLegacyRevivalItems (items : List Json) :
    Json.itemNodes (applyLegacyRevivalItems items) + (Json.itemsWrapped items).toNat ≤
      Json.itemNodes items := by
  match items with
  | [] => exact le_rfl
  | v :: rest =>
    have hv := nodes_applyLegacyRevival v
    have hrest := nodes_applyLegacyRevivalItems rest
    have hor := toNat_or_le v.wrapped (Json.itemsWrapped rest)
    rw [applyLegacyRevivalItems, Json.itemNodes, Json.itemNodes, Json.itemsWrapped]
    omega

theorem nodes_applyLegacyRevivalFields (fields : List (String × Json)) :
    Json.fieldNodes (applyLegacyRevivalFields fields) + (Json.fieldsWrapped fields).toNat ≤
      Json.fieldNodes fields := by
  match fields with
  | [] => exact le_rfl
  | (k, v) :: rest =>
    have hv := nodes_applyLegacyRevival v
    have hrest := nodes_applyLegacyRevivalFields rest
    have hor := toNat_or_le v.wrapped (Json.fieldsWrapped rest)
    rw [applyLegacyRevivalFields, Json.fieldNodes, Json.fieldNodes, Json.fieldsWrapped]
    omega

end

/-- Exactly the values without wrappers are left alone. -/
theorem applyLegacyRevival_eq_iff {v : Json} : applyLegacyRevival v = v ↔ v.wrapped = false := by
  refine ⟨fun h ↦ Bool.eq_false_iff.2 fun hwrapped ↦ ?_, applyLegacyRevival_eq v⟩
  have hnodes := nodes_applyLegacyRevival v
  rw [h, hwrapped] at hnodes
  exact absurd hnodes (by simp)

mutual

theorem wrapped_of_keys (v : Json) (h : "dbos_type" ∉ v.keys) : v.wrapped = false := by
  match v with
  | .null | .bool _ | .number _ | .string _ => rfl
  | .array items => exact itemsWrapped_of_keys items h
  | .object fields =>
    rw [Json.wrapped, legacyContent, Json.findField_eq_none h, fieldsWrapped_of_keys fields h]
    rfl

theorem itemsWrapped_of_keys (items : List Json) (h : "dbos_type" ∉ Json.itemKeys items) :
    Json.itemsWrapped items = false := by
  match items with
  | [] => rfl
  | v :: rest =>
    simp only [Json.itemKeys, List.mem_append, not_or] at h
    rw [Json.itemsWrapped, wrapped_of_keys v h.1, itemsWrapped_of_keys rest h.2]
    rfl

theorem fieldsWrapped_of_keys (fields : List (String × Json))
    (h : "dbos_type" ∉ Json.fieldKeys fields) : Json.fieldsWrapped fields = false := by
  match fields with
  | [] => rfl
  | (k, v) :: rest =>
    simp only [Json.fieldKeys, List.mem_cons, List.mem_append, not_or] at h
    rw [Json.fieldsWrapped, wrapped_of_keys v h.2.1, fieldsWrapped_of_keys rest h.2.2]
    rfl

end

/-! ### The marker -/

section

variable [SerdeJson] {num : JsonNumber → List Char}

open JsonText in
/-- **Where the marker is.** The text of a value contains it exactly when a field of the value is
written as the marker. -/
theorem marker_infix_iff (hlib : SerdeJson.Compact num) (v : Json) :
    superjsonMarker.toList <:+: (SerdeJson.toString v).toList ↔ v.Marked := by
  have hkey : IsWord "__dbos_serializer".toList :=
    ⟨"__dbos_serialize".toList, 'r', by decide, by decide, by decide⟩
  have hval : IsWord "superjson".toList := ⟨"superjso".toList, 'n', by decide, by decide, by decide⟩
  have hnum : ∀ n, ∀ c ∈ num n, c ≠ '"' ∧ c ≠ '_' := by
    intro n c hc
    have hall : ∀ c ∈ "0123456789+-.eE".toList, c ≠ '"' ∧ c ≠ '_' := by simp
    exact hall c (hlib.number n c hc)
  have hplain : PlainFor "__dbos_serializer".toList (tokens num v) :=
    plainFor_tokens num (by decide) hnum v
  have hmarker : superjsonMarker.toList =
      fieldText "__dbos_serializer".toList "superjson".toList := by decide
  have hkeyed : keyed (tokens num v) = v.textFields := by
    have hnil : NoColon ([] : List Token) := by rintro t ⟨⟩
    simpa [keyed] using keyed_tokens num v hnil
  rw [hmarker, hlib.text, fieldText_infix_iff hkey hval hplain, hkeyed, Json.Marked]
  refine exists_congr fun e ↦ and_congr_right fun _ ↦ ?_
  rw [quote_suffix_escape_iff (by rfl), escape_eq_iff (by rfl), String.ofList_toList, MarkerKey]

/-- Without the marker the value is taken as it is, wrappers apart. -/
theorem decodeSuperjson_of_not_marked (hlib : SerdeJson.Compact num) {v : Json} (hv : v.IsValue)
    (hprint : SerdeJson.PrintsBack v) (hmarked : ¬v.Marked) :
    decodeSuperjson (SerdeJson.toString v) = .ok (applyLegacyRevival v) := by
  rw [decodeSuperjson, hprint.parseValue hv]
  dsimp only
  rw [if_neg (mt (marker_infix_iff hlib v).1 hmarked)]

/-- A marked value is not read as itself: what the envelope carries is a proper part of it. -/
theorem decodeSuperjson_ne_of_marked (hlib : SerdeJson.Compact num) {v : Json} (hv : v.IsValue)
    (hprint : SerdeJson.PrintsBack v) (hmarked : v.Marked) :
    decodeSuperjson (SerdeJson.toString v) ≠ .ok v := by
  rw [decodeSuperjson, hprint.parseValue hv]
  dsimp only
  rw [if_pos ((marker_infix_iff hlib v).2 hmarked)]
  cases v with
  | object fields =>
    have hjson :
        ((Json.findField "json" fields).getD .null).nodes < (Json.object fields).nodes := by
      cases hfind : Json.findField "json" fields with
      | some json =>
        have hle := Json.nodes_le_of_findField hfind
        simp only [Option.getD_some, Json.nodes]
        omega
      | none =>
        obtain ⟨e, he, -⟩ := hmarked
        rcases fields with _ | ⟨⟨k, u⟩, rest⟩
        · cases he
        · have hpos := u.nodes_pos
          simp only [Option.getD_none, Json.nodes, Json.fieldNodes]
          omega
    dsimp only
    split
    · rename_i values hvalues
      intro heq
      have hle := nodes_applySuperjsonMeta values ((Json.findField "json" fields).getD .null)
      rw [Except.ok.inj heq] at hle
      omega
    · intro heq
      rw [Except.ok.inj heq] at hjson
      omega
  | _ => rintro ⟨⟩

/-- A value is read as itself exactly when none of its fields is the marker and none of its objects
a wrapper. -/
theorem decodeSuperjson_eq_iff (hlib : SerdeJson.Compact num) {v : Json} (hv : v.IsValue)
    (hprint : SerdeJson.PrintsBack v) :
    decodeSuperjson (SerdeJson.toString v) = .ok v ↔ ¬v.Marked ∧ v.wrapped = false := by
  by_cases hmarked : v.Marked
  · exact iff_of_false (decodeSuperjson_ne_of_marked hlib hv hprint hmarked) fun h ↦ h.1 hmarked
  · rw [decodeSuperjson_of_not_marked hlib hv hprint hmarked, Except.ok.injEq,
      applyLegacyRevival_eq_iff, and_iff_right hmarked]

/-- **Which plain JSON is read unchanged.** A value without `dbos_type` keys is read back from its
compact text, under `js_superjson` and without a format, exactly when none of its fields is written
as the marker of an envelope. -/
theorem plain_json_iff (hlib : SerdeJson.Compact num) (v : Json) (hv : v.IsValue)
    (hprint : SerdeJson.PrintsBack v) (hwrapper : "dbos_type" ∉ v.keys) :
    (decodeToJson (some (SerdeJson.toString v)) (some superjsonName) = .ok v ∧
      decodeToJson (some (SerdeJson.toString v)) none = .ok v) ↔ ¬v.Marked := by
  rw [decodeToJson_superjson]
  constructor
  · rintro ⟨hread, -⟩ hmarked
    exact decodeSuperjson_ne_of_marked hlib hv hprint hmarked hread
  · intro hmarked
    have hread : decodeSuperjson (SerdeJson.toString v) = .ok v := by
      rw [decodeSuperjson_of_not_marked hlib hv hprint hmarked,
        applyLegacyRevival_eq v (wrapped_of_keys v hwrapper)]
    refine ⟨hread, ?_⟩
    have hnil : SerdeJson.toString v ≠ nilMarker := by
      intro h
      exact SerdeJson.head_toString v (by rw [h]; rfl)
    rw [decodeToJson]
    by_cases hnull : SerdeJson.toString v = "null"
    · rw [if_pos (Or.inl hnull), eq_null_of_toString (hprint.parseValue hv) hnull]
    · rw [if_neg (by rintro (h | h); exacts [hnull h, hnil h]), hread]

end

theorem JsonText.compact_jsonText :
    @SerdeJson.Compact JsonText.jsonText JsonText.printNumber := by
  refine @SerdeJson.Compact.mk JsonText.jsonText _ mem_of_mem_printNumber fun v ↦ ?_
  exact String.toList_ofList.trans (print_eq_tokenText v)

/-- A value that speaks of the marker in its strings, without a field that is written as it. -/
def talksOfMarker : Json :=
  .object [("a", .string "\"__dbos_serializer\":\"superjson\""),
    ("superjson", .string "__dbos_serializer")]

/-- It is read unchanged. -/
theorem plain_json_iff_talksOfMarker :
    @decodeToJson JsonText.jsonText (some (JsonText.toText talksOfMarker)) none =
      .ok talksOfMarker := by
  let plainJson : SerdeJson := JsonText.jsonText
  refine ((plain_json_iff JsonText.compact_jsonText talksOfMarker rfl
    (SerdeJson.fromStr_toString _ (by decide)) (by decide)).2 ?_).2
  decide

/-- A value with the marker as a field of an inner object. -/
def innerMarker : Json := .object [("a", .object [("__dbos_serializer", .string "superjson")])]

/-- It is taken for an envelope without a payload. -/
theorem plain_json_lost :
    "dbos_type" ∉ innerMarker.keys ∧ innerMarker.get "__dbos_serializer" = none ∧
      @decodeToJson JsonText.jsonText (some (JsonText.toText innerMarker)) (some superjsonName) =
        .ok .null ∧
      @decodeToJson JsonText.jsonText (some (JsonText.toText innerMarker)) none = .ok .null := by
  have hread : ∀ format ∈ [some superjsonName, none], @decodeToJson JsonText.jsonText
      (some (JsonText.toText innerMarker)) format = .ok .null := by
    have hnull : ∀ format ∈ [some superjsonName, none], (@decodeToJson JsonText.jsonText
        (some (JsonText.toText innerMarker)) format).toOption.any Json.isNull = true := by
      decide +kernel
    intro format hformat
    obtain ⟨v, hv, hv'⟩ := toOption_any (hnull format hformat)
    rw [hv, Json.eq_null_of_isNull hv']
  exact ⟨by decide, rfl, hread _ (by simp), hread _ (by simp)⟩

end Dbos

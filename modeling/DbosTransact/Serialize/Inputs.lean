import DbosTransact.Serialize.PlainJson

/-!
# Inputs under two formats

A task knows two formats, while the column of its row has more: the input of a row of another SDK is
read as a portable envelope, whatever it was written as. Here is when that gives the same argument.

`inputTree_portable_iff` decides it on the stored text. A portable envelope is an object, or, as for
every struct with a derived `Deserialize`, an array of its fields. An array is never read the same
way unless it is empty: its first element is the argument of one reader and an argument list for the
other, and no tree is the first element of itself (`ne_array_revival`). The base64 text of a
document is no document (`Canonical.of_base64`). What is left are objects that say the same thing
twice, in `positionalArgs` and as a payload.
-/

namespace Dbos

/-- The first of an array of arguments; anything else is the argument itself. -/
def firstArgument : Json → Json
  | .array items => items.head?.getD .null
  | other => other

/-- The formats this crate writes. -/
def Writable (format : Option String) : Prop :=
  format = some portableName ∨ format = some dbosJsonName

/-! ### Envelopes -/

/-- The object is a portable envelope with the first positional argument `a`: neither field is there
twice, and each is of its type where it is there. -/
structure EnvelopeArgument (fields : List (String × Json)) (a : Json) : Prop where
  unique : ∀ name ∈ ["positionalArgs", "namedArgs"], (fields.filter fun f ↦ f.1 = name).length ≤ 1
  positional : ∃ items, (Json.findField "positionalArgs" fields).getD (.array []) = .array items ∧
    a = (items.head?.getD .null).norm
  named : ∃ named, (Json.findField "namedArgs" fields).getD (.object []) = .object named

theorem positionalArg_object {fields : List (String × Json)} {a : Json} :
    positionalArg (.object fields) = .ok a ↔ EnvelopeArgument fields a := by
  rw [positionalArg, Json.structFields]
  by_cases hunique : ∀ name ∈ ["positionalArgs", "namedArgs"],
      (fields.filter fun f ↦ f.1 = name).length ≤ 1
  · rw [if_pos (by simpa using hunique)]
    simp only [List.map_cons, List.map_nil]
    constructor
    · intro h
      split at h
      · rename_i items named hitems hnamed
        exact ⟨hunique, ⟨items, hitems, (Except.ok.inj h).symm⟩, named, hnamed⟩
      · cases h
    · rintro ⟨-, ⟨items, hitems, rfl⟩, named, hnamed⟩
      rw [hitems, hnamed]
  · rw [if_neg (by simpa using hunique)]
    exact iff_of_false (by rintro ⟨⟩) fun h ↦ hunique h.unique

/-- The first argument of an envelope that is an array. -/
theorem positionalArg_array {items : List Json} {a : Json}
    (h : positionalArg (.array items) = .ok a) :
    items = [] ∧ a = .null ∨
      ∃ args rest, items = .array args :: rest ∧ a = (args.head?.getD .null).norm := by
  rw [positionalArg, Json.structFields] at h
  split at h
  · rename_i positionalArgs namedArgs hfields
    split at hfields
    · have hfields := Option.some.inj hfields
      simp only [List.length_cons, List.length_nil, List.range_succ, List.range_zero,
        List.nil_append, List.cons_append, List.map_cons, List.map_nil, List.cons.injEq] at hfields
      rw [← hfields.1] at h
      rcases items with _ | ⟨v, rest⟩
      · refine Or.inl ⟨rfl, ?_⟩
        split at h
        · rename_i args _ hargs _
          cases hargs
          exact (Except.ok.inj h).symm
        · cases h
      · refine Or.inr ?_
        split at h
        · rename_i args _ hargs _
          exact ⟨args, rest, congrArg (· :: rest) hargs, (Except.ok.inj h).symm⟩
        · cases h
    · cases hfields
  · cases h

/-! ### No tree is inside itself -/

/-- No array has itself, revived, as its first element. -/
theorem ne_array_revival (y : Json) : ∀ rest, y ≠ .array (applyLegacyRevival y :: rest) := by
  induction hn : y.nodes using Nat.strong_induction_on generalizing y with
  | _ n ih =>
    intro rest hy
    have hlt : (applyLegacyRevival y).nodes < n := by
      have hnodes := congrArg Json.nodes hy
      rw [Json.nodes, Json.itemNodes] at hnodes
      omega
    refine ih _ hlt (applyLegacyRevival y) rfl (applyLegacyRevivalItems rest) ?_
    conv_lhs => rw [hy]
    rw [applyLegacyRevival, applyLegacyRevivalItems]

/-- Nor as the first element of its first element. -/
theorem ne_array_array_revival (y : Json) :
    ∀ rest rest', y ≠ .array (.array (applyLegacyRevival y :: rest) :: rest') := by
  induction hn : y.nodes using Nat.strong_induction_on generalizing y with
  | _ n ih =>
    intro rest rest' hy
    have hlt : (applyLegacyRevival y).nodes < n := by
      have hnodes := congrArg Json.nodes hy
      rw [Json.nodes, Json.itemNodes, Json.nodes, Json.itemNodes] at hnodes
      omega
    refine ih _ hlt (applyLegacyRevival y) rfl (applyLegacyRevivalItems rest)
      (applyLegacyRevivalItems rest') ?_
    conv_lhs => rw [hy]
    rw [applyLegacyRevival, applyLegacyRevivalItems, applyLegacyRevival, applyLegacyRevivalItems]

/-- The first argument of an array, read as an envelope, is not what the array is revived to. -/
theorem not_positionalArg_array {items : List Json} :
    positionalArg (.array items) ≠
      .ok (.array (applyLegacyRevivalItems (Json.normItems items))) := by
  intro h
  rcases positionalArg_array h with ⟨-, hnull⟩ | ⟨args, rest, rfl, harg⟩
  · cases hnull
  rcases args with _ | ⟨x, args⟩
  · cases harg
  · rw [Json.normItems, applyLegacyRevivalItems, Json.norm, applyLegacyRevival, Json.normItems,
      applyLegacyRevivalItems] at harg
    exact ne_array_array_revival x.norm _ _ harg.symm

/-- Nor is it what its first element is revived to, unless there is none. -/
theorem positionalArg_array_first_iff {items : List Json} :
    positionalArg (.array items) =
        .ok (firstArgument (.array (applyLegacyRevivalItems (Json.normItems items)))) ↔
      items = [] := by
  constructor
  · intro h
    rcases positionalArg_array h with ⟨hnil, -⟩ | ⟨args, rest, rfl, harg⟩
    · exact hnil
    rw [Json.normItems, applyLegacyRevivalItems, Json.norm, applyLegacyRevival] at harg
    rcases args with _ | ⟨x, args⟩
    · cases harg
    · rw [Json.normItems, applyLegacyRevivalItems] at harg
      exact absurd harg.symm (ne_array_revival x.norm _)
  · rintro rfl
    rfl

section

variable [SerdeJson]

/-! ### Texts by what they parse to -/

/-- What an object carries for the reader of `js_superjson`: with the marker in its text the field
`json`, annotated as `meta` says, without it the object, its legacy wrappers revived. -/
def payloadOf (s : String) (fields : List (String × Json)) : Json :=
  if superjsonMarker.toList <:+: s.toList then
    let json := (Json.findField "json" (Json.normFields fields [])).getD .null
    match (Json.findField "meta" (Json.normFields fields [])).bind (Json.get "values") with
    | some values => applySuperjsonMeta values json
    | none => json
  else
    (legacyContent (Json.normFields fields [])).getD
      (.object (applyLegacyRevivalFields (Json.normFields fields [])))

variable {s : String} {v : Json}

theorem decodeSuperjson_object {fields : List (String × Json)}
    (hs : SerdeJson.fromStr s = .ok (.object fields)) :
    decodeSuperjson s = .ok (payloadOf s fields) := by
  rw [decodeSuperjson, SerdeJson.parseValue, hs, payloadOf]
  dsimp only
  rw [Json.norm]
  split
  · dsimp only
    cases (Json.findField "meta" (Json.normFields fields [])).bind (Json.get "values") <;> rfl
  · rw [applyLegacyRevival_object]

/-- An array is read with its legacy wrappers revived, if it is read at all. -/
theorem decodeSuperjson_array {items : List Json} (hs : SerdeJson.fromStr s = .ok (.array items))
    (h : decodeSuperjson s = .ok v) :
    v = .array (applyLegacyRevivalItems (Json.normItems items)) := by
  rw [decodeSuperjson, SerdeJson.parseValue, hs] at h
  dsimp only at h
  rw [Json.norm] at h
  split at h
  · cases h
  · exact (Except.ok.inj h).symm

theorem fromStr_of_decodeSuperjson (h : decodeSuperjson s = .ok v) :
    ∃ t, SerdeJson.fromStr s = .ok t := by
  cases hs : SerdeJson.fromStr s with
  | ok t => exact ⟨t, rfl⟩
  | error e => simp [decodeSuperjson, SerdeJson.parseValue, hs] at h

/-! ### Base64 texts -/

/-- A text that is read as the base64 form of a document is no document and no marker. -/
theorem SerdeJson.Canonical.of_base64 (hlib : SerdeJson.Canonical)
    (h : decodeBase64Json s = .ok v) :
    (∀ u, SerdeJson.fromStr s ≠ .ok u) ∧ s ≠ "null" := by
  rw [decodeBase64Json] at h
  cases hdecode : SerdeJson.base64Decode s with
  | error e => simp [hdecode] at h
  | ok t =>
    obtain ⟨u, hu⟩ : ∃ u, SerdeJson.fromStr t = .ok u := by
      cases hparse : SerdeJson.fromStr t with
      | ok u => exact ⟨u, rfl⟩
      | error e => simp [hdecode, SerdeJson.parseValue, hparse] at h
    rcases htext : t.toList with _ | ⟨c, cs⟩
    · rw [String.toList_eq_nil_iff.1 htext] at hu
      exact absurd hu (hlib.refusesEmpty u)
    have hbegins : JsonText.beginsJson c = true ∨ isBlank c = true := by
      by_contra hc
      rw [not_or, Bool.not_eq_true, Bool.not_eq_true] at hc
      exact hlib.refuses t c cs u htext hc.1 hc.2 hu
    obtain ⟨hascii, hletter, hblank, -⟩ :=
      JsonText.base64Char_begins c (JsonText.mem_begins hbegins)
    obtain ⟨rest, hrest⟩ := JsonText.encodeText_begins htext hascii
    rw [← hlib.base64, hlib.canonical s t hdecode] at hrest
    refine ⟨fun u ↦ hlib.refuses s _ rest u hrest hletter hblank, ?_⟩
    refine ne_of_begins hrest (show _ = 'n' :: _ from rfl) ?_
    intro hn
    rw [hn] at hletter
    cases hletter

/-- The marker of a null value is no document. -/
theorem SerdeJson.Standard.fromStr_nilMarker (hlib : SerdeJson.Standard) (u : Json) :
    SerdeJson.fromStr nilMarker ≠ .ok u :=
  hlib.refuses nilMarker '_' _ u rfl rfl rfl

/-! ### Input trees -/

/-- The tree a stored input is converted from. -/
def inputTree (data format : Option String) : Except DbosError Json :=
  if format = some portableName then
    match data with
    | none => .ok .null
    | some s =>
      if s = "null" then .ok .null
      else
        match SerdeJson.fromStr s with
        | .error e => .error (.ofSerde e)
        | .ok envelope => positionalArg envelope
  else if format = some superjsonName then
    match data with
    | none => .ok .null
    | some s => (decodeSuperjson s).map firstArgument
  else decodeToJson data format

theorem decodeInput_eq (P : Type) [Serde P] (data format : Option String) :
    decodeInput P data format = (inputTree data format).bind fromValue := by
  unfold decodeInput inputTree
  split
  · cases data with
    | none => rfl
    | some s =>
      dsimp only
      split
      · rfl
      cases SerdeJson.fromStr s with
      | error e => rfl
      | ok envelope =>
        dsimp only
        cases positionalArg envelope <;> rfl
  split
  · cases data with
    | none => rfl
    | some s =>
      dsimp only
      cases decodeSuperjson s with
      | error e => rfl
      | ok v => cases v <;> rfl
  · rw [decodeValue]
    cases decodeToJson data format <;> rfl

theorem decodeInput_json {data format : Option String} :
    decodeInput Json data format = .ok v ↔ inputTree data format = .ok v := by
  rw [decodeInput_eq]
  cases inputTree data format <;> exact Iff.rfl

/-- The stored text means the same as a portable envelope: nothing is stored, or the column is
`js_superjson` or absent and the text is `null`, an empty array of `js_superjson`, or an object that
is an envelope whose first argument is the argument of its payload. -/
def InputPortable (data column : Option String) : Prop :=
  match data with
  | none => True
  | some s =>
    column = some superjsonName ∧ (s = "null" ∨ SerdeJson.fromStr s = .ok (.array []) ∨
        ∃ fields, SerdeJson.fromStr s = .ok (.object fields) ∧
          EnvelopeArgument fields (firstArgument (payloadOf s fields))) ∨
      column = none ∧ (s = "null" ∨ ∃ fields, SerdeJson.fromStr s = .ok (.object fields) ∧
          EnvelopeArgument fields (payloadOf s fields))

/-- What the portable reader finds in a text. -/
theorem inputTree_portable : inputTree (some s) (some portableName) = .ok v ↔
    s = "null" ∧ v = .null ∨
      s ≠ "null" ∧
        ∃ envelope, SerdeJson.fromStr s = .ok envelope ∧ positionalArg envelope = .ok v := by
  rw [inputTree, if_pos rfl]
  by_cases hnull : s = "null"
  · rw [if_pos hnull, Except.ok.injEq]
    simp [hnull, eq_comm]
  rw [if_neg hnull]
  cases SerdeJson.fromStr s with
  | error e => simp [hnull]
  | ok envelope => simp [hnull]

/-- A text of `js_superjson`. -/
theorem portable_superjson_iff {content : Json} (h : decodeSuperjson s = .ok content) :
    inputTree (some s) (some portableName) = .ok (firstArgument content) ↔
      InputPortable (some s) (some superjsonName) := by
  have hiff : InputPortable (some s) (some superjsonName) ↔ s = "null" ∨
      SerdeJson.fromStr s = .ok (.array []) ∨ ∃ fields, SerdeJson.fromStr s = .ok (.object fields) ∧
        EnvelopeArgument fields (firstArgument (payloadOf s fields)) := by
    simp [InputPortable]
  rw [inputTree_portable, hiff]
  by_cases hnull : s = "null"
  · rw [hnull, decodeSuperjson_null] at h
    rw [← Except.ok.inj h]
    exact iff_of_true (Or.inl ⟨hnull, rfl⟩) (Or.inl hnull)
  obtain ⟨t, ht⟩ := fromStr_of_decodeSuperjson h
  simp only [hnull, false_and, false_or, ne_eq, not_false_eq_true, true_and, ht, Except.ok.injEq,
    exists_eq_left']
  cases t with
  | object fields =>
    rw [decodeSuperjson_object ht] at h
    rw [← Except.ok.inj h, positionalArg_object]
    simp
  | array items =>
    rw [decodeSuperjson_array ht h, positionalArg_array_first_iff]
    simp
  | _ =>
    refine iff_of_false (by rintro ⟨⟩) ?_
    simp

/-- A text without a format that is read as JSON. -/
theorem portable_unlabelled_iff {content : Json} (h : decodeSuperjson s = .ok content) :
    inputTree (some s) (some portableName) = .ok content ↔ InputPortable (some s) none := by
  have hiff : InputPortable (some s) none ↔ s = "null" ∨
      ∃ fields, SerdeJson.fromStr s = .ok (.object fields) ∧
        EnvelopeArgument fields (payloadOf s fields) := by
    simp [InputPortable]
  rw [inputTree_portable, hiff]
  by_cases hnull : s = "null"
  · rw [hnull, decodeSuperjson_null] at h
    exact iff_of_true (Or.inl ⟨hnull, (Except.ok.inj h).symm⟩) (Or.inl hnull)
  obtain ⟨t, ht⟩ := fromStr_of_decodeSuperjson h
  simp only [hnull, false_and, false_or, ne_eq, not_false_eq_true, true_and, ht, Except.ok.injEq,
    exists_eq_left']
  cases t with
  | object fields =>
    rw [decodeSuperjson_object ht] at h
    rw [← Except.ok.inj h, positionalArg_object]
    simp
  | array items =>
    rw [decodeSuperjson_array ht h]
    exact iff_of_false not_positionalArg_array (by simp)
  | _ =>
    refine iff_of_false (by rintro ⟨⟩) ?_
    simp

/-- A text that is no document is no envelope, unless it is `null`. -/
theorem not_portable_of_refused (v : Json) (column : Option String)
    (hs : ∀ u, SerdeJson.fromStr s ≠ .ok u) (hnull : s ≠ "null") :
    inputTree (some s) (some portableName) ≠ .ok v ∧ ¬InputPortable (some s) column := by
  constructor
  · intro h
    rcases inputTree_portable.1 h with ⟨h, -⟩ | ⟨-, envelope, h, -⟩
    · exact hnull h
    · exact hs envelope h
  · rintro (⟨-, h | h | ⟨fields, h, -⟩⟩ | ⟨-, h | ⟨fields, h, -⟩⟩)
    · exact hnull h
    · exact hs _ h
    · exact hs _ h
    · exact hnull h
    · exact hs _ h

/-- A text that is stored as base64, or as the marker of a null value. -/
theorem portable_base64_iff (hlib : SerdeJson.Canonical) {column : Option String}
    (h : s = nilMarker ∨ decodeBase64Json s = .ok v) :
    inputTree (some s) (some portableName) = .ok v ↔ InputPortable (some s) column := by
  obtain ⟨hs, hnull⟩ : (∀ u, SerdeJson.fromStr s ≠ .ok u) ∧ s ≠ "null" := by
    rcases h with rfl | h
    · exact ⟨hlib.fromStr_nilMarker, by decide⟩
    · exact hlib.of_base64 h
  obtain ⟨hread, hportable⟩ := not_portable_of_refused v column hs hnull
  exact iff_of_false hread hportable

/-- What is read under a column that neither is writable nor `js_superjson`. -/
theorem cases_of_decodeToJson {data column : Option String} (hcolumn : ¬Writable column)
    (hsuper : column ≠ some superjsonName) (h : decodeToJson data column = .ok v) :
    data = none ∧ v = .null ∨ ∃ s, data = some s ∧
      (column = none ∧ (s = "null" ∧ v = .null ∨ decodeSuperjson s = .ok v) ∨
        s = nilMarker ∨ decodeBase64Json s = .ok v) := by
  cases column with
  | none =>
    cases data with
    | none => exact Or.inl ⟨rfl, (Except.ok.inj h).symm⟩
    | some s =>
      refine Or.inr ⟨s, rfl, ?_⟩
      rw [decodeToJson] at h
      split at h
      · rename_i hmarker
        exact hmarker.imp (fun hnull ↦ ⟨rfl, Or.inl ⟨hnull, (Except.ok.inj h).symm⟩⟩) Or.inl
      · cases hread : decodeSuperjson s with
        | ok content =>
          rw [hread] at h
          exact Or.inl ⟨rfl, Or.inr h⟩
        | error e =>
          rw [hread] at h
          exact Or.inr (Or.inr h)
  | some name =>
    have hportable : name ≠ portableName := fun hname ↦ hcolumn (Or.inl (congrArg some hname))
    unfold decodeToJson at h
    dsimp only at h
    rw [if_neg hportable, if_neg (mt (congrArg some) hsuper)] at h
    split at h
    · cases data with
      | none => exact Or.inl ⟨rfl, (Except.ok.inj h).symm⟩
      | some s =>
        refine Or.inr ⟨s, rfl, Or.inr ?_⟩
        dsimp only at h
        split at h
        · exact Or.inl (by assumption)
        · exact Or.inr h
    · split at h <;> cases h

theorem inputTree_superjson (s : String) :
    inputTree (some s) (some superjsonName) = (decodeSuperjson s).map firstArgument := by
  unfold inputTree
  rw [if_neg (by decide), if_pos rfl]

/-- **Which inputs survive the portable reader.** An input that is read under its own column is read
the same as a portable envelope exactly when its text means the same as one. -/
theorem inputTree_portable_iff (hlib : SerdeJson.Canonical) {data column : Option String}
    (hcolumn : ¬Writable column) (h : inputTree data column = .ok v) :
    inputTree data (some portableName) = .ok v ↔ InputPortable data column := by
  have hportable : column ≠ some portableName := mt Or.inl hcolumn
  by_cases hsuper : column = some superjsonName
  · subst hsuper
    cases data with
    | none => exact iff_of_true h trivial
    | some s =>
      rw [inputTree_superjson] at h
      cases hread : decodeSuperjson s with
      | error e =>
        rw [hread] at h
        cases h
      | ok content =>
        rw [hread] at h
        rw [← Except.ok.inj h]
        exact portable_superjson_iff hread
  unfold inputTree at h
  rw [if_neg hportable, if_neg hsuper] at h
  rcases cases_of_decodeToJson hcolumn hsuper h with
    ⟨rfl, rfl⟩ | ⟨s, rfl, ⟨rfl, ⟨rfl, rfl⟩ | hread⟩ | hread⟩
  · exact iff_of_true rfl trivial
  · exact iff_of_true rfl (Or.inr ⟨rfl, Or.inl rfl⟩)
  · exact portable_unlabelled_iff hread
  · exact portable_base64_iff hlib hread

end

end Dbos

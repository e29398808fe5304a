import DbosTransact.Serialize.Values

/-!
# The error codec

A workflow error is stored as text: in portable mode as the envelope `{name, message, code?,
data?}`, otherwise as the bare message. Reading it back treats two things specially. A field of the
envelope that is JSON `null` is an absent field (`serde` reads `null` into `Option` as `None`), and
an empty text is no error at all. `workflow_error_codec` says what is left of an error for every
envelope and every message.
-/

namespace Dbos

/-- The message of a decoded error. -/
def DecodedError.text : DecodedError → String
  | .plain s => s
  | .portable pe => pe.message

namespace PortableWorkflowError

/-- The optional fields are `serde_json::Value`s. -/
def IsValue (pe : PortableWorkflowError) : Prop :=
  (∀ v ∈ pe.code, v.IsValue) ∧ ∀ v ∈ pe.data, v.IsValue

/-- The envelope with its `null` fields left out. -/
def withoutNulls (pe : PortableWorkflowError) : PortableWorkflowError :=
  { pe with code := pe.code.filter fun v ↦ !v.isNull, data := pe.data.filter fun v ↦ !v.isNull }

theorem withoutNulls_eq_iff (pe : PortableWorkflowError) :
    pe.withoutNulls = pe ↔ pe.code ≠ some .null ∧ pe.data ≠ some .null := by
  have hfilter : ∀ o : Option Json, (o.filter fun v ↦ !v.isNull) = o ↔ o ≠ some .null := by
    rintro (_ | v)
    · simp
    · cases v <;> simp [Json.isNull]
  obtain ⟨name, message, code, data⟩ := pe
  simp [withoutNulls, hfilter]

/-- The fields of the envelope are found under their own keys. -/
theorem structFields_toJson (pe : PortableWorkflowError) :
    pe.toJson.structFields ["name", "message", "code", "data"] =
      some [some (.string pe.name), some (.string pe.message), pe.code, pe.data] := by
  obtain ⟨name, message, code, data⟩ := pe
  -- one case for each combination of optional fields
  rcases code with _ | code <;> rcases data with _ | data <;> rfl

theorem ofJson_toJson {pe : PortableWorkflowError} (hpe : pe.IsValue) :
    ofJson pe.toJson = some pe.withoutNulls := by
  have hfield : ∀ {field : Option Json}, (∀ v ∈ field, v.IsValue) →
      optionalField field = field.filter fun v ↦ !v.isNull := by
    intro field hfield
    cases field with
    | none => rfl
    | some v =>
      have hnorm : v.norm = v := hfield v rfl
      rw [optionalField, Option.map_some, hnorm]
  rw [ofJson, structFields_toJson]
  dsimp only
  rw [hfield hpe.1, hfield hpe.2, withoutNulls]

end PortableWorkflowError

section

variable [SerdeJson]

/-- The envelope read back from storage. -/
theorem deserialize_envelope {pe : PortableWorkflowError} (hpe : pe.IsValue)
    (hprint : SerdeJson.PrintsBack pe.toJson) (message : String) :
    deserializeWorkflowError (some (serializeWorkflowError message (some pe) .portable))
      (some portableName) = some (.portable pe.withoutNulls) := by
  have hne := SerdeJson.toString_ne_empty pe.toJson
  have hparse : SerdeJson.fromStr (SerdeJson.toString pe.toJson) = .ok pe.toJson := hprint
  rw [serializeWorkflowError, deserializeWorkflowError]
  simp only [ne_eq, not_true_eq_false, if_false, Option.getD_some, String.isEmpty_iff, hne, hparse,
    PortableWorkflowError.ofJson_toJson hpe]

/-- The message of a stored message. -/
theorem text_deserialize (message : String) (fmt : Format) :
    (deserializeWorkflowError (some (serializeWorkflowError message none fmt))
      (some fmt.name)).map DecodedError.text =
        if fmt = .dbosJson ∧ message = "" then none else some message := by
  cases fmt with
  | portable =>
    rw [show Format.portable.name = portableName from rfl, deserialize_serialize_portable]
    rfl
  | dbosJson =>
    have hplain : serializeWorkflowError message none .dbosJson = message := if_pos (by decide)
    have hname : some dbosJsonName ≠ some portableName := by decide
    rw [hplain, show Format.dbosJson.name = dbosJsonName from rfl, deserializeWorkflowError]
    by_cases hempty : message = ""
    · subst hempty
      rfl
    · simp only [String.isEmpty_iff, hempty, if_false, ne_eq, hname, not_false_eq_true, if_true]
      rfl

/-- **The error codec.** An envelope whose text is parsed back is read back without the fields that
are `null`, so it is read back unchanged exactly when it has none; and the message of a message is
itself under either format, except that an empty one is no error under `DBOS_JSON`. -/
theorem workflow_error_codec (pe : PortableWorkflowError) (hpe : pe.IsValue)
    (hprint : SerdeJson.PrintsBack pe.toJson) (message : String) :
    deserializeWorkflowError (some (serializeWorkflowError message (some pe) .portable))
        (some portableName) = some (.portable pe.withoutNulls) ∧
      (pe.withoutNulls = pe ↔ pe.code ≠ some .null ∧ pe.data ≠ some .null) ∧
      ∀ m fmt, (deserializeWorkflowError (some (serializeWorkflowError m none fmt))
        (some (Format.name fmt))).map DecodedError.text =
          if fmt = .dbosJson ∧ m = "" then none else some m :=
  ⟨deserialize_envelope hpe hprint message, pe.withoutNulls_eq_iff, text_deserialize⟩

end

/-- An error whose code is JSON `null`. -/
def nullCoded : PortableWorkflowError := ⟨"E", "m", some .null, some (.string "d")⟩

/-- The codec on an error with a `null` code. -/
theorem workflow_error_codec_nullCoded :
    @deserializeWorkflowError JsonText.jsonText (some (@serializeWorkflowError JsonText.jsonText ""
      (some nullCoded) .portable)) (some portableName) = some
      (.portable nullCoded.withoutNulls) := by
  let errorJson : SerdeJson := JsonText.jsonText
  refine (workflow_error_codec nullCoded ⟨?_, ?_⟩ (SerdeJson.fromStr_toString _ (by decide)) "").1
  · rintro v ⟨⟩
    rfl
  · rintro v ⟨⟩
    rfl

/-- A `null` code is lost, and an empty message is no error. -/
theorem workflow_error_lost :
    @deserializeWorkflowError JsonText.jsonText (some (@serializeWorkflowError JsonText.jsonText ""
        (some nullCoded) .portable)) (some portableName) ≠ some (.portable nullCoded) ∧
      @deserializeWorkflowError JsonText.jsonText
        (some (@serializeWorkflowError JsonText.jsonText "" none .dbosJson))
        (some Format.dbosJson.name) = none := by
  let lostJson : SerdeJson := JsonText.jsonText
  have hvalue : nullCoded.IsValue := by
    refine ⟨?_, ?_⟩ <;>
    · rintro v ⟨⟩
      rfl
  refine ⟨fun h ↦ ?_, rfl⟩
  rw [deserialize_envelope hvalue (SerdeJson.fromStr_toString _ (by decide)) ""] at h
  injection h with h
  injection h with h
  cases congrArg PortableWorkflowError.code h

end Dbos

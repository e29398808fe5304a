import DbosTransact.Runtime.Handler
import DbosTransact.Runtime.Replay

/-!
# Errors that went through storage

The error of a step is stored in `operation_outputs`, that of a workflow in `workflow_status`, both
as the `Display` text of the error and nothing else. What comes back is an uncoded error with that
text: the text survives, the code does not, and `DbosError::is` answers `false` from then on. An
empty text is the one that does not survive, because under `DBOS_JSON` it is read as no error.
-/

namespace Dbos

/-- The two errors have the same code and the same `Display` text. -/
def DbosError.SameIdentity (e e' : DbosError) : Prop :=
  e'.code.asI32 = e.code.asI32 ∧ e'.display = e.display

theorem DbosErrorCode.asI32_eq_zero_iff (c : DbosErrorCode) : c.asI32 = 0 ↔ c = .unspecified := by
  cases c <;> simp [asI32]

/-- An uncoded error with the text of another one is the same only if that one is uncoded. -/
theorem DbosError.sameIdentity_other_iff (e : DbosError) (text : String) :
    e.SameIdentity (.other text) ↔ e.code = .unspecified ∧ text = e.display := by
  rw [SameIdentity, display_other, eq_comm (a := (other text).code.asI32)]
  exact and_congr_left' e.code.asI32_eq_zero_iff

/-- No branch on the code of an uncoded error is taken. -/
theorem DbosError.is_other (text : String) (c : DbosErrorCode) : (other text).is c = false := by
  cases c <;> rfl

/-- The text a poll reports of a text. -/
def polledText (fmt : Format) (text : String) : String :=
  if fmt = .dbosJson ∧ text = "" then "workflow failed" else text

section

variable [SerdeJson]

/-- A step error is replayed as its text. -/
theorem decodedStepError_serialize (text : String) :
    decodedStepError (serializeWorkflowError text none .portable) (some portableName) =
      .other text := by
  rw [decodedStepError, deserialize_serialize_portable]

/-- The text a polling handle reports for the error of a task. -/
theorem polledErrorText_serialize (text : String) (fmt : Format) :
    polledErrorText (some (serializeWorkflowError text none fmt)) (some fmt.name) =
      polledText fmt text := by
  have htext := text_deserialize text fmt
  rw [polledErrorText, polledText]
  cases hread : deserializeWorkflowError (some (serializeWorkflowError text none fmt))
      (some fmt.name) with
  | none =>
    rw [hread] at htext
    split at htext
    · rw [if_pos (by assumption)]
    · cases htext
  | some d =>
    rw [hread] at htext
    split at htext
    · cases htext
    · rw [if_neg (by assumption)]
      exact Option.some.inj htext

omit [SerdeJson] in
theorem polledText_eq_iff (fmt : Format) (text : String) :
    polledText fmt text = text ↔ fmt = .portable ∨ text ≠ "" := by
  rw [polledText]
  by_cases h : fmt = .dbosJson ∧ text = ""
  · rw [if_pos h]
    obtain ⟨rfl, rfl⟩ := h
    simp
  · rw [if_neg h]
    refine iff_of_true rfl ?_
    cases fmt with
    | portable => exact Or.inl rfl
    | dbosJson => exact Or.inr fun htext ↦ h ⟨rfl, htext⟩

/-- **What is left of an error.** For every error of a step closure or a body: the columns
`record_step` writes are replayed as the uncoded error with its text, and so are those of a task
polled under the format of its row, unless that is `DBOS_JSON` and the text is empty. So the error
keeps its identity exactly when it was uncoded, and what comes back passes no test of a code. -/
theorem error_through_storage {R : Type} [Serde R] (e : DbosError) (fmt : Format) (id : String)
    (r : WorkflowRow) (hr : r.serialization = some fmt.name) (now : ℤ) :
    (∃ text, stepColumns (R := R) (.error e) = .ok (none, some text) ∧
      decodeStep R ⟨none, some text, some Format.portable.name⟩ = .error (.other e.display)) ∧
    (r.completed fmt (.error e) now).polledResult R id =
      some (.error (.other (polledText fmt e.display))) ∧
    (e.SameIdentity (.other e.display) ↔ e.code = .unspecified) ∧
    (e.SameIdentity (.other (polledText fmt e.display)) ↔
      e.code = .unspecified ∧ (fmt = .portable ∨ e.display ≠ "")) ∧
    ∀ text c, (DbosError.other text).is c = false := by
  refine ⟨⟨_, rfl, ?_⟩, ?_, ?_, ?_, DbosError.is_other⟩
  · exact congrArg Except.error (decodedStepError_serialize e.display)
  · rw [polledResult_completed, hr]
    exact congrArg (fun t ↦ some (Except.error (DbosError.other t)))
      (polledErrorText_serialize e.display fmt)
  · rw [e.sameIdentity_other_iff]
    exact and_iff_left rfl
  · rw [e.sameIdentity_other_iff, polledText_eq_iff]

end

/-- An error of a workflow that was enqueued in the Go SDK's format. -/
theorem error_through_storage_dbosJson :
    (@WorkflowRow.polledResult JsonText.jsonText Json _ "w"
      (@WorkflowRow.completed JsonText.jsonText (foreignRow "" (some dbosJsonName)) .dbosJson
        (.error (.conflictingId "w")) 7)) =
      some (.error (.other "DBOS Error 1: Conflicting workflow ID w")) :=
  (@error_through_storage JsonText.jsonText Json _ (.conflictingId "w") .dbosJson "w"
    (foreignRow "" (some dbosJsonName)) rfl 7).2.1

/-- A step closure fails with a coded error. A body that asks for the code takes another branch when
the step is replayed. -/
theorem step_error_loses_code :
    ∃ text, @stepColumns JsonText.jsonText Json _ (.error (.conflictingId "w")) =
        .ok (none, some text) ∧
      @decodeStep JsonText.jsonText Json _ ⟨none, some text, some Format.portable.name⟩ =
        .error (.other "DBOS Error 1: Conflicting workflow ID w") ∧
      (DbosError.conflictingId "w").is .conflictingId = true ∧
      (DbosError.other "DBOS Error 1: Conflicting workflow ID w").is .conflictingId = false ∧
      ¬(DbosError.conflictingId "w").SameIdentity
        (.other "DBOS Error 1: Conflicting workflow ID w") := by
  let stepJson : SerdeJson := JsonText.jsonText
  refine ⟨_, rfl, congrArg Except.error (decodedStepError_serialize _), rfl, rfl, fun h ↦ ?_⟩
  cases h.1

end Dbos

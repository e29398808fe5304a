import DbosTransact.Serialize.Errors
import DbosTransact.Serialize.Inputs
import DbosTransact.Queue.Dequeue
import DbosTransact.Runtime.Calls

/-!
# The payloads of a task

A registered body is erased to a function of the stored input text and a format: it decodes the
input, runs, and encodes the value it returns, all in the format of its task. This module is about
the texts at both ends. The format of the task of a recovered or dequeued row is
`Format.fromName` of the row's `serialization` column, which knows two formats, while the column
has more, and everything else that reads the row goes by the column.

`input_kept_iff` says for which rows the body gets the input the row holds, and
`outcome_readable_iff` for which results the columns a task writes are read back as what the body
returned.
-/

namespace Dbos

open Txn

/-- Every task the program spawns satisfies `T`. -/
def SpawnsTasks {α : Type} (T : Task → Prop) (m : DbosM α) : Prop :=
  Sends (fun _ ↦ True) m fun q ↦ ∀ task, q = .spawn task → T task

theorem fromName_of_writable {format : Option String} (h : Writable format) :
    some (Format.fromName format).name = format := by
  rcases h with rfl | rfl <;> rfl

theorem fromName_of_not_writable {format : Option String} (h : ¬Writable format) :
    Format.fromName format = .portable :=
  if_neg fun hdbos ↦ h (Or.inr hdbos)

section

variable [SerdeJson]

/-! ### The erased handler -/

/-- The handler a body is registered as. -/
def handler (P R : Type) [Serde P] [Serde R] (body : P → DbosM R) (input : Option String)
    (fmt : Format) : DbosM String := do
  let p ← ofExcept (decodeInput P input (some fmt.name))
  let r ← body p
  ofExcept (encodeValue r fmt)

/-- The value the handler passes to the body. -/
def Task.bodyInput (P : Type) [Serde P] (task : Task) : Except DbosError P :=
  decodeInput P task.input (some task.fmt.name)

/-- The text the handler gives for the result of the body. -/
def encodedResult {R : Type} [Serde R] (fmt : Format) (result : Except DbosError R) :
    Except DbosError String :=
  result.bind fun r ↦ encodeValue r fmt

/-- The handler runs the body on the task's input and gives the text of its result. -/
theorem handler_eq {P R : Type} [Serde P] [Serde R] (body : P → DbosM R) (task : Task) :
    handler P R body task.input task.fmt =
      (ofExcept (task.bodyInput P) >>= fun p ↦ attempt (body p) >>= fun result ↦
        ofExcept (encodedResult task.fmt result)) := by
  rw [handler, Task.bodyInput]
  refine bind_congr fun p ↦ ?_
  have hassoc : (attempt (body p) >>= fun result ↦ ofExcept (encodedResult task.fmt result)).run =
      (body p).run.bind fun result ↦ .pure (encodedResult task.fmt result) :=
    Prog.bind_assoc _ _ _
  refine Eq.trans ?_ hassoc.symm
  refine congrArg (Prog.bind (body p).run) (funext fun result ↦ ?_)
  cases result <;> rfl

/-! ### The tasks of a row -/

theorem spawnsTasks_recoverWorkflow {T : Task → Prop} (inner : DbosInner) (id : String)
    (r : WorkflowRow) (hT : ∀ task : Task, task.input = r.inputs →
      task.fmt = .fromName r.serialization → T task) :
    SpawnsTasks T (recoverWorkflow inner (r.toRecoverable id)) := by
  refine (plain_recoverWorkflow inner (r.toRecoverable id) ?_ ?_ ?_).mono
    (fun _ _ ↦ trivial) fun _ hq ↦ hq
  · rintro task ⟨⟩
  · rintro task ⟨⟩
  · rintro w auth task ⟨⟩
    exact hT _ rfl rfl

omit [SerdeJson] in
theorem spawnsTasks_dispatchDequeued {T : Task → Prop} (inner : DbosInner) (id : String)
    (r : WorkflowRow) (hT : ∀ task : Task, task.input = r.inputs →
      task.fmt = .fromName r.serialization → T task) :
    SpawnsTasks T (dispatchDequeued inner (dequeued (id, r))) := by
  rw [dispatchDequeued]
  split
  · exact sends_pure _
  · refine sends_ask_of ?_
    rintro task ⟨⟩
    exact hT _ rfl rfl

theorem spawnsTasks_startWorkflow {T : Task → Prop} (inner : DbosInner) (name : String)
    (input : Option String) (opts : WorkflowOptions) (parent : Option (WorkflowState × ℕ))
    (fmt : Format) (hT : ∀ task : Task, task.input = input → task.fmt = fmt → T task) :
    SpawnsTasks T (startWorkflow inner name input opts parent fmt false) := by
  refine sends_startWorkflow inner name input opts parent fmt false (fun _ _ _ _ ↦ trivial)
    (fun _ ↦ trivial) (fun _ _ _ _ ↦ trivial) ?_ ?_ ?_
  · rintro task ⟨⟩
  · rintro task ⟨⟩
  · rintro w task ⟨⟩
    exact hT _ rfl rfl

/-! ### Inputs -/

/-- The body of the task gets the input that the row holds, whatever its input type is. -/
def Task.KeepsInput (task : Task) (r : WorkflowRow) : Prop :=
  ∀ (P : Type) [Serde P] (v : P), decodeInput P r.inputs r.serialization = .ok v →
    task.bodyInput P = .ok v

/-- The `serialization` column is that of a format this crate writes, or the stored text means the
same as a portable envelope. -/
def WorkflowRow.InputPortable (r : WorkflowRow) : Prop :=
  Writable r.serialization ∨ Dbos.InputPortable r.inputs r.serialization

theorem keepsInput_iff (hlib : SerdeJson.Canonical) {task : Task} {r : WorkflowRow}
    (hdecodes : ∃ v, decodeInput Json r.inputs r.serialization = .ok v)
    (hinput : task.input = r.inputs) (hfmt : task.fmt = .fromName r.serialization) :
    task.KeepsInput r ↔ r.InputPortable := by
  obtain ⟨v, hv⟩ := hdecodes
  by_cases hw : Writable r.serialization
  · refine iff_of_true (fun P _ v hv ↦ ?_) (Or.inl hw)
    rw [Task.bodyInput, hinput, hfmt, fromName_of_writable hw]
    exact hv
  have hname : some task.fmt.name = some portableName := by
    rw [hfmt, fromName_of_not_writable hw]
    rfl
  have hiff := inputTree_portable_iff hlib hw (decodeInput_json.1 hv)
  rw [WorkflowRow.InputPortable, or_iff_right hw, ← hiff]
  constructor
  · -- a body that takes any JSON value shows which tree it got
    intro h
    have hbody := h Json v hv
    rw [Task.bodyInput, hinput, hname] at hbody
    exact decodeInput_json.1 hbody
  · intro h P _ w hw
    rw [decodeInput_eq, decodeInput_json.1 hv] at hw
    rw [Task.bodyInput, hinput, hname, decodeInput_eq, h]
    exact hw

/-- **Which rows keep their input.** Of a row whose input decodes under its column: every task that
recovering or dispatching it spawns runs the body on that input exactly when the column is that of a
format this crate writes, or the text means the same as a portable envelope. -/
theorem input_kept_iff (hlib : SerdeJson.Canonical) (inner : DbosInner) (id : String)
    (r : WorkflowRow) (hdecodes : ∃ v, decodeInput Json r.inputs r.serialization = .ok v) :
    SpawnsTasks (fun task ↦ task.KeepsInput r ↔ r.InputPortable)
        (recoverWorkflow inner (r.toRecoverable id)) ∧
      SpawnsTasks (fun task ↦ task.KeepsInput r ↔ r.InputPortable)
        (dispatchDequeued inner (dequeued (id, r))) :=
  ⟨spawnsTasks_recoverWorkflow inner id r fun _ ↦ keepsInput_iff hlib hdecodes,
    spawnsTasks_dispatchDequeued inner id r fun _ ↦ keepsInput_iff hlib hdecodes⟩

/-! ### Outcomes -/

/-- The row once its task has written the columns of a result. -/
def WorkflowRow.completed (r : WorkflowRow) (fmt : Format) (result : Except DbosError String)
    (now : ℤ) : WorkflowRow :=
  r.recordOutcome (outcomeColumns fmt result).1 (outcomeColumns fmt result).2.1
    (outcomeColumns fmt result).2.2 now

/-- What `get_result` makes of the row, if it has an outcome. -/
def WorkflowRow.polledResult (R : Type) [Serde R] (id : String) (r : WorkflowRow) :
    Option (Except DbosError R) :=
  (AwaitRow.outcome ⟨r.status, r.output, r.error, r.recoveryAttempts, r.serialization⟩).map fun o ↦
    o.result R id

/-- The columns written for the result of a body are read back: a value by `get_result` and by
`list_workflows`, an error as its text. A value that cannot be encoded has become an error. -/
def ReadsBack {R : Type} [Serde R] (id : String) (r : WorkflowRow) (fmt : Format)
    (result : Except DbosError R) : Prop :=
  ∀ now, match encodedResult fmt result with
    | .ok text => ∀ v j, result = .ok v → Serde.toValue v = .ok j →
        (r.completed fmt (.ok text) now).polledResult R id = some (.ok v) ∧
          decodeValue Json (some text) r.serialization = .ok j
    | .error e => ∃ e' : DbosError,
        (r.completed fmt (.error e) now).polledResult R id = some (.error e') ∧
          e'.display = e.display

/-- The JSON tree of a result, if it is one and can be converted. -/
def resultTree {R : Type} [Serde R] (result : Except DbosError R) : Except DbosError Json :=
  result.bind fun r ↦ (Serde.toValue r).mapError .ofSerde

theorem encodedResult_eq {R : Type} [Serde R] (fmt : Format) (result : Except DbosError R) :
    encodedResult fmt result = (resultTree result).map fun j ↦ encodeJsonValue j fmt := by
  cases result with
  | error e => rfl
  | ok r =>
    rw [encodedResult, resultTree, Except.bind, Except.bind, encodeValue]
    cases Serde.toValue r <;> rfl

/-- A value survives in the columns of the two writable formats, and under `js_superjson` and an
absent column when no field of it is the marker of an envelope and no object in it a legacy wrapper;
an error text survives as an envelope, and under `DBOS_JSON` when it is not empty. -/
def OutcomePortable {R : Type} [Serde R] (column : Option String) (result : Except DbosError R) :
    Prop :=
  match resultTree result with
  | .ok j => Writable column ∨ (column = some superjsonName ∨ column = none) ∧
      ¬j.Marked ∧ j.wrapped = false
  | .error e => column = some portableName ∨ column = some dbosJsonName ∧ e.display ≠ ""

/-- The text of a value under a column of another format. -/
theorem decodeToJson_portable_iff {num : JsonNumber → List Char} (hlib : SerdeJson.Canonical)
    (hcompact : SerdeJson.Compact num) {j : Json} (hv : j.IsValue) (hprint : SerdeJson.PrintsBack j)
    {column : Option String}
    (hcolumn : column = some superjsonName ∨ column = some "" ∨ column = none) :
    decodeToJson (some (SerdeJson.toString j)) column = .ok j ↔
      (column = some superjsonName ∨ column = none) ∧ ¬j.Marked ∧ j.wrapped = false := by
  have hnil : SerdeJson.toString j ≠ nilMarker := by
    intro h
    exact hlib.fromStr_nilMarker j (h ▸ hprint)
  have hbase64 : decodeBase64Json (SerdeJson.toString j) ≠ .ok j :=
    fun h ↦ (hlib.of_base64 h).1 j hprint
  rw [← decodeSuperjson_eq_iff hcompact hv hprint]
  rcases hcolumn with rfl | rfl | rfl
  · rw [decodeToJson_superjson]
    simp
  · rw [decodeToJson_empty, if_neg hnil]
    refine iff_of_false hbase64 ?_
    rintro ⟨hcol | hcol, -⟩
    · exact absurd (Option.some.inj hcol) (by decide)
    · cases hcol
  · rw [decodeToJson]
    by_cases hnull : SerdeJson.toString j = "null"
    · rw [if_pos (Or.inl hnull), hnull, eq_null_of_toString (hprint.parseValue hv) hnull,
        decodeSuperjson_null]
      simp
    rw [if_neg (by rintro (h | h); exacts [hnull h, hnil h])]
    cases hsuper : decodeSuperjson (SerdeJson.toString j) with
    | ok v => simp
    | error e => simpa using hbase64

/-- The message `get_result` reports for a stored error. -/
def polledErrorText (err column : Option String) : String :=
  match deserializeWorkflowError err column with
  | some d => d.text
  | none => "workflow failed"

/-- An envelope is longer than the message in it. -/
theorem serializeWorkflowError_ne {num : JsonNumber → List Char} (hcompact : SerdeJson.Compact num)
    (message : String) : serializeWorkflowError message none .portable ≠ message := by
  have htext : (serializeWorkflowError message none .portable).toList =
      JsonText.tokenText (JsonText.tokens num
        (PortableWorkflowError.toJson ⟨"Portable Error", message, none, none⟩)) := hcompact.text _
  intro h
  rw [h] at htext
  have hlength := congrArg List.length htext
  have hmessage := JsonText.length_le_escape message
  simp [PortableWorkflowError.toJson, JsonText.tokens, JsonText.fieldTokens, JsonText.tokenText,
    JsonText.Token.text, String.length_toList] at hlength
  omega

/-- The text of an error under the column of the row. -/
theorem polledErrorText_serialize_iff {num : JsonNumber → List Char}
    (hcompact : SerdeJson.Compact num) {column : Option String} {message : String}
    (hcolumn : Writable column ∨ column = some superjsonName ∨ column = some "" ∨ column = none) :
    polledErrorText (some (serializeWorkflowError message none (.fromName column))) column =
        message ↔
      column = some portableName ∨ column = some dbosJsonName ∧ message ≠ "" := by
  have hother : column ≠ some portableName → Format.fromName column = .portable →
      polledErrorText (some (serializeWorkflowError message none (.fromName column))) column =
        serializeWorkflowError message none .portable := by
    intro hcol hfmt
    have hne : serializeWorkflowError message none .portable ≠ "" := by
      rw [serializeWorkflowError, if_neg (by simp)]
      exact SerdeJson.toString_ne_empty _
    rw [hfmt, polledErrorText, deserializeWorkflowError]
    simp only [String.isEmpty_iff, hne, if_false, ne_eq, hcol, not_false_eq_true, if_true]
    rfl
  rcases hcolumn with (rfl | rfl) | hcol
  · refine iff_of_true ?_ (Or.inl rfl)
    have hread := deserialize_serialize_portable message
    rw [polledErrorText]
    exact congrArg (fun d ↦ (match d with | some d => d.text | none => "workflow failed")) hread
  · have hplain : serializeWorkflowError message none (.fromName (some dbosJsonName)) = message :=
      if_pos (by decide)
    rw [hplain, polledErrorText, deserializeWorkflowError]
    by_cases hempty : message = ""
    · subst hempty
      refine iff_of_false (show "workflow failed" ≠ "" by decide) ?_
      rintro (h | ⟨-, h⟩)
      · exact absurd (Option.some.inj h) (by decide)
      · exact h rfl
    · refine iff_of_true ?_ (Or.inr ⟨rfl, hempty⟩)
      have hname : some dbosJsonName ≠ some portableName := by decide
      simp only [String.isEmpty_iff, hempty, if_false, ne_eq, hname, not_false_eq_true, if_true]
      rfl
  · have hne : column ≠ some portableName ∧ column ≠ some dbosJsonName := by
      rcases hcol with rfl | rfl | rfl <;> decide
    refine iff_of_false ?_ (by rintro (h | ⟨h, -⟩); exacts [hne.1 h, hne.2 h])
    rw [hother hne.1 (if_neg hne.2)]
    exact serializeWorkflowError_ne hcompact message

variable {R : Type} [Serde R]

/-- What a polling handle makes of a completed row. -/
theorem polledResult_completed (id : String) (r : WorkflowRow) (fmt : Format)
    (result : Except DbosError String) (now : ℤ) :
    (r.completed fmt result now).polledResult R id = some (match result with
      | .ok text => decodeValue R (some text) r.serialization
      | .error e => .error (.other (polledErrorText
          (some (serializeWorkflowError e.display none fmt)) r.serialization))) := by
  cases result with
  | ok text => rfl
  | error e =>
    rw [WorkflowRow.polledResult]
    simp only [WorkflowRow.completed, outcomeColumns, WorkflowRow.recordOutcome, AwaitRow.outcome,
      Option.map_some, AwaitOutcome.result, polledErrorText]
    cases deserializeWorkflowError _ _ with
    | none => rfl
    | some d => cases d <;> rfl

/-- The columns a row of this crate or of another SDK may have that this crate reads. -/
def Readable (column : Option String) : Prop :=
  Writable column ∨ column = some superjsonName ∨ column = some "" ∨ column = none

section

variable {num : JsonNumber → List Char} (hlib : SerdeJson.Canonical)
  (hcompact : SerdeJson.Compact num)
include hlib hcompact

theorem decodeToJson_encoded_iff {j : Json} (hv : j.IsValue) (hprint : SerdeJson.PrintsBack j)
    {column : Option String} (hcolumn : Readable column) :
    decodeToJson (some (encodeJsonValue j (.fromName column))) column = .ok j ↔
      Writable column ∨ (column = some superjsonName ∨ column = none) ∧
        ¬j.Marked ∧ j.wrapped = false := by
  by_cases hw : Writable column
  · refine iff_of_true ?_ (Or.inl hw)
    have hread := hlib.decodeToJson_encode hv hprint (.fromName column)
    rwa [fromName_of_writable hw] at hread
  · rw [fromName_of_not_writable hw, encodeJsonValue_portable,
      decodeToJson_portable_iff hlib hcompact hv hprint (hcolumn.resolve_left hw)]
    exact (or_iff_right hw).symm

/-- The columns of a result are read back exactly when the result is portable. -/
theorem readsBack_iff {id : String} {r : WorkflowRow} {result : Except DbosError R}
    (hcolumn : Readable r.serialization)
    (hvalue : ∀ v j, result = .ok v → Serde.toValue v = .ok j →
      j.IsValue ∧ SerdeJson.PrintsBack j ∧ Serde.fromValue j = .ok v) :
    ReadsBack id r (.fromName r.serialization) result ↔
      OutcomePortable r.serialization result := by
  rw [ReadsBack, OutcomePortable, encodedResult_eq]
  simp only [polledResult_completed]
  cases htree : resultTree result with
  | error e =>
    dsimp only [Except.map]
    rw [← polledErrorText_serialize_iff hcompact hcolumn]
    constructor
    · intro h
      obtain ⟨e', hpolled, hdisplay⟩ := h 0
      cases hpolled
      exact hdisplay
    · exact fun h _ ↦ ⟨_, rfl, h⟩
  | ok j =>
    dsimp only [Except.map]
    -- the tree is that of the value the body returned
    obtain ⟨v, rfl, hj⟩ : ∃ v, result = .ok v ∧ Serde.toValue v = .ok j := by
      cases result with
      | error e => cases htree
      | ok v =>
        refine ⟨v, rfl, ?_⟩
        cases hj : Serde.toValue v with
        | ok j' => simpa [resultTree, Except.bind, hj, Except.mapError] using htree
        | error e => simp [resultTree, Except.bind, hj, Except.mapError] at htree
    obtain ⟨hvalue, hprint, hfrom⟩ := hvalue v j rfl hj
    rw [← decodeToJson_encoded_iff hlib hcompact hvalue hprint hcolumn]
    constructor
    · intro h
      have hjson := (h 0 v j rfl hj).2
      rw [decodeValue] at hjson
      cases hread : decodeToJson (some (encodeJsonValue j (.fromName r.serialization)))
          r.serialization with
      | error e =>
        rw [hread] at hjson
        cases hjson
      | ok j' =>
        rw [hread] at hjson
        exact hjson
    · rintro h - v' j' ⟨⟩ hj'
      cases hj.symm.trans hj'
      rw [decodeValue, decodeValue, h]
      dsimp only
      rw [fromValue, hfrom]
      exact ⟨rfl, rfl⟩

/-- **Which outcomes are read back.** For every task that recovering or dispatching a row spawns,
and for every result of its body, the columns the task writes are read back exactly when the result
is portable under the column of the row; and the row a start inserts has the format of its task as
its column. -/
theorem outcome_readable_iff (inner : DbosInner) (id : String) (r : WorkflowRow)
    (result : Except DbosError R) (hcolumn : Readable r.serialization)
    (hvalue : ∀ v j, result = .ok v → Serde.toValue v = .ok j →
      j.IsValue ∧ SerdeJson.PrintsBack j ∧ Serde.fromValue j = .ok v) :
    SpawnsTasks (fun task ↦ ReadsBack id r task.fmt result ↔
        OutcomePortable r.serialization result) (recoverWorkflow inner (r.toRecoverable id)) ∧
    SpawnsTasks (fun task ↦ ReadsBack id r task.fmt result ↔
        OutcomePortable r.serialization result) (dispatchDequeued inner (dequeued (id, r))) ∧
    ∀ name input opts parent fmt, r.serialization = some (Format.name fmt) →
      SpawnsTasks (fun task ↦ ReadsBack id r task.fmt result ↔
          OutcomePortable r.serialization result)
        (startWorkflow inner name input opts parent fmt false) := by
  have hrow : ∀ task : Task, task.fmt = .fromName r.serialization →
      (ReadsBack id r task.fmt result ↔ OutcomePortable r.serialization result) := by
    intro task hfmt
    rw [hfmt]
    exact readsBack_iff hlib hcompact hcolumn hvalue
  refine ⟨spawnsTasks_recoverWorkflow inner id r fun task _ ↦ hrow task,
    spawnsTasks_dispatchDequeued inner id r fun task _ ↦ hrow task, ?_⟩
  intro name input opts parent fmt hcol
  refine spawnsTasks_startWorkflow inner name input opts parent fmt fun task _ hfmt ↦ hrow task ?_
  rw [hfmt, hcol]
  cases fmt <;> rfl

end

end

/-! ### Rows of another SDK -/

/-- An executor that knows one workflow. -/
def echoInner : DbosInner where
  executorId := "a"
  applicationVersion := "1"
  registry := fun name ↦ if name = "echo" then some ⟨0, none, none⟩ else none

/-- A claimed row with this input and format column. -/
def foreignRow (inputs : String) (column : Option String) : WorkflowRow where
  status := .pending
  name := "echo"
  authenticatedUser := none
  assumedRole := none
  authenticatedRoles := none
  output := none
  error := none
  executorId := some "a"
  createdAt := 0
  updatedAt := 0
  applicationVersion := some "1"
  applicationId := none
  className := none
  configName := none
  recoveryAttempts := 1
  queueName := some "q"
  workflowTimeoutMs := none
  workflowDeadlineEpochMs := none
  inputs := some inputs
  startedAtEpochMs := some 0
  deduplicationId := none
  priority := 0
  queuePartitionKey := none
  ownerXid := none
  parentWorkflowId := none
  serialization := column
  delayUntilEpochMs := none
  rateLimited := false
  completedAt := none

/-- The input `[5]` as the TypeScript SDK stores it. -/
def superjsonFive : String := "\x7b\"json\":[5],\"__dbos_serializer\":\"superjson\"\x7d"

def Json.isInt (n : ℤ) : Json → Bool
  | .number (.int m) => m = n
  | _ => false

theorem Json.eq_of_isInt {n : ℤ} {v : Json} (h : v.isInt n = true) : v = .number (.int n) := by
  unfold isInt at h
  split at h
  · rw [of_decide_eq_true h]
  · cases h

/-- The input of a row of the TypeScript SDK decodes. -/
theorem decodeInput_superjsonFive : @decodeInput JsonText.jsonText Json _ (some superjsonFive)
    superjsonName = .ok (.number (.int 5)) := by
  have hstored : (@decodeInput JsonText.jsonText Json _ (some superjsonFive)
      superjsonName).toOption.any (Json.isInt 5) = true := by
    decide +kernel
  obtain ⟨v, hv, hfive⟩ := toOption_any hstored
  rw [hv, Json.eq_of_isInt hfive]

/-- A row whose text is no portable envelope. -/
theorem input_kept_iff_foreign :
    @SpawnsTasks Unit (fun task ↦
      @Task.KeepsInput JsonText.jsonText task (foreignRow superjsonFive superjsonName) ↔
        @WorkflowRow.InputPortable JsonText.jsonText (foreignRow superjsonFive superjsonName))
      (dispatchDequeued echoInner (dequeued ("w", foreignRow superjsonFive superjsonName))) := by
  let json : SerdeJson := JsonText.jsonText
  have hdecodes : ∃ v, decodeInput Json (foreignRow superjsonFive superjsonName).inputs
      (foreignRow superjsonFive superjsonName).serialization = .ok v := by
    refine ⟨.number (.int 5), ?_⟩
    have hinputs : (foreignRow superjsonFive superjsonName).inputs = some superjsonFive := rfl
    have hcolumn : (foreignRow superjsonFive superjsonName).serialization = some superjsonName :=
      rfl
    rw [hinputs, hcolumn]
    exact decodeInput_superjsonFive
  exact (input_kept_iff JsonText.canonical_jsonText echoInner "w" _ hdecodes).2

/-- A dequeued workflow of the TypeScript SDK does not get its input: the envelope it is read as has
no positional arguments, so the body gets `null`. -/
theorem superjson_input_lost :
    ∃ task, dispatchDequeued echoInner (dequeued ("w", foreignRow superjsonFive superjsonName)) =
        ask (.spawn task) ∧
      @decodeInput JsonText.jsonText Json _ (some superjsonFive) superjsonName =
        .ok (.number (.int 5)) ∧
      @Task.bodyInput JsonText.jsonText Json _ task = .ok .null ∧
      ¬@Task.KeepsInput JsonText.jsonText task (foreignRow superjsonFive superjsonName) := by
  have hpassed : (@decodeInput JsonText.jsonText Json _ (some superjsonFive)
      portableName).toOption.any Json.isNull = true := by
    decide +kernel
  obtain ⟨v, hv, hnull⟩ := toOption_any hpassed
  rw [Json.eq_null_of_isNull hnull] at hv
  refine ⟨⟨"w", "echo", some superjsonFive, .portable, {}⟩, rfl, decodeInput_superjsonFive, hv,
    fun hkeeps ↦ ?_⟩
  have h := (hv.symm.trans (hkeeps Json _ decodeInput_superjsonFive) :
      Except.ok Json.null = .ok (.number (.int 5)))
  cases h

/-- A body that failed with this text. -/
def boom : Except DbosError Json := .error (.other "boom")

/-- The error text of a dequeued workflow of the TypeScript SDK is not read back: the envelope is
taken for the text. -/
theorem superjson_error_garbled :
    ∃ task, dispatchDequeued echoInner (dequeued ("w", foreignRow superjsonFive superjsonName)) =
        ask (.spawn task) ∧
      ¬@ReadsBack JsonText.jsonText Json _ "w" (foreignRow superjsonFive superjsonName) task.fmt
        boom := by
  have htext : @polledErrorText JsonText.jsonText (some (@serializeWorkflowError JsonText.jsonText
      "boom" none .portable)) superjsonName ≠ "boom" := by
    decide +kernel
  refine ⟨⟨"w", "echo", some superjsonFive, .portable, {}⟩, rfl, fun hread ↦ ?_⟩
  obtain ⟨e', hpolled, hdisplay⟩ := hread 0
  rw [@polledResult_completed JsonText.jsonText] at hpolled
  cases hpolled
  exact htext hdisplay

/-- A value and an error under a column of the TypeScript SDK. -/
theorem outcome_readable_iff_foreign :
    (@SpawnsTasks Unit (fun task ↦
      @ReadsBack JsonText.jsonText Json _ "w" (foreignRow superjsonFive superjsonName) task.fmt
        (.ok (.number (.int 5))) ↔
      OutcomePortable superjsonName (.ok (Json.number (.int 5))))
      (dispatchDequeued echoInner (dequeued ("w", foreignRow superjsonFive superjsonName)))) ∧
    @SpawnsTasks Unit (fun task ↦
      @ReadsBack JsonText.jsonText Json _ "w" (foreignRow superjsonFive superjsonName) task.fmt
        boom ↔ OutcomePortable superjsonName boom)
      (dispatchDequeued echoInner (dequeued ("w", foreignRow superjsonFive superjsonName))) := by
  let json : SerdeJson := JsonText.jsonText
  have hcolumn : Readable (foreignRow superjsonFive superjsonName).serialization :=
    Or.inr (Or.inl rfl)
  constructor
  · refine (outcome_readable_iff JsonText.canonical_jsonText JsonText.compact_jsonText echoInner
      "w" _ (.ok (Json.number (.int 5))) hcolumn ?_).2.1
    rintro v j ⟨⟩ ⟨⟩
    exact ⟨rfl, SerdeJson.fromStr_toString _ (by decide), rfl⟩
  · refine (outcome_readable_iff JsonText.canonical_jsonText JsonText.compact_jsonText echoInner
      "w" _ boom hcolumn ?_).2.1
    rintro v j ⟨⟩

end Dbos

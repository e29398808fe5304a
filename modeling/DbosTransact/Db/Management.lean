import DbosTransact.Db.Workflows
import DbosTransact.Foundation.Window
import DbosTransact.JsonText
import DbosTransact.Serialize.Values

/-!
# Listing workflows

`list_workflows` builds its query from a filter with eleven optional parts. `conditions` is what it
pushes behind `WHERE`, part by part, and `Matches` what the parts say when each of them counts:
`matches_iff` says that the query keeps to it except on the rows of `Slips`, which a part excludes
that the query leaves out. A status list or an executor list that is empty is left out, and so is
the queue name when only workflows on a queue are asked for.

The rows come in the order of their creation, which leaves rows of the same millisecond in an order
of the server's own (`plan`). The offset and the limit then cut a window out of them, so a row that
slips in does not only appear itself, it pushes others out; `listWorkflows_iff` says exactly when
the list is the right one in spite of it.
-/

namespace Dbos

namespace WorkflowStatusType

theorem asStr_injective : Function.Injective asStr := by
  intro s t h
  cases s <;> cases t <;> first | rfl | cases (by decide : ¬ _) h

def fromStr : String → Option WorkflowStatusType
  | "PENDING" => some pending
  | "ENQUEUED" => some enqueued
  | "DELAYED" => some delayed
  | "SUCCESS" => some success
  | "ERROR" => some error
  | "CANCELLED" => some cancelled
  | "MAX_RECOVERY_ATTEMPTS_EXCEEDED" => some maxRecoveryAttemptsExceeded
  | _ => none

end WorkflowStatusType

/-- A workflow's status row, as returned by `list_workflows`. -/
structure WorkflowStatus where
  id : String
  status : WorkflowStatusType
  name : String
  queueName : Option String
  executorId : Option String
  applicationVersion : Option String
  recoveryAttempts : ℤ
  createdAt : ℤ
  updatedAt : ℤ
  completedAt : Option ℤ
  startedAt : Option ℤ
  priority : ℤ
  deduplicationId : Option String
  parentWorkflowId : Option String
  forkedFrom : Option String
  wasForkedFrom : Bool
  configName : Option String
  input : Option Json
  output : Option Json
  error : Option String

/-- Filters for `list_workflows`. -/
structure ListWorkflowsFilter where
  workflowIds : Option (List String) := none
  status : Option (List WorkflowStatusType) := none
  workflowName : Option String := none
  queueName : Option String := none
  /-- Only workflows that are on a queue. -/
  queuesOnly : Bool := false
  applicationVersion : Option String := none
  executorIds : Option (List String) := none
  /-- `created_at >= start_time`. -/
  startTime : Option ℤ := none
  /-- `created_at <= end_time`. -/
  endTime : Option ℤ := none
  limit : Option ℤ := none
  offset : Option ℤ := none
  sortDesc : Bool := false
  deriving DecidableEq, Repr

/-- A condition the query is built from. -/
inductive Condition
  /-- `workflow_uuid = ANY(ids)`. -/
  | uuidAny (ids : List String)
  /-- `status = ANY(names)`. -/
  | statusAny (names : List String)
  | nameIs (name : String)
  /-- `queue_name IS NOT NULL`. -/
  | onQueue
  | queueIs (queueName : String)
  | versionIs (version : String)
  /-- `executor_id = ANY(ids)`. -/
  | executorAny (ids : List String)
  | createdFrom (t : ℤ)
  | createdTo (t : ℤ)
  deriving DecidableEq, Repr

/-- Whether a row satisfies a condition. A column that is `NULL` equals nothing. -/
def Condition.holds (id : String) (r : WorkflowRow) : Condition → Bool
  | uuidAny ids => ids.contains id
  | statusAny names => names.contains r.status.asStr
  | nameIs name => r.name = name
  | onQueue => r.queueName.isSome
  | queueIs queueName => r.queueName = some queueName
  | versionIs version => r.applicationVersion = some version
  | executorAny ids => r.executorId.any fun e ↦ ids.contains e
  | createdFrom t => t ≤ r.createdAt
  | createdTo t => r.createdAt ≤ t

/-- The statuses of a live workflow. -/
def liveStatuses : List WorkflowStatusType := [.enqueued, .pending, .delayed]

namespace ListWorkflowsFilter

variable (f : ListWorkflowsFilter)

/-- `queues_only` with no status defaults to the live states. -/
def effectiveStatus : Option (List WorkflowStatusType) :=
  match f.queuesOnly, f.status with
  | true, none => some liveStatuses
  | _, _ => f.status

/-- The conditions of the query, in the order they are pushed. -/
def conditions : List Condition :=
  f.workflowIds.toList.map .uuidAny ++
  (f.effectiveStatus.filter fun statuses ↦ !statuses.isEmpty).toList.map
    (fun statuses ↦ .statusAny (statuses.map WorkflowStatusType.asStr)) ++
  f.workflowName.toList.map .nameIs ++
  (if f.queuesOnly then [.onQueue] else f.queueName.toList.map .queueIs) ++
  f.applicationVersion.toList.map .versionIs ++
  (f.executorIds.filter fun ids ↦ !ids.isEmpty).toList.map .executorAny ++
  f.startTime.toList.map .createdFrom ++
  f.endTime.toList.map .createdTo

/-- The `WHERE` clause of the query. -/
def admits (id : String) (r : WorkflowRow) : Bool := f.conditions.all (Condition.holds id r)

/-- The bounds of the window, which the server refuses when they are negative. -/
def bounds : Except SqlError (ℕ × Option ℕ) :=
  if f.offset.any fun o ↦ o < 0 then .error ⟨some "2201X", "OFFSET must not be negative"⟩
  else if f.limit.any fun l ↦ l < 0 then .error ⟨some "2201W", "LIMIT must not be negative"⟩
  else .ok ((f.offset.getD 0).toNat, f.limit.map Int.toNat)

/-- `ORDER BY created_at`: descending is ascending in the negated column. -/
def sortKey (e : String × WorkflowRow) : ℤ := if f.sortDesc then -e.2.createdAt else e.2.createdAt

/-- The order of the query, where the server's plan ranks rows of the same time. -/
def Ahead (plan : String → ℕ) (a b : String × WorkflowRow) : Prop :=
  f.sortKey a < f.sortKey b ∨ f.sortKey a = f.sortKey b ∧ plan a.1 ≤ plan b.1

instance (plan : String → ℕ) : DecidableRel (f.Ahead plan) := fun a b ↦ by
  unfold Ahead
  infer_instance

/-- All rows in the order of the query. -/
def arranged (plan : String → ℕ) (db : Db) : List (String × WorkflowRow) :=
  db.workflowStatus.rows.insertionSort (f.Ahead plan)

end ListWorkflowsFilter

/-- The rows the query of `list_workflows` returns. -/
def selectWorkflows (plan : String → ℕ) (db : Db) (f : ListWorkflowsFilter) :
    Except SqlError (List (String × WorkflowRow)) := do
  let (offset, limit) ← f.bounds
  return Window.window offset limit ((f.arranged plan db).filter fun e ↦ f.admits e.1 e.2)

/-! ### The filters as a conjunction -/

namespace ListWorkflowsFilter

variable (f : ListWorkflowsFilter)

/-- The row satisfies every filter that is set. -/
def Matches (id : String) (r : WorkflowRow) : Prop :=
  (∀ ids ∈ f.workflowIds, id ∈ ids) ∧
  (∀ statuses ∈ f.status, r.status ∈ statuses) ∧
  (∀ name ∈ f.workflowName, r.name = name) ∧
  (∀ queueName ∈ f.queueName, r.queueName = some queueName) ∧
  (f.queuesOnly = true → r.queueName.isSome = true ∧ (f.status = none → r.status ∈ liveStatuses)) ∧
  (∀ version ∈ f.applicationVersion, r.applicationVersion = some version) ∧
  (∀ ids ∈ f.executorIds, ∃ e ∈ r.executorId, e ∈ ids) ∧
  (∀ t ∈ f.startTime, t ≤ r.createdAt) ∧
  ∀ t ∈ f.endTime, r.createdAt ≤ t

instance (id : String) (r : WorkflowRow) : Decidable (f.Matches id r) := by
  unfold Matches
  infer_instance

/-- A filter that the query leaves out excludes the row: an empty list of statuses or executors, or
the queue name next to `queues_only`. -/
def Slips (r : WorkflowRow) : Prop :=
  f.status = some [] ∨ f.executorIds = some [] ∨
    f.queuesOnly = true ∧ ∃ queueName ∈ f.queueName, r.queueName ≠ some queueName

instance (r : WorkflowRow) : Decidable (f.Slips r) := by
  unfold Slips
  infer_instance

/-- The rows that satisfy every filter that is set, ordered by their creation and cut by offset and
limit; a negative bound cuts out nothing. -/
def listed (plan : String → ℕ) (db : Db) : Option (List (String × WorkflowRow)) :=
  f.bounds.toOption.map fun b ↦
    Window.window b.1 b.2 ((f.arranged plan db).filter fun e ↦ f.Matches e.1 e.2)

variable {f} {id : String} {r : WorkflowRow}

theorem all_map_toList {α : Type} {o : Option α} {c : α → Condition} {p : Condition → Bool} :
    (o.toList.map c).all p = true ↔ ∀ a ∈ o, p (c a) = true := by
  cases o <;> simp

/-- What the status condition of the query asks for. -/
theorem admits_status :
    ((f.effectiveStatus.filter fun statuses ↦ !statuses.isEmpty).toList.map
      (fun statuses ↦ Condition.statusAny (statuses.map WorkflowStatusType.asStr))).all
        (Condition.holds id r) = true ↔
      f.status = some [] ∨ (∀ statuses ∈ f.status, r.status ∈ statuses) ∧
        (f.queuesOnly = true → f.status = none → r.status ∈ liveStatuses) := by
  have hcontains : ∀ statuses : List WorkflowStatusType,
      (statuses.map WorkflowStatusType.asStr).contains r.status.asStr = true ↔
        r.status ∈ statuses := fun statuses ↦ by
    rw [List.contains_iff_mem, List.mem_map_of_injective WorkflowStatusType.asStr_injective]
  rw [all_map_toList]
  simp only [Condition.holds, hcontains, effectiveStatus]
  rcases hstatus : f.status with - | (- | ⟨s, statuses⟩) <;> cases hqueues : f.queuesOnly <;>
    simp [liveStatuses]

/-- What the queue conditions of the query ask for. -/
theorem admits_queue :
    (if f.queuesOnly then [Condition.onQueue] else f.queueName.toList.map .queueIs).all
        (Condition.holds id r) = true ↔
      (f.queuesOnly = true → r.queueName.isSome = true) ∧
        (f.queuesOnly = false → ∀ queueName ∈ f.queueName, r.queueName = some queueName) := by
  cases f.queuesOnly with
  | true => simp [Condition.holds]
  | false => simp [Condition.holds]

/-- What the executor condition of the query asks for. -/
theorem admits_executor :
    ((f.executorIds.filter fun ids ↦ !ids.isEmpty).toList.map Condition.executorAny).all
        (Condition.holds id r) = true ↔
      f.executorIds = some [] ∨ ∀ ids ∈ f.executorIds, ∃ e ∈ r.executorId, e ∈ ids := by
  rw [all_map_toList]
  rcases f.executorIds with - | (- | ⟨e, ids⟩) <;> simp [Condition.holds, Option.any_eq_true]

/-- The query keeps to its filter except on the rows that slip in. -/
theorem matches_iff : f.Matches id r ↔ f.admits id r = true ∧ ¬ f.Slips r := by
  rw [admits, conditions]
  simp only [List.all_append, Bool.and_eq_true, admits_status, admits_queue, admits_executor]
  simp only [all_map_toList, Condition.holds, Matches, Slips, List.contains_iff_mem,
    decide_eq_true_eq]
  constructor
  · rintro ⟨hids, hstatus, hname, hqueue, hqueues, hversion, hexec, hfrom, hto⟩
    refine ⟨⟨⟨⟨⟨⟨⟨⟨hids, Or.inr ⟨hstatus, fun h ↦ (hqueues h).2⟩⟩, hname⟩,
      fun h ↦ (hqueues h).1, fun _ ↦ hqueue⟩, hversion⟩, Or.inr hexec⟩, hfrom⟩, hto⟩, ?_⟩
    rintro (hnil | hnil | ⟨-, q, hq, hne⟩)
    · cases hstatus [] hnil
    · obtain ⟨e, -, he⟩ := hexec [] hnil
      cases he
    · exact hne (hqueue q hq)
  · rintro ⟨⟨⟨⟨⟨⟨⟨⟨hids, hstatus⟩, hname⟩, hqueues, hqueue⟩, hversion⟩, hexec⟩, hfrom⟩, hto⟩,
      hslips⟩
    obtain ⟨hstatus, hlive⟩ := hstatus.resolve_left fun h ↦ hslips (Or.inl h)
    refine ⟨hids, hstatus, hname, fun q hq ↦ ?_, fun h ↦ ⟨hqueues h, hlive h⟩, hversion,
      hexec.resolve_left fun h ↦ hslips (Or.inr (Or.inl h)), hfrom, hto⟩
    cases honly : f.queuesOnly with
    | true => exact by_contra fun hne ↦ hslips (Or.inr (Or.inr ⟨honly, q, hq, hne⟩))
    | false => exact hqueue honly q hq

theorem arranged_perm (f : ListWorkflowsFilter) (plan : String → ℕ) (db : Db) :
    (f.arranged plan db).Perm db.workflowStatus.rows :=
  List.perm_insertionSort _ _

/-- No workflow stands twice in the order. -/
theorem nodup_arranged (f : ListWorkflowsFilter) (plan : String → ℕ) (db : Db) :
    ((f.arranged plan db).map Prod.fst).Nodup :=
  ((f.arranged_perm plan db).map Prod.fst).nodup_iff.2 db.workflowStatus.nodup_keys

/-- The rows of the query without its window. -/
def admitted (f : ListWorkflowsFilter) (plan : String → ℕ) (db : Db) :
    List (String × WorkflowRow) :=
  (f.arranged plan db).filter fun e ↦ f.admits e.1 e.2

theorem length_admitted (f : ListWorkflowsFilter) (plan : String → ℕ) (db : Db) :
    (f.admitted plan db).length = db.workflowStatus.count f.admits := by
  rw [Table.count_eq_length_select, Table.select, admitted]
  exact ((f.arranged_perm plan db).filter _).length_eq

/-- The rows that match are those admitted that do not slip in. -/
theorem filter_matches (f : ListWorkflowsFilter) (plan : String → ℕ) (db : Db) :
    (f.arranged plan db).filter (fun e ↦ f.Matches e.1 e.2) =
      (f.admitted plan db).filter fun e ↦ !decide (f.Slips e.2) := by
  rw [admitted, List.filter_filter]
  refine List.filter_congr fun e _ ↦ ?_
  rw [Bool.eq_iff_iff, decide_eq_true_eq, matches_iff, Bool.and_eq_true, Bool.not_eq_true',
    decide_eq_false_iff_not, and_comm]

/-- Nothing that slips in comes before the end of the window, unless the window is empty. -/
def NothingSlips (f : ListWorkflowsFilter) (plan : String → ℕ) (db : Db) : Prop :=
  ∀ b ∈ f.bounds.toOption, b.2 = some 0 ∨ db.workflowStatus.count f.admits ≤ b.1 ∨
    ∀ e ∈ Window.reach b.1 b.2 (f.admitted plan db), ¬ f.Slips e.2

end ListWorkflowsFilter

section

variable [SerdeJson]

/-- A stored text as JSON; `None` when it is absent or cannot be decoded. -/
def decodeValueOpt (s ser : Option String) : Option Json :=
  s.bind fun _ ↦ (decodeValue Json s ser).toOption

def decodeInputOpt (s ser : Option String) : Option Json :=
  s.bind fun _ ↦ (decodeInput Json s ser).toOption

def WorkflowRow.toStatus (id : String) (r : WorkflowRow) : WorkflowStatus where
  id := id
  status := r.status
  name := r.name
  queueName := r.queueName
  executorId := r.executorId
  applicationVersion := r.applicationVersion
  recoveryAttempts := r.recoveryAttempts
  createdAt := r.createdAt
  updatedAt := r.updatedAt
  completedAt := r.completedAt
  startedAt := r.startedAtEpochMs
  priority := r.priority
  deduplicationId := r.deduplicationId
  parentWorkflowId := r.parentWorkflowId
  forkedFrom := r.forkedFrom
  wasForkedFrom := r.wasForkedFrom
  configName := r.configName
  input := decodeInputOpt r.inputs r.serialization
  output := decodeValueOpt r.output r.serialization
  error := r.error

/-- `list_workflows` on the database `db`. -/
def listWorkflows (plan : String → ℕ) (db : Db) (f : ListWorkflowsFilter) :
    Except DbosError (List WorkflowStatus) :=
  match selectWorkflows plan db f with
  | .ok rows => .ok (rows.map fun e ↦ e.2.toStatus e.1)
  | .error e => .error (.ofSql e)

/-- **The list of workflows.** The rows returned are those that satisfy every filter that is set,
ordered by their creation and cut by offset and limit, exactly when nothing slips in. -/
theorem listWorkflows_iff (plan : String → ℕ) (db : Db) (f : ListWorkflowsFilter) :
    (listWorkflows plan db f).toOption =
        (f.listed plan db).map (List.map fun e ↦ e.2.toStatus e.1) ↔ f.NothingSlips plan db := by
  rw [listWorkflows, selectWorkflows, ListWorkflowsFilter.listed, ListWorkflowsFilter.NothingSlips]
  rcases hb : f.bounds with e | ⟨offset, limit⟩
  · exact iff_of_true rfl (by simp [Except.toOption])
  · have hnd := f.nodup_arranged plan db
    have hinj := List.inj_on_of_nodup_map hnd
    have hsub : (f.admitted plan db).Sublist (f.arranged plan db) := List.filter_sublist
    -- the ids tell the rows apart
    have hmap : (Window.window offset limit (f.admitted plan db)).map
          (fun e ↦ e.2.toStatus e.1) = (Window.window offset limit
            ((f.admitted plan db).filter fun e ↦ !decide (f.Slips e.2))).map
              (fun e ↦ e.2.toStatus e.1) ↔
        Window.window offset limit (f.admitted plan db) = Window.window offset limit
          ((f.admitted plan db).filter fun e ↦ !decide (f.Slips e.2)) := by
      refine ⟨fun h ↦ Window.eq_of_map_eq h fun a ha b hb hab ↦ ?_, fun h ↦ by rw [h]⟩
      refine hinj (hsub.subset ((Window.window_sublist _ _ _).subset ha))
        (hsub.subset (List.filter_sublist.subset ((Window.window_sublist _ _ _).subset hb))) ?_
      exact congrArg WorkflowStatus.id hab
    have hwindow : Window.window offset limit (f.admitted plan db) = Window.window offset limit
          ((f.admitted plan db).filter fun e ↦ !decide (f.Slips e.2)) ↔
        Window.window offset limit (f.admitted plan db) = [] ∨
          ∀ e ∈ Window.reach offset limit (f.admitted plan db), (!decide (f.Slips e.2)) = true :=
      Window.window_filter_iff ((hnd.of_map _).sublist hsub)
    rw [Window.window_eq_nil_iff, ListWorkflowsFilter.length_admitted, or_assoc] at hwindow
    show some (List.map _ (Window.window offset limit (f.admitted plan db))) =
        some (List.map _ (Window.window offset limit _)) ↔ ∀ b ∈ some (offset, limit), _
    rw [Option.some_inj, ListWorkflowsFilter.filter_matches, hmap, hwindow]
    simp only [Bool.not_eq_true', decide_eq_false_iff_not]
    constructor
    · rintro h b ⟨⟩
      exact h
    · exact fun h ↦ h _ rfl

end

/-- A database with one workflow, on the queue `q`, that has come to its end. -/
def oneFinished : Db :=
  { workflowStatus := Table.set ∅ "w" (some (InsertWorkflowInput.row
      { workflowId := "w", status := .success, name := "f", queueName := some "q", createdAt := 0,
        updatedAt := 0, recoveryAttempts := 1, ownerXid := "x" })) }

local instance managementJson : SerdeJson := JsonText.jsonText

/-- An empty list of statuses lists everything. -/
theorem listWorkflows_empty_status : ∃ (plan : String → ℕ) (db : Db) (f : ListWorkflowsFilter),
    f.status = some [] ∧ f.bounds.toOption = some (0, none) ∧
    (listWorkflows plan db f).toOption ≠
      (f.listed plan db).map (List.map fun e ↦ e.2.toStatus e.1) := by
  refine ⟨fun _ ↦ 0, oneFinished, { status := some [] }, rfl, rfl, fun h ↦ ?_⟩
  have hlength := congrArg (Option.map List.length) h
  have hlisted : (listWorkflows (fun _ ↦ 0) oneFinished { status := some [] }).toOption.map
      List.length = some 1 := by decide +kernel
  have hmatching : ((ListWorkflowsFilter.listed { status := some [] } (fun _ ↦ 0)
      oneFinished).map (List.map fun e ↦ e.2.toStatus e.1)).map List.length = some 0 := by
    decide +kernel
  rw [hlisted, hmatching] at hlength
  cases hlength

section

variable [SerdeJson]

/-- The filter of `cancel_all_before`. -/
def cancelAllBeforeFilter (cutoffEpochMs : ℤ) : ListWorkflowsFilter :=
  { status := some [.pending, .enqueued, .delayed], endTime := some cutoffEpochMs }

/-- The workflows `cancel_all_before` selects are the live ones created at or before the cutoff. -/
theorem mem_cancelAllBefore (plan : String → ℕ) (db : Db) (cutoffEpochMs : ℤ) :
    ∃ workflows, listWorkflows plan db (cancelAllBeforeFilter cutoffEpochMs) = .ok workflows ∧
      ∀ id, id ∈ workflows.map WorkflowStatus.id ↔ ∃ r, db.workflow id = some r ∧
        r.status.isTerminal = false ∧ r.createdAt ≤ cutoffEpochMs := by
  refine ⟨_, rfl, fun id ↦ ?_⟩
  have hmatches : ∀ r : WorkflowRow, (cancelAllBeforeFilter cutoffEpochMs).admits id r = true ↔
      r.status.isTerminal = false ∧ r.createdAt ≤ cutoffEpochMs := fun r ↦ by
    have hslips : ¬ (cancelAllBeforeFilter cutoffEpochMs).Slips r := by
      simp [ListWorkflowsFilter.Slips, cancelAllBeforeFilter]
    rw [← and_iff_left (a := _ = true) hslips, ← ListWorkflowsFilter.matches_iff]
    simp only [ListWorkflowsFilter.Matches, cancelAllBeforeFilter]
    cases r.status <;> simp [WorkflowStatusType.isTerminal]
  show id ∈ (((cancelAllBeforeFilter cutoffEpochMs).admitted plan db).map fun e ↦
    e.2.toStatus e.1).map WorkflowStatus.id ↔ _
  rw [List.map_map, List.mem_map]
  simp only [ListWorkflowsFilter.admitted, List.mem_filter,
    (ListWorkflowsFilter.arranged_perm _ _ _).mem_iff]
  constructor
  · rintro ⟨⟨w, r⟩, ⟨hmem, hadmits⟩, rfl⟩
    exact ⟨r, Table.mem_rows_iff.1 hmem, (hmatches r).1 hadmits⟩
  · rintro ⟨r, hr, hlive⟩
    exact ⟨(id, r), ⟨Table.mem_rows_iff.2 hr, (hmatches r).2 hlive⟩, rfl⟩

end

/-! ### The filters of the control plane -/

namespace Conductor

/-- A field that may be a single string or an array of strings. -/
def stringList : Option Json → List String
  | some (.string s) => [s]
  | some (.array items) => items.filterMap fun v ↦ match v with
    | .string s => some s
    | _ => none
  | _ => []

def arrayOrNone (v : Option Json) : Option (List String) :=
  if (stringList v).isEmpty then none else some (stringList v)

def firstString (v : Option Json) : Option String := (stringList v).head?

def statusList (v : Option Json) : Option (List WorkflowStatusType) :=
  if (stringList v).isEmpty then none
  else some ((stringList v).filterMap WorkflowStatusType.fromStr)

/-- `Value::as_i64`. -/
def asI64? : Json → Option ℤ
  | .number (.int n) => if asI64 n = n then some n else none
  | _ => none

/-- `Value::as_bool`. -/
def asBool? : Json → Option Bool
  | .bool b => some b
  | _ => none

/-- `parse_list_filter`, where `isoToMs` reads a time stamp. -/
def parseListFilter (isoToMs : Option Json → Option ℤ) (body : Option Json) (queuesOnly : Bool) :
    ListWorkflowsFilter :=
  let b := body.getD .null
  { workflowIds := arrayOrNone (b.get "workflow_uuids")
    status := statusList (b.get "status")
    workflowName := firstString (b.get "workflow_name")
    queueName := firstString (b.get "queue_name")
    queuesOnly := queuesOnly || ((b.get "queues_only").bind asBool?).getD false
    applicationVersion := firstString (b.get "application_version")
    executorIds := arrayOrNone (b.get "executor_id")
    startTime := isoToMs (b.get "start_time")
    endTime := isoToMs (b.get "end_time")
    limit := (b.get "limit").bind asI64?
    offset := (b.get "offset").bind asI64?
    sortDesc := ((b.get "sort_desc").bind asBool?).getD false }

/-- Names that are all unknown make a status list that is set and empty. -/
theorem statusList_eq_nil_iff {v : Option Json} : statusList v = some [] ↔
    stringList v ≠ [] ∧ ∀ s ∈ stringList v, WorkflowStatusType.fromStr s = none := by
  rw [statusList]
  split
  · rename_i hnil
    simp [List.isEmpty_iff.1 hnil]
  · rename_i hne
    rw [Option.some_inj, List.filterMap_eq_nil_iff]
    exact (and_iff_right fun h ↦ hne (List.isEmpty_iff.2 h)).symm

/-- A list of executors that comes over the wire is never set and empty. -/
theorem arrayOrNone_ne_nil (v : Option Json) : arrayOrNone v ≠ some [] := by
  rw [arrayOrNone]
  split
  · exact fun h ↦ nomatch h
  · rename_i hne
    exact fun h ↦ hne (List.isEmpty_iff.2 (Option.some_inj.1 h))

/-- What slips into a list that the control plane asks for: everything, when no name in its status
list is one, and workflows on other queues, when it asks for queued workflows of one queue. -/
theorem parseListFilter_slips {isoToMs : Option Json → Option ℤ} {body : Option Json}
    {queuesOnly : Bool} {r : WorkflowRow} :
    (parseListFilter isoToMs body queuesOnly).Slips r ↔
      (stringList ((body.getD .null).get "status") ≠ [] ∧
        ∀ s ∈ stringList ((body.getD .null).get "status"),
          WorkflowStatusType.fromStr s = none) ∨
      (parseListFilter isoToMs body queuesOnly).queuesOnly = true ∧
        ∃ queueName ∈ firstString ((body.getD .null).get "queue_name"),
          r.queueName ≠ some queueName := by
  rw [ListWorkflowsFilter.Slips, ← statusList_eq_nil_iff]
  refine or_congr_right (or_iff_right ?_)
  exact arrayOrNone_ne_nil _

end Conductor

end Dbos

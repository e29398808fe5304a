import DbosTransact.Db.Management

/-!
# Listing workflows page by page

A client that lists workflows in pages of `p` rows sends one query a page, with offsets `0`, `p`,
`2p` and so on, until one comes back empty. The queries order by the time of creation alone, so the
server may return workflows of the same millisecond in another order each time.

`listPages_iff` says when every workflow that matches is listed exactly once, whatever these orders
are: when no page ends between it and another listed workflow of the same millisecond.
-/

namespace Dbos

section

variable [SerdeJson]

/-- The filter of page `k`. -/
def ListWorkflowsFilter.page (f : ListWorkflowsFilter) (p k : ℕ) : ListWorkflowsFilter :=
  { f with limit := some (p : ℤ), offset := some ((k * p : ℕ) : ℤ) }

/-- What a client has seen that asks for page after page until one is empty. The query of page `k`
is planned by `plan k`. -/
def ListPages (plan : ℕ → String → ℕ) (db : Db) (f : ListWorkflowsFilter) (p : ℕ)
    (seen : List WorkflowStatus) : Prop :=
  ∃ (n : ℕ) (rows : ℕ → List WorkflowStatus),
    (∀ k, listWorkflows (plan k) db (f.page p k) = .ok (rows k)) ∧ (∀ k < n, rows k ≠ []) ∧
    rows n = [] ∧ seen = (List.range n).flatMap rows

/-- No page ends between the workflow and another listed one of the same millisecond. -/
def ListWorkflowsFilter.Fits (f : ListWorkflowsFilter) (p : ℕ) (db : Db)
    (e : String × WorkflowRow) : Prop :=
  Window.Fits f.sortKey p (db.workflowStatus.select f.admits) e

variable {plan : ℕ → String → ℕ} {db : Db} {f : ListWorkflowsFilter} {p : ℕ}

/-- A page of the list is a page of the rows that are listed. -/
theorem listWorkflows_page (plan : String → ℕ) (db : Db) (f : ListWorkflowsFilter) (p k : ℕ) :
    listWorkflows plan db (f.page p k) = .ok ((Window.page p k (f.admitted plan db)).map
      fun e ↦ e.2.toStatus e.1) := by
  have hoffset : ¬ ((k * p : ℕ) : ℤ) < 0 := by omega
  have hlimit : ¬ (p : ℤ) < 0 := by omega
  have hbounds : (f.page p k).bounds = .ok (k * p, some p) := by
    rw [ListWorkflowsFilter.bounds, ListWorkflowsFilter.page, Option.any_some, Option.any_some,
      decide_eq_false hoffset, decide_eq_false hlimit]
    rfl
  rw [listWorkflows, selectWorkflows, hbounds]
  rfl

theorem listPages_iff_paged {seen : List WorkflowStatus} : ListPages plan db f p seen ↔
    ∃ rows, Window.Paged p (fun k ↦ f.admitted (plan k) db) rows ∧
      seen = rows.map fun e ↦ e.2.toStatus e.1 := by
  constructor
  · rintro ⟨n, pages, hpages, hfull, hempty, rfl⟩
    have heq : ∀ k, pages k = (Window.page p k (f.admitted (plan k) db)).map
        fun e ↦ e.2.toStatus e.1 := fun k ↦
      (Except.ok.inj ((listWorkflows_page (plan k) db f p k).symm.trans (hpages k))).symm
    refine ⟨_, ⟨n, fun k hk ↦ ?_, ?_, rfl⟩, ?_⟩
    · have hne := hfull k hk
      rw [heq, ne_eq, List.map_eq_nil_iff] at hne
      exact hne
    · rw [heq, List.map_eq_nil_iff] at hempty
      exact hempty
    · rw [List.map_flatMap, funext heq]
  · rintro ⟨-, ⟨n, hfull, hempty, rfl⟩, rfl⟩
    refine ⟨n, _, fun k ↦ listWorkflows_page (plan k) db f p k, fun k hk ↦ ?_, ?_, ?_⟩
    · rw [ne_eq, List.map_eq_nil_iff]
      exact hfull k hk
    · rw [hempty, List.map_nil]
    · rw [List.map_flatMap]

/-! ### The orders the server may choose -/

omit [SerdeJson]

theorem pairwise_admitted (f : ListWorkflowsFilter) (plan : String → ℕ) (db : Db) :
    (f.admitted plan db).Pairwise (f.Ahead plan) := by
  have htotal : Std.Total (f.Ahead plan) := ⟨fun a b ↦ by
    unfold ListWorkflowsFilter.Ahead
    omega⟩
  have htrans : IsTrans _ (f.Ahead plan) := ⟨fun a b c ↦ by
    unfold ListWorkflowsFilter.Ahead
    omega⟩
  exact List.Pairwise.filter _ (List.pairwise_insertionSort (f.Ahead plan) _)

/-- The rows that are listed stand in an order that the times of creation allow. -/
theorem arrangement_admitted (f : ListWorkflowsFilter) (plan : String → ℕ) (db : Db) :
    Window.Arrangement f.sortKey (db.workflowStatus.select f.admits) (f.admitted plan db) :=
  ⟨(f.arranged_perm plan db).filter _, (pairwise_admitted f plan db).imp fun h ↦
    h.elim le_of_lt fun h ↦ h.1.le⟩

/-- Every such order is one the server may choose. -/
theorem exists_plan {l : List (String × WorkflowRow)}
    (h : Window.Arrangement f.sortKey (db.workflowStatus.select f.admits) l) :
    ∃ plan, f.admitted plan db = l := by
  have hperm :=
    (arrangement_admitted f (fun w ↦ (l.map Prod.fst).idxOf w) db).perm.trans h.perm.symm
  have hnd : (l.map Prod.fst).Nodup :=
    (h.perm.map _).nodup_iff.2 (Table.nodup_select_keys _ _)
  refine ⟨fun w ↦ (l.map Prod.fst).idxOf w,
    hperm.eq_of_pairwise (fun a b ha hb hab hba ↦ ?_) (pairwise_admitted f _ db) ?_⟩
  · -- rows of the same time are told apart by their places
    have hplace : (l.map Prod.fst).idxOf a.1 = (l.map Prod.fst).idxOf b.1 := by
      rcases hab with hlt | ⟨heq, hle⟩ <;> rcases hba with hlt' | ⟨heq', hle'⟩
      · exact (lt_asymm hlt hlt').elim
      · exact (hlt.ne' heq').elim
      · exact (hlt'.ne' heq).elim
      · exact le_antisymm hle hle'
    have hid := (List.idxOf_inj (List.mem_map_of_mem (hperm.mem_iff.1 ha))).1 hplace
    exact List.inj_on_of_nodup_map hnd (hperm.mem_iff.1 ha) hb hid
  · refine List.pairwise_iff_getElem.2 fun i j hi hj hij ↦ ?_
    have hidx : ∀ (k : ℕ) (hk : k < l.length), (l.map Prod.fst).idxOf l[k].1 = k := fun k hk ↦ by
      have := hnd.idxOf_getElem k (by rwa [List.length_map])
      rwa [List.getElem_map] at this
    have hle := List.pairwise_iff_getElem.1 h.sorted i j hi hj hij
    rcases hle.lt_or_eq with hlt | heq
    · exact Or.inl hlt
    · refine Or.inr ⟨heq, ?_⟩
      show (l.map Prod.fst).idxOf l[i].1 ≤ (l.map Prod.fst).idxOf l[j].1
      rw [hidx i hi, hidx j hj]
      exact hij.le

/-- A row is among the rows a client has seen as often as its id among their ids. -/
theorem count_ids {rows : List (String × WorkflowRow)} {e : String × WorkflowRow}
    (hrows : ∀ x ∈ rows, x ∈ db.workflowStatus.rows) (he : e ∈ db.workflowStatus.rows) :
    (rows.map Prod.fst).count e.1 = rows.count e := by
  have hinj := List.inj_on_of_nodup_map db.workflowStatus.nodup_keys
  rw [List.count, List.count, List.countP_map]
  refine List.countP_congr fun x hx ↦ ?_
  rw [Function.comp_apply, beq_iff_eq, beq_iff_eq]
  exact ⟨fun h ↦ hinj (hrows x hx) he h, fun h ↦ congrArg Prod.fst h⟩

/-- Every page of a paged list has rows of its arrangement. -/
theorem mem_of_paged {L : ℕ → List (String × WorkflowRow)} {rows : List (String × WorkflowRow)}
    (h : Window.Paged p L rows) {x : String × WorkflowRow} (hx : x ∈ rows) : ∃ k, x ∈ L k := by
  obtain ⟨n, -, -, rfl⟩ := h
  obtain ⟨k, -, hk⟩ := List.mem_flatMap.1 hx
  exact ⟨k, (Window.window_sublist _ _ _).subset hk⟩

variable [SerdeJson]

/-- **Page by page.** Whatever orders the server chooses, a client comes to an empty page and has
then seen every workflow that matches exactly once, exactly when no page ends between such a
workflow and another listed one of the same millisecond. -/
theorem listPages_iff (f : ListWorkflowsFilter) (db : Db) {p : ℕ} (hp : 0 < p) :
    (∀ plan, (∃ seen, ListPages plan db f p seen) ∧ ∀ seen, ListPages plan db f p seen →
      ∀ id r, db.workflow id = some r → f.Matches id r →
        (seen.map WorkflowStatus.id).count id = 1) ↔
      ∀ id r, db.workflow id = some r → f.Matches id r → f.Fits p db (id, r) := by
  have hnd : (db.workflowStatus.select f.admits).Nodup :=
    (Table.nodup_select_keys _ _).of_map _
  have hselect : ∀ {id r}, db.workflow id = some r → f.Matches id r →
      (id, r) ∈ db.workflowStatus.select f.admits := fun hr hmatches ↦
    Table.mem_select_iff.2 ⟨hr, (ListWorkflowsFilter.matches_iff.1 hmatches).1⟩
  -- the ids a client has seen count its rows
  have hcount :
      ∀ {plan : ℕ → String → ℕ} {rows id r}, Window.Paged p (fun k ↦ f.admitted (plan k) db) rows →
      db.workflow id = some r →
      ((rows.map fun e ↦ e.2.toStatus e.1).map WorkflowStatus.id).count id =
        rows.count (id, r) := by
    intro plan rows id r hpaged hr
    rw [List.map_map]
    refine count_ids (e := (id, r)) (fun x hx ↦ ?_) (Table.mem_rows_iff.2 hr)
    obtain ⟨k, hk⟩ := mem_of_paged hpaged hx
    exact (f.arranged_perm (plan k) db).mem_iff.1 (List.mem_of_mem_filter hk)
  constructor
  · intro h id r hr hmatches
    by_contra hfits
    obtain ⟨L, hL, htwice⟩ := Window.exists_repeated hfits (hselect hr hmatches) hp hnd
    choose plan hplan using fun k ↦ exists_plan (hL k)
    obtain ⟨⟨seen, hseen⟩, hone⟩ := h plan
    have hone := hone seen hseen id r hr hmatches
    obtain ⟨rows, hpaged, rfl⟩ := listPages_iff_paged.1 hseen
    rw [hcount hpaged hr] at hone
    have htwo := htwice rows (by rwa [funext hplan] at hpaged)
    omega
  · refine fun h plan ↦ ⟨?_, fun seen hseen id r hr hmatches ↦ ?_⟩
    · obtain ⟨n, hfull, hempty⟩ := Window.exists_paged hp fun k ↦
        (arrangement_admitted f (plan k) db).perm.length_eq
      exact ⟨_, listPages_iff_paged.2 ⟨_, ⟨n, hfull, hempty, rfl⟩, rfl⟩⟩
    · obtain ⟨rows, hpaged, rfl⟩ := listPages_iff_paged.1 hseen
      rw [hcount hpaged hr]
      exact (h id r hr hmatches).paged (hselect hr hmatches) hp hnd
        (fun k ↦ arrangement_admitted f (plan k) db) hpaged

end

/-! ### Two workflows of one millisecond -/

section

local instance pagesJson : SerdeJson := JsonText.jsonText

instance (f : ListWorkflowsFilter) (p : ℕ) (db : Db) (e : String × WorkflowRow) :
    Decidable (f.Fits p db e) :=
  inferInstanceAs (Decidable (_ = _))

/-- A row of a workflow that has come to its end. -/
def finishedRow (id : String) (createdAt : ℤ) : WorkflowRow :=
  InsertWorkflowInput.row
    { workflowId := id, status := .success, name := "f", createdAt := createdAt,
      updatedAt := createdAt, recoveryAttempts := 1, ownerXid := "x" }

/-- Two workflows created at the same time. -/
def twins : Db :=
  { workflowStatus := (Table.set ∅ "a" (some (finishedRow "a" 0))).set "b"
      (some (finishedRow "b" 0)) }

/-- The server returns `a` first, and later `b`. -/
def turnedAround (k : ℕ) (id : String) : ℕ := if id = "a" then k else 1 - k

/-- In pages of one row a client may see one of them twice and the other never. -/
theorem listPages_repeats : ∃ seen, ListPages turnedAround twins {} 1 seen ∧
    (twins.workflow "b").isSome = true ∧ seen.map WorkflowStatus.id = ["a", "a"] := by
  refine ⟨_, listPages_iff_paged.2 ⟨_, ⟨2, ?_, ?_, rfl⟩, rfl⟩, by decide +kernel, ?_⟩
  · decide +kernel
  · decide +kernel
  · rw [List.map_map]
    decide +kernel

/-- In pages of two rows it sees both. -/
theorem listPages_iff_twins : (∃ seen, ListPages (fun _ _ ↦ 0) twins {} 2 seen) ∧
    ∀ seen, ListPages (fun _ _ ↦ 0) twins {} 2 seen →
      ∀ id r, twins.workflow id = some r → ListWorkflowsFilter.Matches {} id r →
        (seen.map WorkflowStatus.id).count id = 1 := by
  have hfits : ∀ e ∈ twins.workflowStatus.rows, ListWorkflowsFilter.Fits {} 2 twins e := by
    decide +kernel
  refine (listPages_iff {} twins two_pos).2 (fun id r hr _ ↦ ?_) fun _ _ ↦ 0
  exact hfits (id, r) (Table.mem_rows_iff.2 hr)

end

end Dbos

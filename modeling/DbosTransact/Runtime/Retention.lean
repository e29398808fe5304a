import DbosTransact.Db.Alone
import DbosTransact.Db.Pages
import DbosTransact.Foundation.Window
import DbosTransact.Runtime.Collect

/-!
# The bounds of a collection

What one call of `garbage_collect` removes when nobody disturbs it: the terminal workflows created
before the given cutoff, and those created before the `n`-th newest workflow, where workflows of
every status count. The row bound is turned into a timestamp by a query of its own; `nthNewest` is
that timestamp, and `Window.Arrangement` the ways in which workflows of one millisecond can be
ordered.
-/

namespace Dbos

open Txn

/-- When the `n`-th newest workflow was created, workflows of every status counted. -/
def nthNewest (db : Db) (n : ℤ) : Option ℤ :=
  ((db.workflowStatus.rows.map fun e ↦ e.2.createdAt).insertionSort fun a b ↦ b ≤ a)[(n - 1).toNat]?

/-- The workflows a collection is to remove. -/
def Collected (cutoff rowsThreshold : Option ℤ) (db : Db) (id : String) : Prop :=
  ∃ r, db.workflow id = some r ∧ r.status.isTerminal = true ∧
    ((∃ c ∈ cutoff, r.createdAt < c) ∨
      ∃ n ∈ rowsThreshold, ∃ t ∈ nthNewest db n, r.createdAt < t)

/-- The rows of these workflows are gone, and all others are as they were. -/
structure Removes (ids : String → Prop) (db db' : Db) : Prop where
  gone : ∀ k r, db.look k = some r → ids (workflowOf k r) → db'.look k = none
  kept : ∀ k, (∀ r, db.look k = some r → ¬ ids (workflowOf k r)) → db'.look k = db.look k

/-- The order of the workflows by age, the newest first. -/
abbrev NewestFirst (db : Db) : List (String × WorkflowRow) → Prop :=
  Window.Arrangement (fun e ↦ -e.2.createdAt) db.workflowStatus.rows

section

variable {valid : DbMoment → (q : Ask) → q.Ans → Bool} {cutoff rowsThreshold : Option ℤ}
variable {m : DbMoment} {db db' : Db}

/-! ### The cutoff -/

/-- A row is older than the cutoff of a collection when it is older than one of its bounds. -/
theorem lt_effectiveCutoff (hpos : ∀ n ∈ rowsThreshold, 0 < n) {t : ℤ} :
    (∃ cut ∈ effectiveCutoff cutoff rowsThreshold db, t < cut) ↔
      (∃ c ∈ cutoff, t < c) ∨ ∃ n ∈ rowsThreshold, ∃ c ∈ nthNewest db n, t < c := by
  cases rowsThreshold with
  | none => simp [effectiveCutoff]
  | some n =>
    rw [effectiveCutoff_of_pos cutoff (hpos n rfl), ← nthNewest]
    cases hnth : nthNewest db n <;> cases cutoff <;> simp [hnth]

/-- The rows a collection may remove are those of terminal workflows. -/
theorem WorkflowRow.collectable_iff {r : WorkflowRow} {cut : ℤ} :
    r.collectable cut = true ↔ r.status.isTerminal = true ∧ r.createdAt < cut := by
  rw [collectable, Bool.and_eq_true, decide_eq_true_eq, and_comm]
  refine and_congr_left fun _ ↦ ?_
  cases r.status <;> simp [WorkflowStatusType.isTerminal, WorkflowStatusType.isQueued]

/-- The cutoff of a collection comes from the state it finds. -/
theorem aloneM_collectionCutoff {α : Type} {f : Option ℤ → DbosM α}
    {Q : α → DbConn → DbMoment → Prop} (h : ∀ m', m'.db = m.db →
      aloneM valid (f (effectiveCutoff cutoff rowsThreshold m.db)) Q .idle m') :
    aloneM valid (collectionCutoff cutoff rowsThreshold >>= f) Q .idle m := by
  cases rowsThreshold with
  | none => exact h m rfl
  | some n =>
    rw [collectionCutoff]
    by_cases hn : 0 < n
    · rw [if_pos hn, bind_assoc]
      refine aloneM_query_idle fun v hcalm hcur ↦ ⟨_, _, rfl, fun m' hm ↦ ?_⟩
      have hcut := h (m'.after server (store.record (.selectCreatedAt (n - 1).toNat) m.db []))
        hm.2.symm
      rw [effectiveCutoff_of_pos cutoff hn] at hcut
      rw [hcalm.base, hcur]
      split at hcut
      · rename_i hread
        rw [hread]
        exact hcut
      · rename_i hread
        rw [hread]
        exact hcut
    · rw [if_neg hn]
      have hcut := h m rfl
      rwa [effectiveCutoff, if_neg hn] at hcut

/-! ### The deletion -/

/-- Every row of a deleted workflow goes with it. -/
theorem Stmt.mem_cascade_of {ids : List String} {k : Key} {r : Row k} (hr : db.look k = some r)
    (hid : workflowOf k r ∈ ids) : k ∈ cascade db ids := by
  have hcontains := List.contains_iff_mem.2 hid
  simp only [cascade, List.mem_append, List.mem_map]
  cases k with
  | workflowStatus w =>
    exact Or.inl (Or.inl (Or.inl (Or.inl (Or.inl ⟨(w, r), Table.mem_select_iff.2 ⟨hr, hcontains⟩,
      rfl⟩))))
  | operationOutputs w n =>
    exact Or.inl (Or.inl (Or.inl (Or.inl (Or.inr ⟨((w, n), r),
      Table.mem_select_iff.2 ⟨hr, hcontains⟩, rfl⟩))))
  | notifications w =>
    exact Or.inl (Or.inl (Or.inl (Or.inr ⟨(w, r), Table.mem_select_iff.2 ⟨hr, hcontains⟩, rfl⟩)))
  | workflowEvents w key =>
    exact Or.inl (Or.inl (Or.inr ⟨((w, key), r), Table.mem_select_iff.2 ⟨hr, hcontains⟩, rfl⟩))
  | workflowEventsHistory w n key =>
    exact Or.inl (Or.inr ⟨((w, n, key), r), Table.mem_select_iff.2 ⟨hr, hcontains⟩, rfl⟩)
  | streams w key i =>
    exact Or.inr ⟨((w, key, i), r), Table.mem_select_iff.2 ⟨hr, hcontains⟩, rfl⟩

/-- A deletion that is left alone removes the workflows that satisfy its condition, and all that
belongs to them. -/
theorem aloneM_collectWorkflows {cut : ℤ} : aloneM valid (query (.collectWorkflows cut))
    (fun _ _ m' ↦ Removes (fun id ↦ ∃ r, m.db.workflow id = some r ∧ r.collectable cut = true)
      m.db m'.db) .idle m := by
  rw [← bind_pure (query _)]
  refine aloneM_query_idle fun v hcalm hcur ↦ ?_
  have hids : ∀ id, id ∈ Stmt.deletedIds v (fun _ r ↦ r.collectable cut) ↔
      ∃ r, m.db.workflow id = some r ∧ r.collectable cut = true := by
    intro id
    rw [Stmt.deletedIds, hcalm.base, hcur, List.mem_filter, List.mem_map]
    constructor
    · rintro ⟨-, h⟩
      exact (Option.any_eq_true _ _).1 h
    · rintro ⟨r, hr, hcut⟩
      exact ⟨⟨(id, r), Table.mem_select_iff.2 ⟨hr, hcut⟩, rfl⟩,
        (Option.any_eq_true _ _).2 ⟨r, hr, hcut⟩⟩
  refine ⟨(), (Stmt.cascade v.cur (Stmt.deletedIds v fun _ r ↦ r.collectable cut)).map
    fun k ↦ ⟨k, none⟩, ?_, fun m' hm ↦ aloneM_pure fun m'' hm' ↦ ?_⟩
  · show Stmt.runDelete v _ = _
    rw [Stmt.runDelete, hcalm.others]
    rfl
  rw [← hm'.2]
  show Removes _ m.db (server.apply m'.db _)
  rw [← hm.2, hcur]
  have hlook : ∀ k, Db.look (server.apply m.db (store.record (Stmt.collectWorkflows cut) m.db
      ((Stmt.cascade m.db (Stmt.deletedIds v fun _ r ↦ r.collectable cut)).map
        fun k ↦ ⟨k, none⟩))) k =
      if k ∈ Stmt.cascade m.db (Stmt.deletedIds v fun _ r ↦ r.collectable cut) then none
      else m.db.look k := store.look_apply_deletions _ _ _
  constructor
  · intro k r hr hid
    rw [hlook, if_pos (Stmt.mem_cascade_of hr ((hids _).2 hid))]
  · intro k hkept
    rw [hlook]
    split
    · rename_i hmem
      cases hr : m.db.look k with
      | none => rfl
      | some r => exact (hkept r hr ((hids _).1 (Stmt.mem_cascade hmem hr))).elim
    · rfl

/-- A collection that is left alone removes what it is to remove. -/
theorem aloneM_garbageCollect (hpos : ∀ n ∈ rowsThreshold, 0 < n) :
    aloneM valid (garbageCollect cutoff rowsThreshold)
      (fun _ _ m' ↦ Removes (Collected cutoff rowsThreshold m.db) m.db m'.db) .idle m := by
  rw [garbageCollect]
  refine aloneM_collectionCutoff fun m₁ hm₁ ↦ ?_
  have hcollected : ∀ id, Collected cutoff rowsThreshold m.db id ↔
      ∃ cut ∈ effectiveCutoff cutoff rowsThreshold m.db,
        ∃ r, m.db.workflow id = some r ∧ r.collectable cut = true := by
    intro id
    simp only [Collected, ← lt_effectiveCutoff hpos, WorkflowRow.collectable_iff]
    constructor
    · rintro ⟨r, hr, hterminal, cut, hcut, hlt⟩
      exact ⟨cut, hcut, r, hr, hterminal, hlt⟩
    · rintro ⟨cut, hcut, r, hr, hterminal, hlt⟩
      exact ⟨r, hr, hterminal, cut, hcut, hlt⟩
  cases hcut : effectiveCutoff cutoff rowsThreshold m.db with
  | none =>
    refine aloneM_pure fun m' hm' ↦ ⟨fun k r _ hid ↦ ?_, fun k _ ↦ by rw [← hm'.2, hm₁]⟩
    obtain ⟨cut, hcut', -⟩ := (hcollected _).1 hid
    rw [hcut] at hcut'
    cases hcut'
  | some cut =>
    refine aloneM_mono aloneM_collectWorkflows fun _ _ m' hremoves ↦ ?_
    rw [hm₁] at hremoves
    have heq : Collected cutoff rowsThreshold m.db =
        fun id ↦ ∃ r, m.db.workflow id = some r ∧ r.collectable cut = true := by
      funext id
      rw [hcollected, hcut]
      simp
    rw [heq]
    exact hremoves

/-! ### The newest workflows -/

/-- The `n`-th newest workflow is the same time in every order. -/
theorem nthNewest_eq {l : List (String × WorkflowRow)} (h : NewestFirst db l) (n : ℤ) :
    nthNewest db n = l[(n - 1).toNat]?.map fun e ↦ e.2.createdAt := by
  have htotal : Std.Total fun a b : ℤ ↦ b ≤ a := ⟨fun a b ↦ le_total b a⟩
  have htrans : IsTrans ℤ fun a b ↦ b ≤ a := ⟨fun a b c hab hbc ↦ hbc.trans hab⟩
  have hsorted : (l.map fun e ↦ e.2.createdAt).Pairwise fun a b : ℤ ↦ b ≤ a :=
    List.pairwise_map.2 (h.sorted.imp fun hle ↦ neg_le_neg_iff.1 hle)
  have heq : l.map (fun e ↦ e.2.createdAt) =
      (db.workflowStatus.rows.map fun e ↦ e.2.createdAt).insertionSort fun a b ↦ b ≤ a :=
    ((h.perm.map _).trans (List.perm_insertionSort _ _).symm).eq_of_pairwise
      (fun a b _ _ hab hba ↦ le_antisymm hba hab) hsorted (List.pairwise_insertionSort _ _)
  rw [nthNewest, ← heq, List.getElem?_map]

/-- None of the `n` newest workflows is older than the `n`-th newest. -/
theorem le_of_mem_newest {l : List (String × WorkflowRow)} (h : NewestFirst db l) {n : ℤ}
    {e : String × WorkflowRow} (he : e ∈ l.take n.toNat) {t : ℤ} (ht : t ∈ nthNewest db n) :
    t ≤ e.2.createdAt := by
  rw [nthNewest_eq h, Option.mem_def, Option.map_eq_some_iff] at ht
  obtain ⟨x, hx, rfl⟩ := ht
  obtain ⟨hj, rfl⟩ := List.getElem?_eq_some_iff.1 hx
  obtain ⟨i, hi, rfl⟩ := List.mem_iff_getElem.1 he
  rw [List.length_take] at hi
  rw [List.getElem_take]
  rcases (show i ≤ (n - 1).toNat by omega).eq_or_lt with rfl | hlt
  · exact le_rfl
  · have hle := List.pairwise_iff_getElem.1 h.sorted i _ (by omega) hj hlt
    exact neg_le_neg_iff.1 hle

theorem nthNewest_eq_none {n : ℤ} (h : (db.workflowStatus.rows.length : ℤ) < n) :
    nthNewest db n = none := by
  rw [nthNewest, List.getElem?_eq_none_iff, List.length_insertionSort, List.length_map]
  omega

/-! ### The call -/

section

variable [SerdeJson] {V : Type} {inner : DbosInner} {i : ℕ} {S₀ S : RuntimeSystem V}
variable {r : OperationResult V}

/-- A program that is left alone does what its operation does. -/
theorem alone_program {op : Operation V} {Q : OperationValue V → DbConn → DbMoment → Prop}
    {c : DbConn} (h : aloneM valid (op.run inner) Q c m) :
    alone server valid (op.program inner) (fun out _ m' ↦ ∃ v c' m₁, m₁.Still m' ∧
      out = (op, .ok v) ∧ Q v c' m₁) c m := by
  refine alone_bind (alone_mono h ?_)
  rintro out c' m₁ ⟨v, rfl, hv⟩ m₂ hm₂
  exact ⟨v, c', m₁, hm₂, rfl, hv⟩

variable (V) in
/-- The program of a collection. -/
abbrev collectProgram (inner : DbosInner) (cutoff rowsThreshold : Option ℤ) :
    DbProg (OperationResult V) :=
  (Operation.call (.collectGarbage cutoff rowsThreshold)).program inner

/-- Session `i` calls `garbage_collect` in `S₀` and has the result `r` in `S`, and no transaction of
another session has overlapped the call. -/
structure UndisturbedCollection (valid : DbMoment → (q : Ask) → q.Ans → Bool) (inner : DbosInner)
    (cutoff rowsThreshold : Option ℤ) (i : ℕ) (S₀ S : RuntimeSystem V) (r : OperationResult V) :
    Prop where
  calls : S₀.sessions.lookup i =
    some (Session.resume (collectProgram V inner cutoff rowsThreshold) .idle)
  run : Run (System.step server valid) (System.Undisturbed server valid i) S₀ S
  returned : ∃ s, S.sessions.lookup i = some s ∧ s.prog = .pure r

theorem alone_collectProgram (hpos : ∀ n ∈ rowsThreshold, 0 < n) :
    alone server valid (collectProgram V inner cutoff rowsThreshold)
      (fun out _ m' ↦ out.2 = .ok (.call .done) ∧
        Removes (Collected cutoff rowsThreshold m.db) m.db m'.db) .idle m := by
  have hrun : aloneM valid ((Operation.call (.collectGarbage cutoff rowsThreshold) :
      Operation V).run inner) (fun v _ m' ↦ v = .call .done ∧
        Removes (Collected cutoff rowsThreshold m.db) m.db m'.db) .idle m := by
    show aloneM valid (OperationValue.call <$> ((fun _ ↦ CallValue.done) <$>
      garbageCollect cutoff rowsThreshold)) _ _ _
    rw [← comp_map, map_eq_pure_bind]
    refine aloneM_bind (aloneM_mono (aloneM_garbageCollect hpos) fun _ c m' h ↦ ?_)
    refine aloneM_pure fun m'' hm ↦ ⟨rfl, by rwa [← hm.2]⟩
  refine alone_mono (alone_program hrun) ?_
  rintro out c m' ⟨v, c', m₁, hm, rfl, rfl, hremoves⟩
  exact ⟨rfl, by rwa [← hm.2]⟩

theorem UndisturbedCollection.removes (hpos : ∀ n ∈ rowsThreshold, 0 < n)
    (h : UndisturbedCollection valid inner cutoff rowsThreshold i S₀ S r) :
    r.2 = .ok (.call .done) ∧
      Removes (Collected cutoff rowsThreshold S₀.moment.db) S₀.moment.db S.moment.db := by
  obtain ⟨s, hs, hprog⟩ := h.returned
  exact System.returned_of_alone h.calls (alone_collectProgram hpos) h.run hs hprog

theorem exists_undisturbedCollection (hpos : ∀ n ∈ rowsThreshold, 0 < n)
    (hvalid : ∀ m q, ∃ a, valid m q a = true)
    (hcalls : S₀.sessions.lookup i =
      some (Session.resume (collectProgram V inner cutoff rowsThreshold) .idle))
    (hfree : S₀.others i = []) :
    ∃ S r, UndisturbedCollection valid inner cutoff rowsThreshold i S₀ S r := by
  obtain ⟨S, s, r, hrun, hs, hprog⟩ := System.exists_run_of_alone hvalid (fun _ ↦ 0) hfree hcalls
    (alone_collectProgram hpos)
  exact ⟨S, r, hcalls, hrun, s, hs, hprog⟩

/-- **The bounds of a collection.** A collection that nobody disturbs removes exactly the terminal
workflows that are older than the cutoff or than the `n`-th newest workflow, and no live one. With a
row bound only, the `n` newest workflows survive, however workflows of one millisecond are ordered,
and nothing is removed when there are fewer than `n`. -/
theorem garbageCollect_bounds (hpos : ∀ n ∈ rowsThreshold, 0 < n)
    (hcalls : S₀.sessions.lookup i =
      some (Session.resume (collectProgram V inner cutoff rowsThreshold) .idle)) :
    (∀ S r, UndisturbedCollection valid inner cutoff rowsThreshold i S₀ S r →
      r.2 = .ok (.call .done) ∧
      Removes (Collected cutoff rowsThreshold S₀.moment.db) S₀.moment.db S.moment.db ∧
      (∀ id row, S₀.moment.db.workflow id = some row → row.status.isTerminal = false →
        S.moment.db.workflow id = some row) ∧
      (cutoff = none → ∀ n ∈ rowsThreshold,
        (∀ l, NewestFirst S₀.moment.db l →
          ∀ e ∈ l.take n.toNat, S.moment.db.workflow e.1 = some e.2) ∧
        min n S₀.moment.db.workflowStatus.rows.length ≤
          S.moment.db.workflowStatus.rows.length ∧
        ((S₀.moment.db.workflowStatus.rows.length : ℤ) < n →
          ∀ k, S.moment.db.look k = S₀.moment.db.look k))) ∧
    ((∀ m q, ∃ a, valid m q a = true) → S₀.others i = [] →
      ∃ S r, UndisturbedCollection valid inner cutoff rowsThreshold i S₀ S r) := by
  refine ⟨fun S r h ↦ ?_, fun hvalid hfree ↦ exists_undisturbedCollection hpos hvalid hcalls hfree⟩
  obtain ⟨hok, hremoves⟩ := h.removes hpos
  have hkept : ∀ id row, S₀.moment.db.workflow id = some row →
      ¬ Collected cutoff rowsThreshold S₀.moment.db id → S.moment.db.workflow id = some row := by
    intro id row hrow hnot
    rw [← hrow]
    exact hremoves.kept (.workflowStatus id) fun _ _ ↦ hnot
  refine ⟨hok, hremoves, fun id row hrow hlive ↦ hkept id row hrow ?_, ?_⟩
  · rintro ⟨row', hrow', hterminal, -⟩
    cases hrow.symm.trans hrow'
    rw [hlive] at hterminal
    cases hterminal
  rintro rfl n hn
  -- none of the newest is collected
  have hnewest : ∀ l, NewestFirst S₀.moment.db l → ∀ e ∈ l.take n.toNat,
      S.moment.db.workflow e.1 = some e.2 := by
    intro l hl e he
    have hrow := Table.mem_rows_iff.1 (hl.perm.mem_iff.1 (List.mem_of_mem_take he))
    refine hkept e.1 e.2 hrow ?_
    rintro ⟨row, hrow', -, ⟨c, hc, -⟩ | ⟨n', hn', t, ht, hlt⟩⟩
    · cases hc
    · cases hn.symm.trans hn'
      cases hrow.symm.trans hrow'
      exact (le_of_mem_newest hl he ht).not_gt hlt
  refine ⟨hnewest, ?_, fun hfew k ↦ hremoves.kept k fun row _ ↦ ?_⟩
  · obtain ⟨l, hl⟩ := Window.exists_arrangement (fun e : String × WorkflowRow ↦ -e.2.createdAt)
      S₀.moment.db.workflowStatus.rows
    have hnd : (l.take n.toNat).Nodup := by
      have hrows := S₀.moment.db.workflowStatus.nodup_keys.of_map
      exact (hl.perm.nodup_iff.2 hrows).sublist (List.take_sublist _ _)
    have hle := (hnd.subperm fun e he ↦ Table.mem_rows_iff.2 (hnewest l hl e he)).length_le
    rw [List.length_take, hl.perm.length_eq] at hle
    omega
  · rintro ⟨row', -, -, ⟨c, hc, -⟩ | ⟨n', hn', t, ht, -⟩⟩
    · cases hc
    · cases hn.symm.trans hn'
      rw [nthNewest_eq_none hfew] at ht
      cases ht

end

end

/-! ### A collection with a row bound -/

section

local instance retentionJson : SerdeJson := JsonText.jsonText

/-- One old workflow, and two newer ones of the same time. -/
def oneOlder : Db :=
  { workflowStatus := ["b", "c"].foldl (fun t id ↦ t.set id (some (finishedRow id 1)))
      (Table.set ∅ "a" (some (finishedRow "a" 0))) }

/-- The only session collects down to two rows. -/
def collecting : RuntimeSystem ℤ :=
  (System.init oneOlder 0).update server 0
    (Session.resume (collectProgram ℤ (anyName "a") none (some 2)) .idle) none none

/-- The two newer workflows survive, and the old one does not. -/
theorem garbageCollect_bounds_oneOlder : ∃ S r,
    UndisturbedCollection (fun _ _ _ ↦ true) (anyName "a") none (some 2) 0 collecting S r ∧
      S.moment.db.workflow "a" = none ∧ 2 ≤ S.moment.db.workflowStatus.rows.length := by
  have hcalls : collecting.sessions.lookup 0 =
      some (Session.resume (collectProgram ℤ (anyName "a") none (some 2)) .idle) := by
    rw [collecting, System.sessions_update, AList.lookup_insert]
  obtain ⟨hbounds, hreturns⟩ := @garbageCollect_bounds (fun _ _ _ ↦ true) none (some 2) _ ℤ
    (anyName "a") 0 collecting (by rintro n ⟨⟩; exact two_pos) hcalls
  obtain ⟨S, r, hS⟩ := hreturns (fun _ q ↦ ⟨answersAt 0 "" q, rfl⟩) (System.others_update rfl)
  obtain ⟨-, hremoves, -, hsurvive⟩ := hbounds S r hS
  refine ⟨S, r, hS, hremoves.gone (.workflowStatus "a") (finishedRow "a" 0) (by decide +kernel)
    ⟨finishedRow "a" 0, by decide +kernel, rfl, Or.inr ⟨2, rfl, 1, by decide +kernel, by decide⟩⟩,
    ?_⟩
  have hlen : collecting.moment.db.workflowStatus.rows.length = 3 := by decide +kernel
  have hmin := (hsurvive rfl 2 rfl).2.1
  rw [hlen] at hmin
  omega

end

end Dbos

import DbosTransact.Queue.ClaimCount
import DbosTransact.Queue.Workers
import Mathlib.Data.Prod.Lex

/-!
# The order a queue is served in

A queue that is not priority-enabled is meant to be served by age alone. Candidates are selected by
priority and age on every queue, `priority_enabled` being read by no statement, so a priority that
was given to a workflow counts there as well.

An iteration that is left alone takes a first segment of the candidates in its own order, however
many the limits leave room for. So it serves the queue in the order of the queue (`ServesInOrder`)
if this is by priority, and otherwise exactly if no workflow there is room for goes before an older
one by its priority (`Overtakes`).
-/

namespace Dbos

open Txn

/-! ### A first segment of a sorted list -/

section

variable {α β : Type} [LinearOrder β] {f : α → β} {l : List α} {x : α} {n : ℕ}

theorem countP_lt_length_iff {p : α → Bool} : l.countP p < l.length ↔ ∃ a ∈ l, ¬ p a := by
  rw [List.countP_le_length.lt_iff_ne, Ne, List.countP_eq_length]
  simp

/-- Fewer than `n` values are below one of the first `n` of a sorted list. -/
theorem countP_lt_of_mem_take (hl : l.Pairwise fun a b ↦ f a ≤ f b) (hx : x ∈ l.take n) :
    l.countP (fun z ↦ f z < f x) < n := by
  have hrest : (l.drop n).countP (fun z ↦ f z < f x) = 0 := by
    rw [List.countP_eq_zero]
    intro z hz
    rw [← List.take_append_drop n l] at hl
    have hle := (List.pairwise_append.1 hl).2.2 x hx z hz
    simpa using hle
  have hfirst : (l.take n).countP (fun z ↦ f z < f x) < (l.take n).length := by
    exact countP_lt_length_iff.2 ⟨x, hx, by simp⟩
  calc l.countP (fun z ↦ f z < f x)
      = (l.take n ++ l.drop n).countP fun z ↦ f z < f x := by rw [List.take_append_drop]
    _ = (l.take n).countP fun z ↦ f z < f x := by rw [List.countP_append, hrest, Nat.add_zero]
    _ < (l.take n).length := hfirst
    _ ≤ n := List.length_take_le n l

/-- A value that fewer than `n` are below is among the first `n`, as far as its key shows. -/
theorem exists_mem_take_of_countP_lt (hl : l.Pairwise fun a b ↦ f a ≤ f b) (hx : x ∈ l)
    (hn : l.countP (fun z ↦ f z < f x) < n) : ∃ y ∈ l.take n, f y = f x := by
  rw [← List.take_append_drop n l, List.mem_append] at hx
  rcases hx with hx | hx
  · exact ⟨x, hx, rfl⟩
  have hle : ∀ z ∈ l.take n, f z ≤ f x := by
    rw [← List.take_append_drop n l] at hl
    exact fun z hz ↦ (List.pairwise_append.1 hl).2.2 z hz x hx
  have hlen : (l.take n).length = n := by
    have hpos := List.length_pos_of_mem hx
    rw [List.length_drop] at hpos
    rw [List.length_take]
    omega
  have hcount : (l.take n).countP (fun z ↦ f z < f x) < (l.take n).length := by
    rw [hlen]
    exact ((List.take_sublist n l).countP_le).trans_lt hn
  obtain ⟨y, hy, hnot⟩ := countP_lt_length_iff.1 hcount
  exact ⟨y, hy, (hle y hy).antisymm (by simpa using hnot)⟩

/-- A value that at most `n` are not above is among the first `n`. -/
theorem mem_take_of_countP_le (hl : l.Pairwise fun a b ↦ f a ≤ f b) (hx : x ∈ l)
    (hn : l.countP (fun z ↦ f z ≤ f x) ≤ n) : x ∈ l.take n := by
  have hsplit := List.take_append_drop n l
  rw [← hsplit, List.mem_append] at hx
  refine hx.resolve_right fun hx ↦ ?_
  rw [← hsplit] at hl
  have hfirst : (l.take n).countP (fun z ↦ f z ≤ f x) = (l.take n).length :=
    List.countP_eq_length.2 fun z hz ↦ by simpa using (List.pairwise_append.1 hl).2.2 z hz x hx
  have hrest : 0 < (l.drop n).countP fun z ↦ f z ≤ f x := List.countP_pos_iff.2 ⟨x, hx, by simp⟩
  have hpos := List.length_pos_of_mem hx
  rw [List.length_drop] at hpos
  rw [← hsplit, List.countP_append, hfirst, List.length_take] at hn
  omega

end

/-- What `ORDER BY` goes by. -/
def WorkflowRow.sortKey (r : WorkflowRow) : ℤ ×ₗ ℤ := toLex (r.priority, r.createdAt)

/-- What a queue is meant to go by. -/
def Workers.WorkflowQueue.key (queue : Workers.WorkflowQueue) (r : WorkflowRow) : ℤ ×ₗ ℤ :=
  if queue.priorityEnabled then r.sortKey else toLex (0, r.createdAt)

namespace DequeueInput

variable {input : DequeueInput} {db : Db} {rank : String → ℕ}

theorem sortKey_le_of_inOrder {x y : String × WorkflowRow} (h : inOrder rank x y) :
    x.2.sortKey ≤ y.2.sortKey := by
  rw [WorkflowRow.sortKey, WorkflowRow.sortKey, Prod.Lex.toLex_le_toLex]
  unfold inOrder at h
  omega

variable (input db)

theorem pairwise_sortKey (rank : String → ℕ) :
    (input.ordered db rank).Pairwise fun x y ↦ x.2.sortKey ≤ y.2.sortKey :=
  (pairwise_ordered rank).imp sortKey_le_of_inOrder

/-- Of the first `n` workflows by priority and age one goes before an older one by its priority. -/
def Overtakes (n : ℕ) : Prop :=
  ∃ x ∈ input.eligible db, ∃ y ∈ input.eligible db, x.2.priority < y.2.priority ∧
    y.2.createdAt < x.2.createdAt ∧
      (input.eligible db).countP (fun z ↦ z.2.sortKey < x.2.sortKey) < n

variable {input db}

/-- Overtaking, seen in the order of the claims. -/
theorem overtakes_iff (rank : String → ℕ) {n : ℕ} : input.Overtakes db n ↔
    ∃ x ∈ (input.ordered db rank).take n, ∃ y ∈ input.ordered db rank,
      x.2.priority < y.2.priority ∧ y.2.createdAt < x.2.createdAt := by
  have hsorted := pairwise_sortKey input db rank
  have hperm : (input.ordered db rank).Perm (input.eligible db) := ordered_perm rank
  have hcount := fun x : String × WorkflowRow ↦
    hperm.countP_eq fun z ↦ z.2.sortKey < x.2.sortKey
  constructor
  · rintro ⟨x, hx, y, hy, hprio, hage, hn⟩
    rw [← hcount x] at hn
    obtain ⟨x', hx', hkey⟩ := exists_mem_take_of_countP_lt hsorted (mem_ordered.2 hx) hn
    obtain ⟨hprio', hage'⟩ := Prod.mk.inj (toLex.injective hkey)
    exact ⟨x', hx', y, mem_ordered.2 hy, by omega, by omega⟩
  · rintro ⟨x, hx, y, hy, hprio, hage⟩
    refine ⟨x, mem_ordered.1 (List.mem_of_mem_take hx), y, mem_ordered.1 hy, hprio, hage, ?_⟩
    rw [← hcount x]
    exact countP_lt_of_mem_take hsorted hx

end DequeueInput

/-! ### What an iteration leaves -/

section

variable {input : DequeueInput} {m : DbMoment} {db : Db} {rank : String → ℕ} {n : ℕ} {k : Claims}

theorem Takes.mem_ordered (h : Takes input m db rank n k) {x : String × WorkflowRow}
    (hx : x ∈ k.taken) : x ∈ input.ordered m.db rank :=
  List.mem_of_mem_take (h.taken ▸ hx)

theorem Takes.mem_eligible (h : Takes input m db rank n k) {x : String × WorkflowRow}
    (hx : x ∈ k.taken) : x ∈ input.eligible m.db :=
  DequeueInput.mem_ordered.1 (h.mem_ordered hx)

theorem Takes.nodup_locked (h : Takes input m db rank n k) : (k.locked.map Prod.fst).Nodup :=
  (DequeueInput.nodup_ordered rank).sublist (h.locked.sublist.map Prod.fst)

/-- What is not taken stays as it is. -/
theorem Takes.workflow_of_not_mem (h : Takes input m db rank n k) {w : String}
    (hw : w ∉ k.taken.map Prod.fst) : db.workflow w = m.db.workflow w := by
  rw [h.db]
  split
  · rfl
  by_cases hlocked : w ∈ k.locked.map Prod.fst
  · obtain ⟨x, hx, rfl⟩ := List.mem_map.1 hlocked
    rw [input.look_writes_of_locked h.nodup_locked hx hw]
    exact (DequeueInput.mem_eligible.1 (DequeueInput.mem_ordered.1 (h.locked.subset hx))).1.symm
  · exact input.look_writes_of_not_mem hlocked hw m.db

/-- What is taken is running. -/
theorem Takes.status_of_mem (h : Takes input m db rank n k) {x : String × WorkflowRow}
    (hx : x ∈ k.taken) : ∃ r, db.workflow x.1 = some r ∧ r.status = .pending := by
  have hne : k.taken ≠ [] := List.ne_nil_of_mem hx
  rw [h.db, if_neg hne, input.look_writes_of_taken (h.nodup_locked.sublist
    (h.sublist.map Prod.fst)) hx]
  exact ⟨_, rfl, rfl⟩

/-- A workflow is taken if those that are not after it do not exceed what the iteration goes for. -/
theorem Takes.mem_taken (h : Takes input m db rank n k) {x : String × WorkflowRow}
    (hx : x ∈ input.eligible m.db)
    (hn : (input.eligible m.db).countP (fun z ↦ z.2.sortKey ≤ x.2.sortKey) ≤ n) : x ∈ k.taken := by
  have hperm : (input.ordered m.db rank).Perm (input.eligible m.db) :=
    DequeueInput.ordered_perm rank
  rw [h.taken]
  rw [← hperm.countP_eq] at hn
  exact mem_take_of_countP_le (input.pairwise_sortKey m.db rank) (hperm.mem_iff.2 hx) hn

/-- What still waits is what waited and was not taken. -/
theorem Takes.mem_eligible_iff (h : Takes input m db rank n k) {y : String × WorkflowRow} :
    y ∈ input.eligible db ↔ y ∈ input.eligible m.db ∧ y ∉ k.taken := by
  by_cases hy : y.1 ∈ k.taken.map Prod.fst
  · obtain ⟨x, hx, hxy⟩ := List.mem_map.1 hy
    refine iff_of_false (fun hmem ↦ ?_) fun hmem ↦ ?_
    · obtain ⟨hrow, hcand⟩ := DequeueInput.mem_eligible.1 hmem
      obtain ⟨r, hr, hpending⟩ := h.status_of_mem hx
      rw [hxy, hrow] at hr
      obtain rfl := Option.some.inj hr
      simp [WorkflowRow.candidate, hpending] at hcand
    · have hrow := (DequeueInput.mem_eligible.1 hmem.1).1
      have hrow' := (DequeueInput.mem_eligible.1 (h.mem_eligible hx)).1
      rw [hxy, hrow] at hrow'
      exact hmem.2 (Prod.ext hxy (Option.some.inj hrow').symm ▸ hx)
  · have hnot : y ∉ k.taken := fun hmem ↦ hy (List.mem_map_of_mem hmem)
    rw [DequeueInput.mem_eligible, DequeueInput.mem_eligible, h.workflow_of_not_mem hy]
    exact ⟨fun hmem ↦ ⟨hmem, hnot⟩, And.left⟩

end

/-- The workflows `wfs` that an iteration has claimed are in the order of the queue, and none that
is left waiting comes before one of them. -/
structure ServesInOrder (queue : Workers.WorkflowQueue) (input : DequeueInput) (db db' : Db)
    (wfs : List DequeuedWorkflow) : Prop where
  sorted : wfs.Pairwise fun a b ↦ ∀ r ∈ db.workflow a.id, ∀ r' ∈ db.workflow b.id,
    queue.key r ≤ queue.key r'
  least : ∀ a ∈ wfs, ∀ r ∈ db.workflow a.id, ∀ y ∈ input.eligible db',
    queue.key r ≤ queue.key y.2

section

variable {queue : Workers.WorkflowQueue} {input : DequeueInput} {m : DbMoment} {db : Db}
variable {rank : String → ℕ} {n : ℕ} {k : Claims}

/-- The order of the queue, said of the rows. -/
theorem Takes.servesInOrder_iff (h : Takes input m db rank n k) :
    ServesInOrder queue input m.db db (k.taken.map dequeued) ↔
      k.taken.Pairwise (fun x y ↦ queue.key x.2 ≤ queue.key y.2) ∧
        ∀ x ∈ k.taken, ∀ y ∈ input.eligible m.db, y ∉ k.taken → queue.key x.2 ≤ queue.key y.2 := by
  have hrow : ∀ x ∈ k.taken, m.db.workflow (dequeued x).id = some x.2 :=
    fun x hx ↦ (DequeueInput.mem_eligible.1 (h.mem_eligible hx)).1
  constructor
  · rintro ⟨hsorted, hleast⟩
    rw [List.pairwise_map] at hsorted
    refine ⟨hsorted.imp_of_mem fun hx hy hle ↦ hle _ (hrow _ hx) _ (hrow _ hy),
      fun x hx y hy hnot ↦ ?_⟩
    exact hleast _ (List.mem_map_of_mem hx) _ (hrow x hx) y (h.mem_eligible_iff.2 ⟨hy, hnot⟩)
  · rintro ⟨hsorted, hleast⟩
    refine ⟨?_, fun a ha r hr y hy ↦ ?_⟩
    · rw [List.pairwise_map]
      refine hsorted.imp_of_mem fun hx hy hle r hr r' hr' ↦ ?_
      rw [hrow _ hx] at hr
      rw [hrow _ hy] at hr'
      rwa [← Option.some.inj hr, ← Option.some.inj hr']
    · obtain ⟨x, hx, rfl⟩ := List.mem_map.1 ha
      rw [hrow x hx] at hr
      rw [← Option.some.inj hr]
      exact hleast x hx y (h.mem_eligible_iff.1 hy).1 (h.mem_eligible_iff.1 hy).2

/-- Whatever the order is, it is kept if it is kept between what is taken and what comes after it in
the order of the claims. -/
theorem Takes.servesInOrder (h : Takes input m db rank n k)
    (hkey : ∀ x ∈ k.taken, ∀ y ∈ input.ordered m.db rank, x.2.sortKey ≤ y.2.sortKey →
      queue.key x.2 ≤ queue.key y.2) :
    ServesInOrder queue input m.db db (k.taken.map dequeued) := by
  have hsorted := input.pairwise_sortKey m.db rank
  refine h.servesInOrder_iff.2 ⟨?_, fun x hx y hy hnot ↦ ?_⟩
  · have htaken := hsorted.sublist (List.take_sublist n _)
    rw [← h.taken] at htaken
    exact htaken.imp_of_mem fun hx hy hle ↦ hkey _ hx _ (h.mem_ordered hy) hle
  · have hy' : y ∈ input.ordered m.db rank := DequeueInput.mem_ordered.2 hy
    refine hkey x hx y hy' ?_
    rw [← List.take_append_drop n (input.ordered m.db rank), ← h.taken] at hsorted hy'
    exact (List.pairwise_append.1 hsorted).2.2 x hx y ((List.mem_append.1 hy').resolve_left hnot)

theorem Takes.servesInOrder_iff_overtakes (h : Takes input m db rank n k) :
    ServesInOrder queue input m.db db (k.taken.map dequeued) ↔
      queue.priorityEnabled = true ∨ ¬ input.Overtakes m.db n := by
  by_cases hprio : queue.priorityEnabled = true
  · refine iff_of_true (h.servesInOrder fun x _ y _ hle ↦ ?_) (Or.inl hprio)
    rwa [Workers.WorkflowQueue.key, Workers.WorkflowQueue.key, if_pos hprio, if_pos hprio]
  have hkey : ∀ r r' : WorkflowRow, queue.key r ≤ queue.key r' ↔ r.createdAt ≤ r'.createdAt := by
    intro r r'
    rw [Workers.WorkflowQueue.key, Workers.WorkflowQueue.key, if_neg hprio, if_neg hprio,
      Prod.Lex.toLex_le_toLex]
    simp
  rw [DequeueInput.overtakes_iff rank, ← h.taken]
  constructor
  · intro hserves
    obtain ⟨hsorted, hleast⟩ := h.servesInOrder_iff.1 hserves
    refine Or.inr ?_
    rintro ⟨x, hx, y, hy, hlt, hage⟩
    by_cases hmem : y ∈ k.taken
    · -- both are taken, and only one of them can come first
      have hage' : ∀ ⦃a⦄, a ∈ k.taken → ∀ ⦃b⦄, b ∈ k.taken →
          (a.2.priority < b.2.priority → a.2.createdAt ≤ b.2.createdAt) ∧
            (b.2.priority < a.2.priority → b.2.createdAt ≤ a.2.createdAt) := by
        have htaken := (input.pairwise_sortKey m.db rank).sublist
          (List.take_sublist n _)
        rw [← h.taken] at htaken
        have hpair : k.taken.Pairwise fun a b ↦
            (a.2.priority < b.2.priority → a.2.createdAt ≤ b.2.createdAt) ∧
              (b.2.priority < a.2.priority → b.2.createdAt ≤ a.2.createdAt) := by
          refine (htaken.and hsorted).imp fun hle ↦ ?_
          obtain ⟨hle, hle'⟩ := hle
          rw [hkey] at hle'
          rw [WorkflowRow.sortKey, WorkflowRow.sortKey, Prod.Lex.toLex_le_toLex] at hle
          exact ⟨fun _ ↦ hle', fun hgt ↦ by dsimp only at hle; omega⟩
        exact List.Pairwise.forall_of_forall_of_flip
          (fun a _ ↦ ⟨fun _ ↦ le_rfl, fun _ ↦ le_rfl⟩) hpair (hpair.imp And.symm)
      have hle := (hage' hx hmem).1 hlt
      omega
    · have hle := (hkey _ _).1 (hleast x hx y (DequeueInput.mem_ordered.1 hy) hmem)
      omega
  · intro hnot
    refine h.servesInOrder fun x hx y hy hle ↦ (hkey _ _).2 ?_
    rw [WorkflowRow.sortKey, WorkflowRow.sortKey, Prod.Lex.toLex_le_toLex] at hle
    by_contra hage
    refine (hnot.resolve_left hprio) ⟨x, hx, y, hy, ?_, by omega⟩
    rcases hle with hlt | ⟨-, hle⟩
    · exact hlt
    · exact absurd hle hage

end

/-! ### The whole call -/

section

variable {valid : DbMoment → (q : Ask) → q.Ans → Bool} {queue : Workers.WorkflowQueue}
variable {inner : DbosInner} {partition : Option String} {running i : ℕ} {S₀ S : QueueSystem}
variable {r : Except DbosError (List DequeuedWorkflow)}

/-- A call that nobody disturbs claims a workflow if there is room for it and all that are not after
it. -/
theorem UndisturbedCall.claims {input : DequeueInput} (h : UndisturbedCall valid input i S₀ S r)
    {x : String × WorkflowRow} (hx : x ∈ input.eligible S₀.moment.db)
    (hroom : ∀ now, (input.eligible S₀.moment.db).countP (fun z ↦ z.2.sortKey ≤ x.2.sortKey) ≤
      input.room S₀.moment.db now) : ∃ wfs, r = .ok wfs ∧ dequeued x ∈ wfs := by
  obtain ⟨rank, now, k, -, htakes, rfl⟩ := h.takes
  exact ⟨_, rfl, List.mem_map_of_mem (htakes.mem_taken hx (hroom now))⟩

/-- A call of `dequeue_workflows` that no other transaction overlaps returns workflows that were
waiting. It serves the queue in its order exactly if this is by priority, or no workflow there is
room for goes before an older one by its priority. -/
theorem dequeue_serves_in_order_iff
    (h : UndisturbedCall valid (queue.input inner partition running) i S₀ S r) :
    ∃ wfs now, r = .ok wfs ∧
      (queue.rateLimit.isSome = true → ∃ m, S₀.moment.Still m ∧ valid m .now now = true) ∧
      (∀ wf ∈ wfs, ∃ row, (wf.id, row) ∈
        (queue.input inner partition running).eligible S₀.moment.db) ∧
      (ServesInOrder queue (queue.input inner partition running) S₀.moment.db S.moment.db wfs ↔
        queue.priorityEnabled = true ∨
          ¬ (queue.input inner partition running).Overtakes S₀.moment.db
            ((queue.input inner partition running).room S₀.moment.db now)) := by
  obtain ⟨rank, now, k, hclock, htakes, rfl⟩ := h.takes
  refine ⟨_, now, rfl, fun hrate ↦ hclock ?_, fun wf hwf ↦ ?_, htakes.servesInOrder_iff_overtakes⟩
  · rw [Workers.WorkflowQueue.input, Option.isSome_map]
    exact hrate
  · obtain ⟨x, hx, rfl⟩ := List.mem_map.1 hwf
    exact ⟨x.2, htakes.mem_eligible hx⟩

end

/-- A workflow that waits on the queue `q`. -/
def waitingSince (w : String) (priority createdAt : ℤ) : InsertWorkflowInput :=
  { workflowId := w, status := .enqueued, name := "f", queueName := some "q", priority,
    createdAt, updatedAt := createdAt, recoveryAttempts := 0, ownerXid := "x" }

/-- Two workflows of which the newer one has the higher priority. -/
def newerFirst : Db where
  workflowStatus := (∅ : Table String WorkflowRow).set "old" (some (waitingSince "old" 1 0).row)
    |>.set "new" (some (waitingSince "new" 0 1).row)

/-- An executor whose version is `v`. -/
def oneExecutor : DbosInner :=
  { executorId := "e", applicationVersion := "v", registry := fun _ ↦ none }

/-- A queue without priorities. -/
def plainQueue : Workers.WorkflowQueue := { name := "q" }

/-- The same queue, priority-enabled. -/
def priorityQueue : Workers.WorkflowQueue := { name := "q", priorityEnabled := true }

theorem dequeue_serves_in_order_iff_newerFirst : ∃ S wfs,
    UndisturbedCall (fun _ _ _ ↦ true) (priorityQueue.input oneExecutor none 0) 0
      (calling newerFirst (priorityQueue.input oneExecutor none 0)) S (.ok wfs) ∧
    ServesInOrder priorityQueue (priorityQueue.input oneExecutor none 0) newerFirst S.moment.db
      wfs := by
  obtain ⟨S, r, hcall⟩ := exists_undisturbedCall (fun _ _ _ ↦ true)
    (fun _ q ↦ ⟨answersAt 0 "" q, rfl⟩)
    (lookup_calling newerFirst (priorityQueue.input oneExecutor none 0)) (others_calling _ _)
  obtain ⟨wfs, now, rfl, -, -, hiff⟩ := dequeue_serves_in_order_iff hcall
  exact ⟨S, wfs, hcall, hiff.2 (Or.inl rfl)⟩

/-- The workflow of higher priority is claimed before the older one, though the queue has no
priorities. -/
theorem plain_queue_not_by_age : ∃ S wfs,
    UndisturbedCall (fun _ _ _ ↦ true) (plainQueue.input oneExecutor none 0) 0
      (calling newerFirst (plainQueue.input oneExecutor none 0)) S (.ok wfs) ∧
    ¬ ServesInOrder plainQueue (plainQueue.input oneExecutor none 0) newerFirst S.moment.db
      wfs := by
  obtain ⟨S, r, hcall⟩ := exists_undisturbedCall (fun _ _ _ ↦ true)
    (fun _ q ↦ ⟨answersAt 0 "" q, rfl⟩)
    (lookup_calling newerFirst (plainQueue.input oneExecutor none 0)) (others_calling _ _)
  obtain ⟨rank, now, k, -, htakes, rfl⟩ := hcall.takes
  refine ⟨S, _, hcall, fun hserves ↦ ?_⟩
  refine (htakes.servesInOrder_iff_overtakes.1 hserves).elim (by decide) fun hnot ↦ hnot ?_
  have hcount : ((plainQueue.input oneExecutor none 0).eligible newerFirst).countP
      (fun z ↦ z.2.sortKey < (waitingSince "new" 0 1).row.sortKey) = 0 := by
    decide +kernel
  refine ⟨("new", (waitingSince "new" 0 1).row), DequeueInput.mem_eligible.2 ⟨rfl, rfl⟩,
    ("old", (waitingSince "old" 1 0).row), DequeueInput.mem_eligible.2 ⟨rfl, rfl⟩, ?_, ?_, ?_⟩
  · decide
  · decide
  · exact hcount.trans_lt (Nat.succ_pos 99)

end Dbos

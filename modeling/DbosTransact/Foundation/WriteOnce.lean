import DbosTransact.Foundation.System

/-!
# Rows that are written once

A row no transaction of the history has replaced or deleted. Once it is there it stays as it is, so
all who have read it have read the same; and among all transactions that write it one at most has
been committed, which is the one that made it.
-/

namespace Txn.System

variable {Db Key : Type} {Row : Key → Type} {Stmt : Type} {Res : Stmt → Type}
variable {Err Plan Ask : Type} {Ans : Ask → Type} {ρ : Type}
variable {E : Engine Db Key Row Stmt Res Err Plan}
variable {S₀ S : System Db Key Row Stmt Res Err Ask Ans ρ} {db₀ : Db} {k : Key}

/-- Every transaction of the history that writes the row inserts it. -/
def InsertsOnly (S : System Db Key Row Stmt Res Err Ask Ans ρ) (k : Key) : Prop :=
  ∀ old new s, (⟨k, old, new, s⟩ : Write Key Row Stmt) ∈ written S.history →
    old = none ∧ new.isSome = true

/-- A run adds to the history. -/
theorem history_prefix_of_run {valid : Moment Db → (q : Ask) → Ans q → Bool}
    {ok : System Db Key Row Stmt Res Err Ask Ans ρ → Label Stmt Res Err Plan Ask Ans ρ → Prop}
    (h : Run (step E valid) ok S₀ S) : S₀.history <+: S.history := by
  refine h.invariant (P := fun S ↦ S₀.history <+: S.history) (List.prefix_refl _) ?_
  intro S₁ l S₂ hS₁ _ hs
  rcases history_of_step hs with hsame | ⟨c, hmore⟩
  · rw [hsame]
    exact hS₁
  · rw [hmore]
    exact hS₁.trans (List.prefix_append _ _)

theorem written_subset {h h' : List (Commit Db Key Row Stmt)} (hh : h <+: h') :
    written h ⊆ written h' := by
  obtain ⟨more, rfl⟩ := hh
  rw [written_append]
  exact List.subset_append_left _ _

/-- A row that is there stays as it is. -/
theorem InsertsOnly.stays (h : InsertsOnly S k) (hC : Consistent E db₀ S) {i j : ℕ} (hij : i ≤ j)
    {row : Row k} (hrow : E.look (stateAt E db₀ S.history i) k = some row) :
    E.look (stateAt E db₀ S.history j) k = some row := by
  refine hC.keeps (P := fun r ↦ r = some row) hij hrow fun old new s _ hw hold ↦ ?_
  rw [(h old new s hw).1] at hold
  cases hold

/-- The state of a system is the last one of its history. -/
theorem db_eq_stateAt (hC : Consistent E db₀ S) :
    S.moment.db = stateAt E db₀ S.history S.history.length := by
  rw [hC.now.2, stateAt, List.take_length]

/-- The row is still missing if no transaction has written it. -/
theorem look_eq_of_forall_ne (hC : Consistent E db₀ S)
    (hnone : ∀ w ∈ written S.history, w.key ≠ k) : E.look S.moment.db k = E.look db₀ k := by
  rw [hC.now.2]
  exact E.look_apply_of_forall_ne hnone

/-- A row that was missing at first has been written as it is. -/
theorem exists_write (hC : Consistent E db₀ S) (hnone : E.look db₀ k = none) {row : Row k}
    (hrow : E.look S.moment.db k = some row) :
    ∃ c ∈ S.history, ∃ old s, (⟨k, old, some row, s⟩ : Write Key Row Stmt) ∈ c.writes := by
  have hwritten : ∀ row, E.look (stateAt E db₀ S.history S.history.length) k = some row →
      ∃ old s, (⟨k, old, some row, s⟩ : Write Key Row Stmt) ∈ written S.history := by
    refine hC.keeps (P := fun r ↦ ∀ row, r = some row →
      ∃ old s, (⟨k, old, some row, s⟩ : Write Key Row Stmt) ∈ written S.history)
      (Nat.zero_le _) (fun row hrow ↦ ?_) ?_
    · have hlook : E.look db₀ k = some row := hrow
      rw [hnone] at hlook
      cases hlook
    · rintro old new s - hw - row rfl
      exact ⟨old, s, hw⟩
  obtain ⟨old, s, hw⟩ := hwritten row (db_eq_stateAt hC ▸ hrow)
  obtain ⟨c, hc, hwc⟩ := List.mem_flatMap.1 hw
  exact ⟨c, hc, old, s, hwc⟩

/-- A transaction that writes the row has found it missing and has left it there. -/
theorem InsertsOnly.of_commit (h : InsertsOnly S k) (hC : Consistent E db₀ S) {n : ℕ}
    {c : Commit Db Key Row Stmt} (hc : S.history[n]? = some c) {w : Write Key Row Stmt}
    (hw : w ∈ c.writes) (hk : w.key = k) :
    E.look c.moment.db k = none ∧ (E.look (E.apply c.moment.db c.writes) k).isSome = true := by
  obtain ⟨key, old, new, s⟩ := w
  obtain rfl : key = k := hk
  have hmem : ∀ {w : Write Key Row Stmt}, w ∈ c.writes → w ∈ written S.history := fun hw ↦
    List.mem_flatMap.2 ⟨c, List.mem_of_getElem? hc, hw⟩
  obtain ⟨hold, hnew⟩ := h old new s (hmem hw)
  obtain ⟨hbefore, hafter⟩ := Store.Chain.of_mem (hC.commit hc).2.2.2.1 hw
    (P := fun r ↦ r.isSome = true) fun old new s hw _ ↦ (h old new s (hmem hw)).2
  refine ⟨?_, hafter hnew⟩
  rw [← Option.not_isSome_iff_eq_none]
  intro hsome
  have hthere := hbefore hsome
  rw [hold] at hthere
  cases hthere

variable [DecidableEq Key]

/-- The transaction writes the row. -/
def writesTo (k : Key) (c : Commit Db Key Row Stmt) : Bool := c.writes.any fun w ↦ w.key = k

theorem writesTo_iff {c : Commit Db Key Row Stmt} :
    writesTo k c = true ↔ ∃ w ∈ c.writes, w.key = k := by
  simp [writesTo]

/-- **Written once.** A row that was missing has been written by one transaction if it is there now,
and by none if it is not. -/
theorem InsertsOnly.countP_eq (h : InsertsOnly S k) (hC : Consistent E db₀ S)
    (hnew : E.look db₀ k = none) :
    S.history.countP (writesTo k) = if (E.look S.moment.db k).isSome then 1 else 0 := by
  have hle := hC.countP_add_le (k := k) (fun r ↦ if r.isSome then 1 else 0) (p := writesTo k)
    (fun old new s hw ↦ ?_) fun n c hc hp ↦ ?_
  · rw [hnew] at hle
    simp only [Option.isSome_none, Bool.false_eq_true, if_false, Nat.zero_add] at hle
    refine le_antisymm hle ?_
    split
    · rename_i hsome
      -- a row that has appeared was written
      rw [Nat.one_le_iff_ne_zero, ← Nat.pos_iff_ne_zero, List.countP_pos_iff]
      by_contra hnone
      rw [look_eq_of_forall_ne hC fun w hw heq ↦ ?_, hnew] at hsome
      · cases hsome
      · obtain ⟨c, hc, hw⟩ := List.mem_flatMap.1 hw
        exact hnone ⟨c, hc, writesTo_iff.2 ⟨w, hw, heq⟩⟩
    · exact Nat.zero_le _
  · rw [(h old new s hw).2]
    split <;> simp
  · obtain ⟨w, hw, hk⟩ := writesTo_iff.1 hp
    obtain ⟨hbefore, hafter⟩ := h.of_commit hC hc hw hk
    simp [hbefore, hafter]

end Txn.System

import Mathlib.Data.List.AList
import Mathlib.Data.List.Sort

/-!
# Tables with a primary key

A table is a finite map from keys to rows, kept as the association list `AList` of Mathlib, so
that a duplicate key cannot be built. This module adds what a relational table has on top of a
finite map: the list of its rows, and the number of rows satisfying a condition together with
the law for how one row write changes that number (`count_insert`, `count_erase`).

Row order is the order of the association list and carries no meaning; queries that promise an
order sort explicitly.
-/

/-- A finite table with primary key `κ` and rows `ρ`. -/
abbrev Table (κ ρ : Type) : Type := AList fun _ : κ ↦ ρ

namespace Table

variable {κ ρ : Type}

/-- The rows of a table with their keys. -/
def rows (t : Table κ ρ) : List (κ × ρ) :=
  t.entries.map fun e ↦ (e.1, e.2)

/-- `SELECT COUNT(*) … WHERE p`. -/
def count (p : κ → ρ → Bool) (t : Table κ ρ) : ℕ :=
  t.entries.countP fun e ↦ p e.1 e.2

/-- The rows satisfying a condition, with their keys: `SELECT … WHERE p`. -/
def select (p : κ → ρ → Bool) (t : Table κ ρ) : List (κ × ρ) :=
  t.rows.filter fun e ↦ p e.1 e.2

theorem count_eq_length_select (p : κ → ρ → Bool) (t : Table κ ρ) :
    t.count p = (t.select p).length := by
  rw [count, select, rows, List.countP_eq_length_filter, List.filter_map, List.length_map]
  rfl

@[simp] theorem rows_empty : rows (∅ : Table κ ρ) = [] := rfl

@[simp] theorem count_empty (p : κ → ρ → Bool) : count p (∅ : Table κ ρ) = 0 := rfl

/-- The keys of a table never repeat. -/
theorem nodup_keys (t : Table κ ρ) : (t.rows.map Prod.fst).Nodup := by
  have hkeys : t.rows.map Prod.fst = t.keys := by
    simp [rows, AList.keys, List.keys]
  exact hkeys ▸ t.keys_nodup

/-- The keys of a selection never repeat. -/
theorem nodup_select_keys (p : κ → ρ → Bool) (t : Table κ ρ) :
    ((t.select p).map Prod.fst).Nodup :=
  t.nodup_keys.sublist ((List.filter_sublist (l := t.rows)).map Prod.fst)

/-- The contribution of key `k` to a count: one when its row satisfies the condition. -/
def countAt (p : κ → ρ → Bool) (k : κ) (r : Option ρ) : ℕ :=
  if r.any (p k) then 1 else 0

@[simp] theorem countAt_none (p : κ → ρ → Bool) (k : κ) : countAt p k none = 0 := rfl

@[simp] theorem countAt_some (p : κ → ρ → Bool) (k : κ) (r : ρ) :
    countAt p k (some r) = if p k r then 1 else 0 := rfl

variable [DecidableEq κ]

/-- Write a row, or delete it. -/
def set (t : Table κ ρ) (k : κ) : Option ρ → Table κ ρ
  | some r => t.insert k r
  | none => t.erase k

@[simp] theorem lookup_set_self (t : Table κ ρ) (k : κ) (r : Option ρ) :
    (t.set k r).lookup k = r := by
  cases r with
  | none => exact AList.lookup_erase k t
  | some r => exact AList.lookup_insert t

theorem lookup_set_of_ne (t : Table κ ρ) {k k' : κ} (r : Option ρ) (h : k' ≠ k) :
    (t.set k r).lookup k' = t.lookup k' := by
  cases r with
  | none => exact AList.lookup_erase_ne h
  | some r => exact AList.lookup_insert_ne h

theorem mem_rows_iff {t : Table κ ρ} {k : κ} {r : ρ} :
    (k, r) ∈ t.rows ↔ t.lookup k = some r := by
  rw [← Option.mem_def, AList.mem_lookup_iff, rows]
  constructor
  · intro h
    obtain ⟨⟨k', r'⟩, he, heq⟩ := List.mem_map.1 h
    cases heq
    exact he
  · exact fun h ↦ List.mem_map.2 ⟨⟨k, r⟩, h, rfl⟩

theorem mem_select_iff {p : κ → ρ → Bool} {t : Table κ ρ} {k : κ} {r : ρ} :
    (k, r) ∈ t.select p ↔ t.lookup k = some r ∧ p k r = true := by
  rw [select, List.mem_filter, mem_rows_iff]

private theorem countP_kerase (p : κ → ρ → Bool) (k : κ) :
    ∀ l : List (Sigma fun _ : κ ↦ ρ), l.NodupKeys →
      (l.kerase k).countP (fun e ↦ p e.1 e.2) + countAt p k (l.dlookup k) =
        l.countP fun e ↦ p e.1 e.2 := by
  intro l
  induction l with
  | nil => intro _; rfl
  | cons e l ih =>
    intro hnd
    obtain ⟨k', r⟩ := e
    have hcons := List.nodupKeys_cons.1 hnd
    by_cases hk : k = k'
    · subst hk
      have hker : List.kerase k (⟨k, r⟩ :: l) = l := List.kerase_cons_eq rfl
      rw [hker, List.dlookup_cons_eq, List.countP_cons, countAt_some]
    · rw [List.kerase_cons_ne hk, List.dlookup_cons_ne _ _ hk, List.countP_cons, List.countP_cons,
        ← ih hcons.2]
      omega

/-- Erasing a key takes its contribution out of every count. -/
theorem count_erase (p : κ → ρ → Bool) (k : κ) (t : Table κ ρ) :
    count p (t.erase k) + countAt p k (t.lookup k) = count p t :=
  countP_kerase p k t.entries t.nodupKeys

/-- Writing a row replaces the contribution of its key. -/
theorem count_insert (p : κ → ρ → Bool) (k : κ) (r : ρ) (t : Table κ ρ) :
    count p (t.insert k r) + countAt p k (t.lookup k) = count p t + countAt p k (some r) := by
  have h := countP_kerase p k t.entries t.nodupKeys
  rw [count, AList.entries_insert, List.countP_cons, count, ← h]
  simp only [countAt_some, AList.lookup]
  omega

/-- Writing or deleting a row replaces the contribution of its key. -/
theorem count_set (p : κ → ρ → Bool) (k : κ) (r : Option ρ) (t : Table κ ρ) :
    count p (t.set k r) + countAt p k (t.lookup k) = count p t + countAt p k r := by
  cases r with
  | none => exact count_erase p k t
  | some r => exact count_insert p k r t

/-- Counting a stronger condition gives no more rows. -/
theorem count_le_count {p q : κ → ρ → Bool} (t : Table κ ρ)
    (h : ∀ k r, t.lookup k = some r → p k r = true → q k r = true) : count p t ≤ count q t := by
  refine List.countP_mono_left fun e he hp ↦ h e.1 e.2 ?_ hp
  exact AList.mem_lookup_iff.2 he

/-- Distinct keys whose rows satisfy a condition are counted by it. -/
theorem length_le_count {p : κ → ρ → Bool} {t : Table κ ρ} {ks : List κ} (hnd : ks.Nodup)
    (h : ∀ k ∈ ks, ∃ r, t.lookup k = some r ∧ p k r = true) : ks.length ≤ count p t := by
  rw [count_eq_length_select, ← List.length_map (f := Prod.fst)]
  refine (List.subperm_of_subset hnd fun k hk ↦ ?_).length_le
  obtain ⟨r, hr, hp⟩ := h k hk
  exact List.mem_map.2 ⟨(k, r), mem_select_iff.2 ⟨hr, hp⟩, rfl⟩

end Table

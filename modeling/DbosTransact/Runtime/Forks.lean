import DbosTransact.Runtime.Attempts

/-!
# What a fork copies

`fork_workflow` inserts the fork in one transaction, and with it copies of what the original has
recorded at the step ids below the start step: its records, the history of its events, the event set
last under each key, and its stream entries. The transaction is one of read committed, so each of
the four copies is taken from a state of its own, at some time during the fork. `fork_copies` says
of the whole database after the commit, row by row, what it holds.

What is copied is enough for replay. A call of the fork at a step id below the start step that the
original had completed before the fork was made returns a reply that agrees with the one the
original got (`fork_replays`): the fork has the same record, and replies are read off records.
-/

namespace Dbos

open Txn

/-! ### Copies -/

/-- The writes put the rows of `f` where there are any, and leave the other rows. -/
def Copies (f : (k : Key) → Option (Row k)) (ws : List DbWrite) : Prop :=
  ∀ db k, store.look (store.apply db ws) k = (f k).or (store.look db k)

theorem Copies.nil : Copies (fun _ ↦ none) [] := fun _ _ ↦ rfl

theorem Copies.append {f g : (k : Key) → Option (Row k)} {ws ws' : List DbWrite} (hf : Copies f ws)
    (hg : Copies g ws') : Copies (fun k ↦ (g k).or (f k)) (ws ++ ws') := by
  intro db k
  rw [store.apply_append, hg, hf, Option.or_assoc]

theorem Copies.congr {f g : (k : Key) → Option (Row k)} {ws : List DbWrite} (h : Copies f ws)
    (heq : ∀ k, f k = g k) : Copies g ws :=
  fun db k ↦ by rw [h db k, heq]

/-- The writes of a copy. -/
theorem copies_of_runCopy {v : DbView Stmt} {w : String} {rows : List (Σ k : Key, Row k)} {u : Unit}
    {ch : Changes} {s : Stmt} (h : Stmt.runCopy v w rows = .done u ch)
    (hnd : (rows.map Sigma.fst).Nodup) {f : (k : Key) → Option (Row k)}
    (hf : ∀ k row, (⟨k, row⟩ : Σ k : Key, Row k) ∈ rows ↔ f k = some row) :
    Copies f (store.record s v.cur ch) := by
  obtain ⟨rfl, -⟩ := View.insertAll_done h
  have hnd' : ((rows.map fun r ↦ (⟨r.1, some r.2⟩ : Σ k : Key, Option (Row k))).map
      Sigma.fst).Nodup := by
    rw [List.map_map]
    exact hnd
  have hmem : ∀ {x : DbWrite}, x ∈ store.record s v.cur
        (rows.map fun r ↦ (⟨r.1, some r.2⟩ : Σ k : Key, Option (Row k))) →
      ∃ row, x.new = some row ∧ f x.key = some row := by
    intro x hx
    obtain ⟨c, hc, rfl⟩ := (store.mem_record hnd').1 hx
    obtain ⟨r, hr, rfl⟩ := List.mem_map.1 hc
    exact ⟨r.2, rfl, (hf r.1 r.2).1 hr⟩
  intro db k
  cases hk : f k with
  | none =>
    rw [Option.none_or]
    refine store.look_apply_of_forall_ne fun x hx heq ↦ ?_
    obtain ⟨row, -, hrow⟩ := hmem hx
    subst heq
    rw [hk] at hrow
    cases hrow
  | some row =>
    rw [Option.some_or]
    have hin : (⟨k, store.look v.cur k, some row, s⟩ : DbWrite) ∈ store.record s v.cur
        (rows.map fun r ↦ (⟨r.1, some r.2⟩ : Σ k : Key, Option (Row k))) :=
      (store.mem_record hnd').2 ⟨⟨k, some row⟩, List.mem_map_of_mem ((hf k row).2 hk), rfl⟩
    have hlook := store.look_apply_of_mem db (by rw [store.map_key_record]; exact hnd') hin
    exact hlook

/-- The event of a workflow that was set last under a key at a step id below `n`. -/
def Db.eventBelow (db : Db) (w : String) (n : ℤ) (key : String) : Option EventRow :=
  ((Stmt.latestEventsBelow db w n).find? fun e ↦ e.1.2.2 = key).map Prod.snd

theorem Db.eventBelow_eq_some {db : Db} {w key : String} {n : ℤ} {row : EventRow} :
    db.eventBelow w n key = some row ↔ ∃ k : ℕ, (k : ℤ) < n ∧
      db.workflowEventsHistory.lookup (w, k, key) = some row ∧
      ∀ k' : ℕ, (k' : ℤ) < n → (db.workflowEventsHistory.lookup (w, k', key)).isSome = true →
        k' ≤ k := by
  -- an entry of the history with the key, and what the filter asks of it
  have hlatest : ∀ k row, ((w, k, key), row) ∈ Stmt.latestEventsBelow db w n ↔ (k : ℤ) < n ∧
      db.workflowEventsHistory.lookup (w, k, key) = some row ∧
      ∀ k' : ℕ, (k' : ℤ) < n → (db.workflowEventsHistory.lookup (w, k', key)).isSome = true →
        k' ≤ k := by
    intro k row
    rw [Stmt.mem_latestEventsBelow, Stmt.mem_eventsBelow]
    refine ⟨fun ⟨⟨hrow, _, hlt⟩, hlast⟩ ↦ ⟨hlt, hrow, fun k' hk' hsome ↦ ?_⟩,
      fun ⟨hlt, hrow, hlast⟩ ↦ ⟨⟨hrow, rfl, hlt⟩, fun e he hkey ↦ ?_⟩⟩
    · obtain ⟨row', hrow'⟩ := Option.isSome_iff_exists.1 hsome
      exact hlast ((w, k', key), row') (Stmt.mem_eventsBelow.2 ⟨hrow', rfl, hk'⟩) rfl
    · obtain ⟨⟨w', k', key'⟩, row'⟩ := e
      obtain ⟨hrow', rfl, hlt'⟩ := Stmt.mem_eventsBelow.1 he
      obtain rfl : key' = key := hkey
      exact hlast k' hlt' (Option.isSome_iff_exists.2 ⟨row', hrow'⟩)
  rw [Db.eventBelow, Option.map_eq_some_iff]
  constructor
  · rintro ⟨⟨⟨w', k, key'⟩, row'⟩, hfind, rfl⟩
    obtain rfl : key' = key := by simpa using List.find?_some hfind
    have hmem := List.mem_of_find?_eq_some hfind
    obtain rfl : w' = w := (Stmt.mem_eventsBelow.1 (Stmt.mem_latestEventsBelow.1 hmem).1).2.1
    exact ⟨k, (hlatest k row').1 hmem⟩
  · rintro ⟨k, hk⟩
    have hmem := (hlatest k row).2 hk
    cases hfind : (Stmt.latestEventsBelow db w n).find? fun e ↦ e.1.2.2 = key with
    | none => exact absurd (List.find?_eq_none.1 hfind _ hmem) (by simp)
    | some e =>
      obtain ⟨⟨w', k', key'⟩, row'⟩ := e
      obtain rfl : key' = key := by simpa using List.find?_some hfind
      have hmem' := List.mem_of_find?_eq_some hfind
      obtain rfl : w' = w := (Stmt.mem_eventsBelow.1 (Stmt.mem_latestEventsBelow.1 hmem').1).2.1
      -- of two entries with the key that are both the last, each is the other
      obtain ⟨hlt', hrow', hlast'⟩ := (hlatest k' row').1 hmem'
      have hle := hlast' k hk.1 (Option.isSome_iff_exists.2 ⟨row, hk.2.1⟩)
      have hge := hk.2.2 k' hlt' (Option.isSome_iff_exists.2 ⟨row', hrow'⟩)
      obtain rfl := le_antisymm hle hge
      exact ⟨_, rfl, Option.some.inj (hrow'.symm.trans hk.2.1)⟩

section

variable {newId original : String} {n : ℤ} {v : DbView Stmt} {db : Db} {u : Unit} {ch : Changes}

/-- The rows of each table that a fork copies from a state. -/
def copiedRecords (newId original : String) (n : ℤ) (db : Db) : (k : Key) → Option (Row k)
  | .operationOutputs w k => if w = newId ∧ (k : ℤ) < n then db.operation original k else none
  | _ => none

def copiedHistory (newId original : String) (n : ℤ) (db : Db) : (k : Key) → Option (Row k)
  | .workflowEventsHistory w k key =>
    if w = newId ∧ (k : ℤ) < n then db.workflowEventsHistory.lookup (original, k, key) else none
  | _ => none

def copiedEvents (newId original : String) (n : ℤ) (db : Db) : (k : Key) → Option (Row k)
  | .workflowEvents w key => if w = newId then db.eventBelow original n key else none
  | _ => none

def copiedStreams (newId original : String) (n : ℤ) (db : Db) : (k : Key) → Option (Row k)
  | .streams w key i =>
    if w = newId then
      (db.streams.lookup (original, key, i)).filter fun r ↦ (r.functionId : ℤ) < n
    else none
  | _ => none

theorem copyOperations_done (h : Stmt.run v (.copyOperations newId original n) = .done u ch)
    (hbase : ∀ k, v.base.operation original k = db.operation original k) :
    Copies (copiedRecords newId original n db)
      (store.record (Stmt.copyOperations newId original n) v.cur ch) := by
  refine copies_of_runCopy h (Stmt.nodup_copied
    (List.Sublist.refl (Stmt.operationsBelow v.base original n))
    (f := fun k ↦ .operationOutputs newId k.2) (g := Prod.snd) fun a ha b hb heq ↦ ?_)
    fun k row ↦ ?_
  · have hw := (Stmt.mem_operationsBelow.1 ha).2.1.trans (Stmt.mem_operationsBelow.1 hb).2.1.symm
    exact Prod.ext hw (Key.operationOutputs.inj heq).2
  · rw [List.mem_map]
    constructor
    · rintro ⟨⟨⟨w, j⟩, row'⟩, he, heq⟩
      obtain ⟨hrow, rfl, hlt⟩ := Stmt.mem_operationsBelow.1 he
      cases heq
      exact (if_pos ⟨rfl, hlt⟩).trans ((hbase j).symm.trans hrow)
    · intro hk
      cases k with
      | operationOutputs w j =>
        obtain ⟨⟨rfl, hlt⟩, hrow⟩ := Option.ite_none_right_eq_some.1 hk
        exact ⟨((original, j), row),
          Stmt.mem_operationsBelow.2 ⟨(hbase j).trans hrow, rfl, hlt⟩, rfl⟩
      | _ => cases hk

theorem copyEventsHistory_done (h : Stmt.run v (.copyEventsHistory newId original n) = .done u ch)
    (hbase : ∀ k key, v.base.workflowEventsHistory.lookup (original, k, key) =
      db.workflowEventsHistory.lookup (original, k, key)) :
    Copies (copiedHistory newId original n db)
      (store.record (Stmt.copyEventsHistory newId original n) v.cur ch) := by
  refine copies_of_runCopy h (Stmt.nodup_copied
    (List.Sublist.refl (Stmt.eventsBelow v.base original n))
    (f := fun k ↦ .workflowEventsHistory newId k.2.1 k.2.2) (g := Prod.snd) fun a ha b hb heq ↦ ?_)
    fun k row ↦ ?_
  · have hw := (Stmt.mem_eventsBelow.1 ha).2.1.trans (Stmt.mem_eventsBelow.1 hb).2.1.symm
    obtain ⟨-, hstep, hkey⟩ := Key.workflowEventsHistory.inj heq
    exact Prod.ext hw (Prod.ext hstep hkey)
  · rw [List.mem_map]
    constructor
    · rintro ⟨⟨⟨w, j, key⟩, row'⟩, he, heq⟩
      obtain ⟨hrow, rfl, hlt⟩ := Stmt.mem_eventsBelow.1 he
      cases heq
      exact (if_pos ⟨rfl, hlt⟩).trans ((hbase j key).symm.trans hrow)
    · intro hk
      cases k with
      | workflowEventsHistory w j key =>
        obtain ⟨⟨rfl, hlt⟩, hrow⟩ := Option.ite_none_right_eq_some.1 hk
        exact ⟨((original, j, key), row),
          Stmt.mem_eventsBelow.2 ⟨(hbase j key).trans hrow, rfl, hlt⟩, rfl⟩
      | _ => cases hk

theorem copyEvents_done (h : Stmt.run v (.copyEvents newId original n) = .done u ch)
    (hbase : ∀ k key, v.base.workflowEventsHistory.lookup (original, k, key) =
      db.workflowEventsHistory.lookup (original, k, key)) :
    Copies (copiedEvents newId original n db)
      (store.record (Stmt.copyEvents newId original n) v.cur ch) := by
  have hsame : ∀ key, v.base.eventBelow original n key = db.eventBelow original n key := by
    intro key
    refine Option.ext fun row ↦ ?_
    rw [Db.eventBelow_eq_some, Db.eventBelow_eq_some]
    simp only [hbase]
  refine copies_of_runCopy h (Stmt.nodup_copied (List.filter_sublist :
      (Stmt.latestEventsBelow v.base original n).Sublist (Stmt.eventsBelow v.base original n))
    (f := fun k ↦ .workflowEvents newId k.2.2) (g := Prod.snd) fun a ha b hb heq ↦ ?_)
    fun k row ↦ ?_
  · obtain ⟨ha, hlast⟩ := Stmt.mem_latestEventsBelow.1 ha
    obtain ⟨hb, hlast'⟩ := Stmt.mem_latestEventsBelow.1 hb
    have hkey := (Key.workflowEvents.inj heq).2
    have hw := (Stmt.mem_eventsBelow.1 ha).2.1.trans (Stmt.mem_eventsBelow.1 hb).2.1.symm
    exact Prod.ext hw (Prod.ext (le_antisymm (hlast' a ha hkey) (hlast b hb hkey.symm)) hkey)
  · rw [List.mem_map]
    constructor
    · rintro ⟨⟨⟨w, j, key⟩, row'⟩, he, heq⟩
      obtain ⟨hbelow, hlast⟩ := Stmt.mem_latestEventsBelow.1 he
      obtain ⟨hrow, rfl, hlt⟩ := Stmt.mem_eventsBelow.1 hbelow
      cases heq
      refine (if_pos rfl).trans ((hsame key).symm.trans (Db.eventBelow_eq_some.2
        ⟨j, hlt, hrow, fun j' hlt' hsome ↦ ?_⟩))
      obtain ⟨row', hrow'⟩ := Option.isSome_iff_exists.1 hsome
      exact hlast ((w, j', key), row') (Stmt.mem_eventsBelow.2 ⟨hrow', rfl, hlt'⟩) rfl
    · intro hk
      cases k with
      | workflowEvents w key =>
        obtain ⟨rfl, hrow⟩ := Option.ite_none_right_eq_some.1 hk
        rw [← hsame, Db.eventBelow, Option.map_eq_some_iff] at hrow
        obtain ⟨⟨⟨w', j, key'⟩, row'⟩, hfind, rfl⟩ := hrow
        obtain rfl : key' = key := by simpa using List.find?_some hfind
        exact ⟨_, List.mem_of_find?_eq_some hfind, rfl⟩
      | _ => cases hk

theorem copyStreams_done (h : Stmt.run v (.copyStreams newId original n) = .done u ch)
    (hbase : ∀ key i, v.base.streams.lookup (original, key, i) =
      db.streams.lookup (original, key, i)) :
    Copies (copiedStreams newId original n db)
      (store.record (Stmt.copyStreams newId original n) v.cur ch) := by
  refine copies_of_runCopy h (Stmt.nodup_copied
    (List.Sublist.refl (Stmt.streamsBelow v.base original n))
    (f := fun k ↦ .streams newId k.2.1 k.2.2) (g := Prod.snd) fun a ha b hb heq ↦ ?_)
    fun k row ↦ ?_
  · have hw := (Stmt.mem_streamsBelow.1 ha).2.1.trans (Stmt.mem_streamsBelow.1 hb).2.1.symm
    obtain ⟨-, hkey, hoffset⟩ := Key.streams.inj heq
    exact Prod.ext hw (Prod.ext hkey hoffset)
  · rw [List.mem_map]
    constructor
    · rintro ⟨⟨⟨w, key, i⟩, row'⟩, he, heq⟩
      obtain ⟨hrow, rfl, hlt⟩ := Stmt.mem_streamsBelow.1 he
      cases heq
      refine (if_pos rfl).trans (Option.filter_eq_some_iff.2
        ⟨(hbase key i).symm.trans hrow, decide_eq_true hlt⟩)
    · intro hk
      cases k with
      | streams w key i =>
        obtain ⟨rfl, hrow⟩ := Option.ite_none_right_eq_some.1 hk
        obtain ⟨hrow, hlt⟩ := Option.filter_eq_some_iff.1 hrow
        exact ⟨((original, key, i), row),
          Stmt.mem_streamsBelow.2 ⟨(hbase key i).trans hrow, rfl, of_decide_eq_true hlt⟩, rfl⟩
      | _ => cases hk

end

/-! ### The transaction -/

/-- What the four copies of a fork are taken from. -/
structure ForkSources (σ : Type) where
  records : σ
  history : σ
  events : σ
  streams : σ

def ForkSources.map {σ σ' : Type} (f : σ → σ') (src : ForkSources σ) : ForkSources σ' :=
  ⟨f src.records, f src.history, f src.events, f src.streams⟩

def ForkSources.All {σ : Type} (P : σ → Prop) (src : ForkSources σ) : Prop :=
  P src.records ∧ P src.history ∧ P src.events ∧ P src.streams

theorem ForkSources.All.mono {σ : Type} {P P' : σ → Prop} {src : ForkSources σ} (h : src.All P)
    (hP : ∀ x, P x → P' x) : src.All P' :=
  ⟨hP _ h.1, hP _ h.2.1, hP _ h.2.2.1, hP _ h.2.2.2⟩

/-- Sources of one kind that correspond to given ones. -/
theorem ForkSources.All.choose {σ σ' υ : Type} {P : σ' → Prop} {src : ForkSources σ} {g : σ → υ}
    {f : σ' → υ} (h : src.All fun x ↦ ∃ y, P y ∧ g x = f y) :
    ∃ src' : ForkSources σ', src'.All P ∧ src.map g = src'.map f := by
  obtain ⟨⟨y₁, h₁, h₁'⟩, ⟨y₂, h₂, h₂'⟩, ⟨y₃, h₃, h₃'⟩, y₄, h₄, h₄'⟩ := h
  refine ⟨⟨y₁, y₂, y₃, y₄⟩, ⟨h₁, h₂, h₃, h₄⟩, ?_⟩
  rw [ForkSources.map, h₁', h₂', h₃', h₄']
  rfl

/-- The rows a fork copies. -/
def copied (newId original : String) (n : ℤ) (src : ForkSources Db) : (k : Key) → Option (Row k)
  | .operationOutputs w k => copiedRecords newId original n src.records (.operationOutputs w k)
  | .workflowEventsHistory w k key =>
    copiedHistory newId original n src.history (.workflowEventsHistory w k key)
  | .workflowEvents w key => copiedEvents newId original n src.events (.workflowEvents w key)
  | .streams w key i => copiedStreams newId original n src.streams (.streams w key i)
  | .notifications _ => none
  | .workflowStatus _ => none

section

variable {Γ : DbSpec} {newId original : String} {n : ℤ} {ws : List DbWrite} {m : DbMoment}
variable {τ : DbTrace} {α : Type}

/-- A statement of a transaction of read committed sees the rows the transaction has written on top
of the committed ones. -/
theorem wpM_query_readCommitted {s : Stmt} {f : s.Res → DbosM α} {Q : DbPost α}
    {X : DbPost DbosError} (hX : ∀ e c m τ, X e c m τ)
    (h : ∀ b m' v a ch, Γ.rely m b → Γ.rely b m' → v.base = store.apply b.db ws →
      v.cur = store.apply m'.db ws → Stmt.run v s = .done a ch →
      wpM Γ (f a) Q X (.active ⟨.readCommitted, none, ws ++ store.record s v.cur ch⟩) m' τ) :
    wpM Γ (query s >>= f) Q X (.active ⟨.readCommitted, none, ws⟩) m τ :=
  wpM_query_active (fun _ _ _ _ _ _ _ _ ↦ hX _ _ _ _) fun b m' v a ch hb hm hv hrun ↦
    h b m' v a ch hb hm hv.base hv.cur hrun

/-- The copies, in a transaction that has written rows of workflows only. -/
theorem wpM_copySteps
    (hws : ∀ db k, (∀ w, k ≠ .workflowStatus w) →
      store.look (store.apply db ws) k = store.look db k)
    {f : Unit → DbosM α} {Q : DbPost α} {X : DbPost DbosError} (hX : ∀ e c m τ, X e c m τ)
    (hf : ∀ (src : ForkSources DbMoment) copies m', Γ.rely m m' →
      (src.All fun x ↦ Γ.rely m x ∧ Γ.rely x m') →
      (newId ≠ original → Copies (copied newId original n (src.map Moment.db)) copies) →
      wpM Γ (f ()) Q X (.active ⟨.readCommitted, none, ws ++ copies⟩) m' τ) :
    wpM Γ (copySteps newId original n >>= f) Q X (.active ⟨.readCommitted, none, ws⟩) m τ := by
  -- what a statement sees of the rows that neither the transaction nor its copies have written
  have unseen : ∀ {g : (k : Key) → Option (Row k)} {copies : List DbWrite}, Copies g copies →
      ∀ db k, (∀ w, k ≠ .workflowStatus w) → g k = none →
        store.look (store.apply db (ws ++ copies)) k = store.look db k := by
    intro g copies hcopies db k hk hnone
    rw [store.apply_append, hcopies, hnone, Option.none_or, hws db k hk]
  rw [copySteps]
  split
  · simp only [bind_assoc]
    refine wpM_query_readCommitted hX fun b₁ m₁ v₁ u₁ ch₁ hb₁ hm₁ hbase₁ _ hrun₁ ↦ ?_
    have h₁ : Copies (copiedRecords newId original n b₁.db)
        (store.record (Stmt.copyOperations newId original n) v₁.cur ch₁) :=
      copyOperations_done hrun₁ fun k ↦ by
        rw [hbase₁]
        exact hws b₁.db (.operationOutputs original k) (by simp)
    refine wpM_query_readCommitted hX fun b₂ m₂ v₂ u₂ ch₂ hb₂ hm₂ hbase₂ _ hrun₂ ↦ ?_
    have h₂ : Copies (copiedHistory newId original n b₂.db)
        (store.record (Stmt.copyEventsHistory newId original n) v₂.cur ch₂) :=
      copyEventsHistory_done hrun₂ fun k key ↦ by
        rw [hbase₂]
        exact unseen h₁ b₂.db (.workflowEventsHistory original k key) (by simp) rfl
    refine wpM_query_readCommitted hX fun b₃ m₃ v₃ u₃ ch₃ hb₃ hm₃ hbase₃ _ hrun₃ ↦ ?_
    have h₃ : newId ≠ original → Copies (copiedEvents newId original n b₃.db)
        (store.record (Stmt.copyEvents newId original n) v₃.cur ch₃) := fun hne ↦
      copyEvents_done hrun₃ fun k key ↦ by
        rw [hbase₃, List.append_assoc]
        exact unseen (h₁.append h₂) b₃.db (.workflowEventsHistory original k key) (by simp)
          (by simp [copiedHistory, copiedRecords, hne.symm])
    refine wpM_query_readCommitted hX fun b₄ m₄ v₄ u₄ ch₄ hb₄ hm₄ hbase₄ _ hrun₄ ↦ ?_
    have h₄ : newId ≠ original → Copies (copiedStreams newId original n b₄.db)
        (store.record (Stmt.copyStreams newId original n) v₄.cur ch₄) := fun hne ↦
      copyStreams_done hrun₄ fun key i ↦ by
        rw [hbase₄, List.append_assoc, List.append_assoc]
        exact unseen (h₁.append (h₂.append (h₃ hne))) b₄.db (.streams original key i) (by simp) rfl
    have h₁₂ : Γ.rely b₁ m₂ := Γ.rely_trans hm₁ (Γ.rely_trans hb₂ hm₂)
    have h₀₂ : Γ.rely m m₂ := Γ.rely_trans hb₁ h₁₂
    have h₃₄ : Γ.rely b₃ m₄ := Γ.rely_trans hm₃ (Γ.rely_trans hb₄ hm₄)
    have h₂₄ : Γ.rely m₂ m₄ := Γ.rely_trans hb₃ h₃₄
    have hbetween : (ForkSources.mk b₁ b₂ b₃ b₄).All fun x ↦ Γ.rely m x ∧ Γ.rely x m₄ :=
      ⟨⟨hb₁, Γ.rely_trans h₁₂ h₂₄⟩,
        ⟨Γ.rely_trans hb₁ (Γ.rely_trans hm₁ hb₂), Γ.rely_trans hm₂ h₂₄⟩,
        ⟨Γ.rely_trans h₀₂ hb₃, h₃₄⟩,
        ⟨Γ.rely_trans h₀₂ (Γ.rely_trans hb₃ (Γ.rely_trans hm₃ hb₄)), hm₄⟩⟩
    rw [List.append_assoc, List.append_assoc, List.append_assoc, show u₄ = () from rfl]
    refine hf _ _ m₄ (Γ.rely_trans h₀₂ h₂₄) hbetween fun hne ↦
      (h₁.append (h₂.append ((h₃ hne).append (h₄ hne)))).congr fun k ↦ ?_
    cases k <;>
      simp [copied, copiedRecords, copiedHistory, copiedEvents, copiedStreams, ForkSources.map]
  · rename_i hn
    rw [pure_bind, ← List.append_nil ws]
    have hsame : Γ.rely m m ∧ Γ.rely m m := ⟨Γ.rely_refl m, Γ.rely_refl m⟩
    refine hf ⟨m, m, m, m⟩ [] m hsame.1 ⟨hsame, hsame, hsame, hsame⟩ fun _ ↦
      Copies.nil.congr fun k ↦ ?_
    -- no step id is below a start step that is not positive
    have hnot : ∀ k : ℕ, ¬ (k : ℤ) < n := fun k hk ↦ hn (lt_of_le_of_lt (by simp) hk)
    cases k with
    | workflowEvents w key =>
      have hnone : m.db.eventBelow original n key = none := by
        refine Option.eq_none_iff_forall_ne_some.2 fun row hrow ↦ ?_
        obtain ⟨k, hk, -⟩ := Db.eventBelow_eq_some.1 hrow
        exact hnot k hk
      simp [copied, copiedEvents, ForkSources.map, hnone]
    | _ => simp [copied, copiedRecords, copiedHistory, copiedStreams, ForkSources.map, hnot]

end

/-- The state is one that the history leads to, after its first `n₀` transactions. -/
def Dated (db₀ : Db) (h : List (Commit Db Key Row Stmt)) (n₀ : ℕ) (m : DbMoment) : Prop :=
  ∃ n, n₀ ≤ n ∧ n ≤ m.xid ∧ m.db = System.stateAt server db₀ h n

/-- Later in a run with history `h`. -/
def Later (db₀ : Db) (h : List (Commit Db Key Row Stmt)) (n₀ : ℕ) (m m' : DbMoment) : Prop :=
  m.Before m' ∧ (Dated db₀ h n₀ m → Dated db₀ h n₀ m')

theorem Later.trans {db₀ : Db} {h : List (Commit Db Key Row Stmt)} {n₀ : ℕ} {m₁ m₂ m₃ : DbMoment}
    (h₁₂ : Later db₀ h n₀ m₁ m₂) (h₂₃ : Later db₀ h n₀ m₂ m₃) : Later db₀ h n₀ m₁ m₃ :=
  ⟨h₁₂.1.trans h₂₃.1, fun hm ↦ h₂₃.2 (h₁₂.2 hm)⟩

/-- The fields of a fork are those of the input, and of the row of the original. -/
structure ForkedWorkflow.Of (input : ForkWorkflowInput) (db : Db) (fork : ForkedWorkflow) :
    Prop where
  original : (db.workflow input.originalWorkflowId).map WorkflowRow.toOriginal = some fork.original
  originalWorkflowId : fork.originalWorkflowId = input.originalWorkflowId
  applicationVersion : fork.applicationVersion = input.applicationVersion
  queueName : fork.queueName = input.queueName.getD internalQueueName
  queuePartitionKey : fork.queuePartitionKey = input.queuePartitionKey

/-- A fork with the id `newId` is committed: the row of the fork, the mark of the original, and the
copies. -/
def ForkCommit (R : DbMoment → DbMoment → Prop) (m₀ : DbMoment) (input : ForkWorkflowInput)
    (newId : String) (e : DbEffect) : Prop :=
  ∃ (fork : ForkedWorkflow) (read : DbMoment) (src : ForkSources DbMoment)
      (marks copies : List DbWrite),
    fork.Of input read.db ∧ (R m₀ read ∧ R read e.moment) ∧
    (src.All fun x ↦ R m₀ x ∧ R x e.moment) ∧
    (newId ≠ input.originalWorkflowId →
      Copies (copied newId input.originalWorkflowId input.startStep (src.map Moment.db)) copies) ∧
    (marks = [] ∨ ∃ r : WorkflowRow, marks = [⟨.workflowStatus input.originalWorkflowId, some r,
      some r.markForked, .markForkedFrom input.originalWorkflowId⟩]) ∧
    e.writes = ⟨.workflowStatus newId, none, some fork.row, .insertForked newId fork⟩ ::
      (marks ++ copies)

/-- What a fork that starts at `m₀` keeps to: it commits nothing but reads and, once, the fork. -/
def forkSpec (valid : DbMoment → (q : Ask) → q.Ans → Bool) (db₀ : Db)
    (h : List (Commit Db Key Row Stmt)) (n₀ : ℕ) (m₀ : DbMoment) (input : ForkWorkflowInput) :
    DbSpec where
  rely := Later db₀ h n₀
  rely_refl m := ⟨.refl m, id⟩
  rely_trans := Later.trans
  valid := valid
  guar τ e := e.writes = [] ∨ (∀ e' ∈ τ.effects, e'.writes = []) ∧
    ∃ newId, (∀ id ∈ input.forkedWorkflowId, newId = id) ∧
      ForkCommit (Later db₀ h n₀) m₀ input newId e

section

variable {valid : DbMoment → (q : Ask) → q.Ans → Bool} {db₀ : Db}
variable {h : List (Commit Db Key Row Stmt)} {n₀ : ℕ} {m₀ m : DbMoment} {input : ForkWorkflowInput}
variable {τ : DbTrace}

theorem ignoresReads_forkSpec : IgnoresReads (forkSpec valid db₀ h n₀ m₀ input) :=
  ⟨fun m ↦ ⟨m.before_after server [], fun ⟨n, hn₀, hn, hdb⟩ ↦
      ⟨n, hn₀, hn.trans (Nat.le_succ _), hdb⟩⟩,
    fun _ _ _ ↦ Or.inl rfl⟩

theorem Stmt.markForkedFrom_done {v : DbView Stmt} {w : String} {u : Unit} {ch : Changes}
    (hrun : run v (.markForkedFrom w) = .done u ch) :
    store.record (Stmt.markForkedFrom w) v.cur ch = [] ∨ ∃ r : WorkflowRow,
      store.record (Stmt.markForkedFrom w) v.cur ch =
        [⟨.workflowStatus w, some r, some r.markForked, .markForkedFrom w⟩] := by
  obtain ⟨r, hr, -⟩ := Outcome.map_eq_done.1 hrun
  rcases View.update_done hr with ⟨-, rfl⟩ | ⟨old, hold, -, -, rfl⟩
  · exact Or.inl rfl
  · refine Or.inr ⟨old, ?_⟩
    rw [Store.record, hold]
    rfl

/-- The row of the fork and the mark of the original are rows of workflows. -/
theorem look_apply_fork {newId : String} {row : Option WorkflowRow} {s : Stmt}
    (marks : List DbWrite)
    (hmarks : marks = [] ∨ ∃ w old new s',
      marks = [(⟨.workflowStatus w, old, new, s'⟩ : DbWrite)]) (db : Db) {k : Key}
    (hk : ∀ w, k ≠ .workflowStatus w) :
    store.look (store.apply db (⟨.workflowStatus newId, none, row, s⟩ :: marks)) k =
      store.look db k := by
  refine store.look_apply_of_forall_ne fun x hx ↦ ?_
  rcases List.mem_cons.1 hx with rfl | hx
  · exact (hk newId).symm
  · rcases hmarks with rfl | ⟨w, old, new, s', rfl⟩
    · cases hx
    · rw [List.mem_singleton.1 hx]
      exact (hk w).symm

/-- The transaction of a fork. -/
theorem wpM_forkTransaction {newId : String} {fork : ForkedWorkflow} {read : DbMoment}
    (hid : ∀ id ∈ input.forkedWorkflowId, newId = id) (hfork : fork.Of input read.db)
    (hread₀ : Later db₀ h n₀ m₀ read) (hread : Later db₀ h n₀ read m)
    (hτ : ∀ e ∈ τ.effects, e.writes = []) :
    wpM (forkSpec valid db₀ h n₀ m₀ input) (transaction do
        query (.insertForked newId fork)
        query (.markForkedFrom input.originalWorkflowId)
        copySteps newId input.originalWorkflowId input.startStep
        commitTx
        return newId)
      (fun newId _ _ τ ↦ ∃ e ∈ τ.effects, (∀ id ∈ input.forkedWorkflowId, newId = id) ∧
        ForkCommit (Later db₀ h n₀) m₀ input newId e)
      (fun _ _ _ _ ↦ True) .idle m τ := by
  refine wpM_transaction (fun _ _ _ _ ↦ trivial) ?_
  refine wpM_query_readCommitted (fun _ _ _ _ ↦ trivial) fun b₁ m₁ v₁ u₁ ch₁ hb₁ hm₁ _ _ hrun₁ ↦ ?_
  obtain ⟨hnone, -, rfl⟩ := View.insert_done hrun₁
  rw [store.record_insert hnone, List.nil_append]
  refine wpM_query_readCommitted (fun _ _ _ _ ↦ trivial) fun b₂ m₂ v₂ u₂ ch₂ hb₂ hm₂ _ _ hrun₂ ↦ ?_
  have hmarks := Stmt.markForkedFrom_done hrun₂
  rw [List.singleton_append]
  have hws : ∀ db k, (∀ w, k ≠ .workflowStatus w) → store.look (store.apply db
      (⟨.workflowStatus newId, none, some fork.row, .insertForked newId fork⟩ ::
        store.record (Stmt.markForkedFrom input.originalWorkflowId) v₂.cur ch₂)) k =
      store.look db k := by
    refine fun db k hk ↦ look_apply_fork _ ?_ db hk
    exact hmarks.imp_right fun ⟨r, hr⟩ ↦ ⟨_, _, _, _, hr⟩
  refine wpM_copySteps hws (fun _ _ _ _ ↦ trivial) fun src copies m₃ h₂₃ hsrc hcopies ↦ ?_
  have h₀₂ : Later db₀ h n₀ m₀ m₂ :=
    hread₀.trans (hread.trans (hb₁.trans (hm₁.trans (hb₂.trans hm₂))))
  have hcommit : ∀ m₄, Later db₀ h n₀ m₃ m₄ → ForkCommit (Later db₀ h n₀) m₀ input newId
      ⟨m₄, none, (⟨.workflowStatus newId, none, some fork.row, .insertForked newId fork⟩ ::
        store.record (Stmt.markForkedFrom input.originalWorkflowId) v₂.cur ch₂) ++ copies⟩ := by
    intro m₄ hm₄
    refine ⟨fork, read, src, _, copies, hfork, ⟨hread₀, ?_⟩, ?_, hcopies, hmarks, rfl⟩
    · exact hread.trans (hb₁.trans (hm₁.trans (hb₂.trans (hm₂.trans (h₂₃.trans hm₄)))))
    · exact hsrc.mono fun x hx ↦ ⟨h₀₂.trans hx.1, hx.2.trans hm₄⟩
  refine wpM_commit (fun m₄ hm₄ _ ↦ Or.inr ⟨hτ, newId, hid, hcommit m₄ hm₄⟩) (fun _ _ _ _ ↦ trivial)
    (fun m₄ hm₄ _ ↦ wpM_pure fun _ _ ↦ ⟨_, ?_, hid, hcommit m₄ hm₄⟩) fun _ _ _ _ _ _ _ ↦ trivial
  rw [Trace.effects_commit]
  exact List.mem_append_right _ (by simp [Moment.effects])

/-- A fork commits its transaction when it returns. -/
theorem wpM_forkWorkflow (hm : Later db₀ h n₀ m₀ m) (hτ : ∀ e ∈ τ.effects, e.writes = []) :
    wpM (forkSpec valid db₀ h n₀ m₀ input) (forkWorkflow input)
      (fun newId _ _ τ ↦ ∃ e ∈ τ.effects, (∀ id ∈ input.forkedWorkflowId, newId = id) ∧
        ForkCommit (Later db₀ h n₀) m₀ input newId e)
      (fun _ _ _ _ ↦ True) .idle m τ := by
  -- what follows once the id is known
  have hrest : ∀ {newId : String} {m : DbMoment} {τ : DbTrace}
      (f : ℤ → Option OriginalRow → DbosM String),
      (∀ now, f now none = throw (.nonExistentWorkflow input.originalWorkflowId)) →
      (∀ now original, f now (some original) = transaction do
        query (.insertForked newId
          { original := original
            originalWorkflowId := input.originalWorkflowId
            applicationVersion := input.applicationVersion
            queueName := input.queueName.getD internalQueueName
            queuePartitionKey := input.queuePartitionKey
            now := now })
        query (.markForkedFrom input.originalWorkflowId)
        copySteps newId input.originalWorkflowId input.startStep
        commitTx
        return newId) →
      (∀ id ∈ input.forkedWorkflowId, newId = id) → Later db₀ h n₀ m₀ m →
      (∀ e ∈ τ.effects, e.writes = []) →
      wpM (forkSpec valid db₀ h n₀ m₀ input) (do
          let now ← ask .now
          let found ← query (.selectOriginal input.originalWorkflowId)
          f now found)
        (fun newId _ _ τ ↦ ∃ e ∈ τ.effects, (∀ id ∈ input.forkedWorkflowId, newId = id) ∧
          ForkCommit (Later db₀ h n₀) m₀ input newId e)
        (fun _ _ _ _ ↦ True) .idle m τ := by
    intro newId m τ f hnone hsome hid hm hτ
    refine wpM_ask fun m₁ hm₁ now _ ↦ ⟨trivial, ?_⟩
    refine wpM_bind (wpM_mono (wpM_read_sent ignoresReads_forkSpec
      (g := fun db ↦ (db.workflow input.originalWorkflowId).map WorkflowRow.toOriginal)
      fun _ ↦ rfl) ?_ fun _ _ _ _ _ ↦ trivial)
    rintro found c m₃ τ₂ ⟨rfl, read, m₂, hread, -, hm₂, hm₃, rfl, rfl⟩
    have hτ₂ : ∀ e ∈ ((τ.note ⟨m₁, .now, now⟩).commit m₂ (some (some read, []))).effects,
        e.writes = [] := by
      intro e he
      rw [Trace.effects_commit, Trace.effects_note] at he
      rcases List.mem_append.1 he with he | he
      · exact hτ e he
      · rw [Moment.effects_some] at he
        rw [List.mem_singleton.1 he]
    cases horiginal : (read.db.workflow input.originalWorkflowId).map WorkflowRow.toOriginal with
    | none =>
      rw [hnone]
      exact wpM_throw fun _ _ ↦ trivial
    | some original =>
      rw [hsome]
      exact wpM_forkTransaction hid ⟨horiginal, rfl, rfl, rfl, rfl⟩
        (hm.trans (hm₁.trans hread)) (hm₂.trans hm₃) hτ₂
  rw [forkWorkflow]
  split
  · rename_i given hgiven
    rw [pure_bind]
    exact hrest _ (fun _ ↦ rfl) (fun _ _ ↦ rfl) (fun x hx ↦ Option.some.inj (hgiven.symm.trans hx))
      hm hτ
  · rename_i hgiven
    exact wpM_ask fun m₁ hm₁ uuid _ ↦ ⟨trivial, hrest _ (fun _ ↦ rfl) (fun _ _ ↦ rfl)
      (by simp [hgiven]) (hm.trans hm₁) (by simpa using hτ)⟩

end

/-! ### Runs -/

/-- Transaction `p` of the history `h` makes the fork `newId`. The fork was not there, and is
inserted with the fields of the input and of the original. What the other tables hold afterwards is
what they held before and the copies, each taken from the state after one of the transactions `n₀`
to `p`; and among the rows of the other workflows that of the original may have been marked. -/
def ForkedAt (db₀ : Db) (h : List (Commit Db Key Row Stmt)) (n₀ p : ℕ) (input : ForkWorkflowInput)
    (newId : String) : Prop :=
  ∃ (fork : ForkedWorkflow) (read : ℕ) (src : ForkSources ℕ),
    (n₀ ≤ read ∧ read ≤ p) ∧ fork.Of input (System.stateAt server db₀ h read) ∧
    (src.All fun x ↦ n₀ ≤ x ∧ x ≤ p) ∧
    (System.stateAt server db₀ h p).workflow newId = none ∧
    (newId ≠ input.originalWorkflowId →
      (System.stateAt server db₀ h (p + 1)).workflow newId = some fork.row ∧
      (∀ k, (∀ w, k ≠ .workflowStatus w) → store.look (System.stateAt server db₀ h (p + 1)) k =
        (copied newId input.originalWorkflowId input.startStep
          (src.map (System.stateAt server db₀ h)) k).or
          (store.look (System.stateAt server db₀ h p) k)) ∧
      ∀ w, w ≠ newId → (System.stateAt server db₀ h (p + 1)).workflow w =
          (System.stateAt server db₀ h p).workflow w ∨
        w = input.originalWorkflowId ∧ (System.stateAt server db₀ h (p + 1)).workflow w =
          ((System.stateAt server db₀ h p).workflow w).map WorkflowRow.markForked)

section

variable {V : Type} {db₀ : Db} {S : RuntimeSystem V} {n₀ : ℕ} {m₀ : DbMoment}
variable {input : ForkWorkflowInput} {newId : String}

/-- The transaction of a fork, seen from the history. -/
theorem ForkCommit.forkedAt (hC : System.Consistent server db₀ S) (hm₀ : Dated db₀ S.history n₀ m₀)
    {p : ℕ} {c : Commit Db Key Row Stmt} (hc : S.history[p]? = some c)
    (hfork : ForkCommit (Later db₀ S.history n₀) m₀ input newId c.toEffect) :
    ForkedAt db₀ S.history n₀ p input newId := by
  obtain ⟨fork, read, src, marks, copies, hof, ⟨hread₀, hread⟩, hsrc, hcopies, hmarks, hwrites⟩ :=
    hfork
  obtain ⟨hxid, -, -, hchain, -⟩ := hC.commit hc
  have hbefore : System.stateAt server db₀ S.history p = c.moment.db := (hC.before hc).symm
  have hafter : System.stateAt server db₀ S.history (p + 1) =
      store.apply c.moment.db c.writes := by
    rw [System.stateAt_succ db₀ hc, hbefore]
    rfl
  -- a state between the start of the session and the commit is one of the history
  have hdated : ∀ x : DbMoment, Later db₀ S.history n₀ m₀ x → Later db₀ S.history n₀ x c.moment →
      ∃ y, (n₀ ≤ y ∧ y ≤ p) ∧ x.db = System.stateAt server db₀ S.history y := by
    intro x hx hx'
    obtain ⟨y, hy₀, hy, hdb⟩ := hx.2 hm₀
    exact ⟨y, ⟨hy₀, hy.trans (hx'.1.2.1.trans hxid.le)⟩, hdb⟩
  obtain ⟨y, hy, hydb⟩ := hdated read hread₀ hread
  obtain ⟨src', hsrc', hdbs⟩ := (hsrc.mono fun x hx ↦ hdated x hx.1 hx.2).choose
  rw [hdbs] at hcopies
  rw [show c.toEffect.writes = c.writes from rfl] at hwrites
  rw [hwrites] at hchain
  have hnone : c.moment.db.workflow newId = none := hchain.1.symm
  refine ⟨fork, y, src', hy, hydb ▸ hof, hsrc', by rw [hbefore]; exact hnone, fun hne ↦ ?_⟩
  rw [hbefore, hafter, hwrites]
  have hlook : ∀ k, store.look (store.apply c.moment.db
        (⟨.workflowStatus newId, none, some fork.row, .insertForked newId fork⟩ ::
          (marks ++ copies))) k =
      (copied newId input.originalWorkflowId input.startStep
        (src'.map (System.stateAt server db₀ S.history)) k).or
      (store.look (store.apply c.moment.db
        (⟨.workflowStatus newId, none, some fork.row, .insertForked newId fork⟩ :: marks)) k) := by
    intro k
    rw [← List.cons_append, store.apply_append, hcopies hne]
  have hkey : ∀ {w w' : String}, w ≠ w' → Key.workflowStatus w ≠ .workflowStatus w' :=
    fun hne heq ↦ hne (Key.workflowStatus.inj heq)
  refine ⟨?_, fun k hk ↦ ?_, fun w hw ↦ ?_⟩
  · refine (hlook (.workflowStatus newId)).trans ?_
    rw [show copied newId input.originalWorkflowId input.startStep _ (.workflowStatus newId) = none
      from rfl, Option.none_or, store.apply_cons]
    rcases hmarks with rfl | ⟨r, rfl⟩
    · exact store.look_put_self _ _ _
    · rw [store.apply_cons, store.apply_nil, store.look_put_of_ne _ _ _ _ (hkey hne)]
      exact store.look_put_self _ _ _
  · rw [hlook, look_apply_fork marks (hmarks.imp_right fun ⟨r, hr⟩ ↦ ⟨_, _, _, _, hr⟩) _ hk]
  · have hkeep : ∀ row, store.look (store.put c.moment.db (.workflowStatus newId) row)
        (.workflowStatus w) = c.moment.db.workflow w :=
      fun row ↦ store.look_put_of_ne _ _ _ _ (hkey hw)
    have hrow : (store.apply c.moment.db (⟨.workflowStatus newId, none, some fork.row,
          .insertForked newId fork⟩ :: (marks ++ copies))).workflow w =
        store.look (store.apply c.moment.db (⟨.workflowStatus newId, none, some fork.row,
          .insertForked newId fork⟩ :: marks)) (.workflowStatus w) :=
      hlook (.workflowStatus w)
    rw [hrow, store.apply_cons]
    rcases hmarks with rfl | ⟨r, rfl⟩
    · exact Or.inl (hkeep _)
    · rw [store.apply_cons, store.apply_nil]
      by_cases horiginal : w = input.originalWorkflowId
      · -- the row that is marked is the one that was there
        subst horiginal
        have hold : some r = c.moment.db.workflow input.originalWorkflowId :=
          (show some r = _ from hchain.2.1).trans (hkeep _)
        refine Or.inr ⟨rfl, ?_⟩
        rw [← hold]
        exact store.look_put_self _ _ _
      · left
        rw [store.look_put_of_ne _ _ _ _ (hkey horiginal)]
        exact hkeep _

variable [SerdeJson] {valid : DbMoment → (q : Ask) → q.Ans → Bool} {executor : ℕ → DbosInner}
variable {ops : ℕ → Operation V} {time : ℤ} {S₀ : RuntimeSystem V}

/-- What the session of a fork keeps to. -/
theorem sound_fork
    (h₀ : Run (System.step server valid) (fun _ l ↦ Carries executor ops l)
      (System.init db₀ time) S₀) {i : ℕ} (hnew : S₀.unused i = true)
    (hop : ops i = .call (.fork input))
    (h : Run (System.step server valid) (fun _ l ↦ Carries executor ops l) S₀ S) :
    System.Consistent server db₀ S ∧ Dated db₀ S.history S₀.history.length S₀.moment ∧
    ∃ Γ Q, Γ i = forkSpec valid db₀ S.history S₀.history.length S₀.moment input ∧
      Q i = (fun r _ _ τ ↦ ∀ newId, r.2 = .ok (.call (.forked newId)) →
        ∃ e ∈ τ.effects, (∀ id ∈ input.forkedWorkflowId, newId = id) ∧
          ForkCommit (Later db₀ S.history S₀.history.length) S₀.moment input newId e) ∧
      System.Sound server Γ Q S ∧ System.Logged Γ S := by
  have hC₀ := System.consistent_of_run h₀
  obtain ⟨hfirst, hrun⟩ := System.run_to_from hC₀ h
  -- every state of the run is one of the history, from that of the start on
  have hdated : ∀ {m : DbMoment}, System.Shows server db₀ S.history m → S₀.moment.Before m →
      Dated db₀ S.history S₀.history.length m :=
    fun hm hle ↦ ⟨_, hC₀.now.1.ge.trans hle.2.1, le_rfl, hm.db⟩
  obtain ⟨hC, -, Γ, Q, hΓ, hQ, hS, hlog⟩ := System.sound_session_from (E := server)
    (forkSpec valid db₀ S.history S₀.history.length S₀.moment input)
    (fun r _ _ τ ↦ ∀ newId, r.2 = .ok (.call (.forked newId)) →
      ∃ e ∈ τ.effects, (∀ id ∈ input.forkedWorkflowId, newId = id) ∧
        ForkCommit (Later db₀ S.history S₀.history.length) S₀.moment input newId e)
    (P := fun S₁ ↦ Dated db₀ S.history S₀.history.length S₁.moment ∧ S₀.moment.Before S₁.moment)
    rfl (fun _ _ _ _ ↦ trivial) h₀ hnew ⟨hdated hfirst (.refl _), .refl _⟩
    (fun S₁ p hS₁ hok ↦ by
      rw [hok.1 i p rfl, hop]
      refine wp_program
        (wpM_map (wpM_map (wpM_mono (wpM_forkWorkflow ⟨hS₁.2, fun _ ↦ hS₁.1⟩ (by simp))
        (fun newId _ _ τ hfork id heq ↦ ?_) fun _ _ _ _ _ _ heq ↦ by cases heq)))
      cases heq
      exact hfork)
    (fun S₁ l S₂ hS₁ hok hs ↦
      have hle := hS₁.2.trans (System.steps_of_step hs).before
      ⟨hdated (hok.2 S₂ hs) hle, hle⟩)
    (fun S₁ S₂ _ hS₂ hm ↦ ⟨hm, fun _ ↦ hS₂.1⟩) hrun
  exact ⟨hC, hdated hfirst (.refl _), Γ, Q, hΓ, hQ, hS, hlog⟩

/-- A fork that has returned an id has been committed with that id. -/
theorem forkedAt_of_returned
    (h₀ : Run (System.step server valid) (fun _ l ↦ Carries executor ops l)
      (System.init db₀ time) S₀) {i : ℕ} (hnew : S₀.unused i = true)
    (hop : ops i = .call (.fork input))
    (h : Run (System.step server valid) (fun _ l ↦ Carries executor ops l) S₀ S)
    {r : OperationResult V} (hret : Returned S i r) (hr : r.2 = .ok (.call (.forked newId))) :
    (∀ id ∈ input.forkedWorkflowId, newId = id) ∧ ∃ p c, S.history[p]? = some c ∧ c.session = i ∧
      ForkedAt db₀ S.history S₀.history.length p input newId := by
  obtain ⟨hC, hm₀, Γ, Q, -, hQ, hS, -⟩ := sound_fork h₀ hnew hop h
  obtain ⟨s, hs, hreturned⟩ := hret
  have hpost := hS.returned hs hreturned
  rw [hQ] at hpost
  obtain ⟨e, he, hid, hfork⟩ := hpost newId hr
  obtain ⟨c, hc, hsession, rfl⟩ := System.mem_effects_traceOf.1 he
  obtain ⟨p, hp⟩ := List.mem_iff_getElem?.1 hc
  exact ⟨hid, p, c, hp, hsession, hfork.forkedAt hC hm₀ hp⟩

/-- **Forks.** Session `i` of a run forks a workflow, next to sessions that do anything. It commits
nothing but the fork, at once and at most once, with the id of the input if that gives one; and if
it has returned an id, it has committed the fork with that id. -/
theorem fork_copies
    (h₀ : Run (System.step server valid) (fun _ l ↦ Carries executor ops l)
      (System.init db₀ time) S₀) {i : ℕ} (hnew : S₀.unused i = true)
    (hop : ops i = .call (.fork input))
    (h : Run (System.step server valid) (fun _ l ↦ Carries executor ops l) S₀ S) :
    (∀ (p : ℕ) c, S.history[p]? = some c → c.session = i → c.writes = [] ∨
      ∃ newId, (∀ id ∈ input.forkedWorkflowId, newId = id) ∧
        ForkedAt db₀ S.history S₀.history.length p input newId) ∧
    (∀ (p q : ℕ) c d, S.history[p]? = some c → S.history[q]? = some d → c.session = i →
      d.session = i → c.writes ≠ [] → d.writes ≠ [] → p = q) ∧
    ∀ r newId, Returned S i r → r.2 = .ok (.call (.forked newId)) →
      (∀ id ∈ input.forkedWorkflowId, newId = id) ∧ ∃ p c, S.history[p]? = some c ∧ c.session = i ∧
        ForkedAt db₀ S.history S₀.history.length p input newId := by
  obtain ⟨hC, hm₀, Γ, Q, hΓ, -, hS, hlog⟩ := sound_fork h₀ hnew hop h
  refine ⟨fun p c hc hi ↦ ?_, fun p q c d hc hd hi hi' hwrites hwrites' ↦ ?_,
    fun r newId hret hr ↦ forkedAt_of_returned h₀ hnew hop h hret hr⟩
  · obtain ⟨τ, -, -, hguar⟩ := hS.guar c (List.mem_of_getElem? hc)
    rw [hi, hΓ] at hguar
    rcases hguar with hnone | ⟨-, newId, hid, hfork⟩
    · exact Or.inl hnone
    · exact Or.inr ⟨newId, hid, hfork.forkedAt hC hm₀ hc⟩
  · refine hlog.eq_of_guar (P := fun e ↦ e.writes ≠ []) (fun τ e hguar hne e' he' ↦ ?_) hc hd hi hi'
      hwrites hwrites'
    rw [hΓ] at hguar
    exact not_not.2 ((hguar.resolve_left hne).1 e' he')

/-- **A fork replays what the original has done.** Session `i` has returned a reply for a call of
the original at step id `n`. The original is then forked, with a start step beyond `n`; and session
`j` makes the same call for the fork. If both return a reply, the two replies agree. All of this is
next to sessions that do anything but delete the records of the two workflows. -/
theorem fork_replays
    (h₀ : Run (System.step server valid) (fun _ l ↦ Carries executor ops l)
      (System.init db₀ time) S₀) {i j f n : ℕ} {inv : Invocation V} {state state' : WorkflowState}
    {r r' rf : OperationResult V} {reply reply' : Reply V}
    (hi : ops i = .durable state false n inv) (hw : state.workflowId = input.originalWorkflowId)
    (hret : Returned S₀ i r) (hreply : r.2 = .ok (.reply reply)) (hnew : S₀.unused f = true)
    (hf : ops f = .call (.fork input)) (hn : (n : ℤ) < input.startStep)
    (h : Run (System.step server valid) (fun _ l ↦ Carries executor ops l) S₀ S)
    (hforked : Returned S f rf) (hid : rf.2 = .ok (.call (.forked newId)))
    (hne : newId ≠ input.originalWorkflowId)
    (hj : ops j = .durable state' false n inv) (hw' : state'.workflowId = newId)
    (hret' : Returned S j r') (hreply' : r'.2 = .ok (.reply reply')) (hlawful : inv.Lawful)
    (hkept : KeepsRecords S input.originalWorkflowId) (hkept' : KeepsRecords S newId) :
    reply.Agree reply' := by
  have hunused : ∀ i, (System.init db₀ time : RuntimeSystem V).unused i = true := by
    simp [System.unused, System.init]
  have hC₀ : System.Consistent server db₀ S₀ := System.consistent_of_run h₀
  have hC : System.Consistent server db₀ S := System.consistent_of_run (h₀.trans h)
  have hpre := System.history_prefix_of_run h
  -- the original has the record when the fork starts
  obtain ⟨row, hrow, -, hreads⟩ := call_recorded .refl (hunused i) hi h₀
    (hw.symm ▸ hkept.earlier hpre) hret hreply
  obtain ⟨more, hmore⟩ := hpre
  rw [hw, System.db_eq_stateAt hC₀, ← System.stateAt_append db₀ le_rfl, hmore] at hrow
  obtain ⟨p, c, hp, -, fork, read, src, -, -, hsrc, -, hfork⟩ :=
    (forkedAt_of_returned h₀ hnew hf h hforked hid).2
  have hsource : (System.stateAt server db₀ S.history src.records).operation
      input.originalWorkflowId n = some row := by
    exact (hkept.insertsOnly hC n).stays hC hsrc.1.1 hrow
  -- and the fork after its transaction, and so in the end
  have hcopied : (System.stateAt server db₀ S.history (p + 1)).operation newId n = some row := by
    refine ((hfork hne).2.1 (.operationOutputs newId n) (by simp)).trans ?_
    rw [show copied newId input.originalWorkflowId input.startStep _ (.operationOutputs newId n) =
      _ from if_pos ⟨rfl, hn⟩]
    exact congrArg (Option.or · _) hsource
  have hend : S.moment.db.operation newId n = some row := by
    rw [System.db_eq_stateAt hC]
    exact (hkept'.insertsOnly hC n).stays hC (List.getElem?_eq_some_iff.1 hp).1 hcopied
  obtain ⟨row', hrow', -, hreads'⟩ := call_recorded .refl (hunused j) hj (h₀.trans h)
    (hw'.symm ▸ hkept') hret' hreply'
  rw [hw', hend] at hrow'
  obtain rfl := Option.some.inj hrow'
  exact hreads.agree hreads' hlawful

end

/-! ### A workflow that is forked after its first step -/

section

local instance forksJson : SerdeJson := JsonText.jsonText

def forkAtOne : ForkWorkflowInput where
  originalWorkflowId := "w"
  forkedWorkflowId := some "v"
  startStep := 1

/-- Session 0 is the step of the original, session 1 the fork, session 2 the step of the fork. -/
def forkAtOneOps (i : ℕ) : Operation Unit :=
  if i = 0 then .durable ⟨"w", {}⟩ false 0 (stepAndSend 0)
  else if i = 1 then .call (.fork forkAtOne)
  else .durable ⟨"v", {}⟩ false 0 (stepAndSend 0)

def originalSteps : List (RuntimeLabel Unit) :=
  [.spawn 0 ((forkAtOneOps 0).program (anyName "a"))] ++ sendOne 0 ++ sendOne 0 ++ answerOne 0 0 ++
    answerOne 0 0 ++ sendOne 0

def forkAndReplay : List (RuntimeLabel Unit) :=
  [.spawn 1 ((forkAtOneOps 1).program (anyName "a"))] ++ answerOne 1 0 ++ sendOne 1 ++
    commandOne 1 ++ sendOne 1 ++ sendOne 1 ++ sendOne 1 ++ sendOne 1 ++ sendOne 1 ++ sendOne 1 ++
    commandOne 1 ++ commandOne 1 ++ [.spawn 2 ((forkAtOneOps 2).program (anyName "a"))] ++
    sendOne 2 ++ sendOne 2

/-- Whether the operation of a session has made the fork. -/
def forkedAs (id : String)
    (s : Session Db Key Row Stmt Stmt.Res SqlError Ask Ask.Ans (OperationResult Unit)) : Bool :=
  match s.prog with
  | .pure (_, .ok (.call (.forked id'))) => id' = id
  | _ => false

theorem exists_of_forkedAs {S : RuntimeSystem Unit} {i : ℕ} {id : String}
    (h : (S.sessions.lookup i).any (forkedAs id) = true) :
    ∃ r, Returned S i r ∧ r.2 = .ok (.call (.forked id)) := by
  obtain ⟨s, hs, hret⟩ := (Option.any_eq_true _ _).1 h
  unfold forkedAs at hret
  split at hret
  · obtain rfl := of_decide_eq_true hret
    exact ⟨_, ⟨s, hs, by assumption⟩, rfl⟩
  · cases hret

theorem forkAndReplay_run : (exec (System.step server fun _ _ _ ↦ true) (System.init oneWaiting 0)
    originalSteps).any (fun S₀ ↦ (S₀.sessions.lookup 0).any repliedOk && S₀.unused 1 &&
      (exec (System.step server fun _ _ _ ↦ true) S₀ forkAndReplay).any fun S ↦
        (S.sessions.lookup 1).any (forkedAs "v") && (S.sessions.lookup 2).any repliedOk &&
          deletesNothing S) = true := by
  decide +kernel

/-- The states after the step of the original and after that of the fork. -/
theorem exists_forkAndReplay : ∃ S₀ S, exec (System.step server fun _ _ _ ↦ true)
      (System.init oneWaiting 0) originalSteps = some S₀ ∧
    exec (System.step server fun _ _ _ ↦ true) S₀ forkAndReplay = some S ∧
    Run (System.step server fun _ _ _ ↦ true)
      (fun _ l ↦ Carries (fun _ ↦ anyName "a") forkAtOneOps l) (System.init oneWaiting 0) S₀ ∧
    Run (System.step server fun _ _ _ ↦ true)
      (fun _ l ↦ Carries (fun _ ↦ anyName "a") forkAtOneOps l) S₀ S ∧
    (∃ r reply, Returned S₀ 0 r ∧ r.2 = .ok (.reply reply)) ∧ S₀.unused 1 = true ∧
    (∃ r, Returned S 1 r ∧ r.2 = .ok (.call (.forked "v"))) ∧
    (∃ r reply, Returned S 2 r ∧ r.2 = .ok (.reply reply)) ∧ ∀ w, KeepsRecords S w := by
  obtain ⟨S₀, hS₀, hfirst⟩ := (Option.any_eq_true _ _).1 forkAndReplay_run
  simp only [Bool.and_eq_true] at hfirst
  obtain ⟨⟨hreplied, hunused⟩, hrest⟩ := hfirst
  obtain ⟨S, hS, hsecond⟩ := (Option.any_eq_true _ _).1 hrest
  simp only [Bool.and_eq_true] at hsecond
  obtain ⟨⟨hforked, hreplayed⟩, hkept⟩ := hsecond
  have hcarries : ∀ {ls : List (RuntimeLabel Unit)}, (∀ e ∈ ls.filterMap spawnedOperation,
      e.2 = (forkAtOneOps e.1).program (anyName "a")) →
      ∀ l ∈ ls, Carries (fun _ ↦ anyName "a") forkAtOneOps l := by
    rintro ls h l hl i p rfl
    exact h (i, p) (List.mem_filterMap.2 ⟨_, hl, rfl⟩)
  exact ⟨S₀, S, hS₀, hS, Run.of_exec hS₀ fun _ ↦ hcarries (List.forall_mem_singleton.2 rfl),
    Run.of_exec hS fun _ ↦ hcarries (List.forall_mem_cons.2 ⟨rfl, List.forall_mem_singleton.2 rfl⟩),
    exists_of_repliedOk hreplied, hunused, exists_of_forkedAs hforked,
    exists_of_repliedOk hreplayed, keepsRecords_of_deletesNothing hkept⟩

theorem fork_copies_forkAtOne : ∃ S₀ S, exec (System.step server fun _ _ _ ↦ true)
      (System.init oneWaiting 0) originalSteps = some S₀ ∧
    exec (System.step server fun _ _ _ ↦ true) S₀ forkAndReplay = some S ∧
    ∃ p c, S.history[p]? = some c ∧ c.session = 1 ∧
      ForkedAt oneWaiting S.history S₀.history.length p forkAtOne "v" := by
  obtain ⟨S₀, S, hS₀, hS, h₀, h, -, hunused, ⟨r, hret, hr⟩, -⟩ := exists_forkAndReplay
  exact ⟨S₀, S, hS₀, hS, ((fork_copies h₀ hunused rfl h).2.2 r "v" hret hr).2⟩

theorem fork_replays_forkAtOne : ∃ S₀ S r reply r' reply',
    exec (System.step server fun _ _ _ ↦ true) (System.init oneWaiting 0) originalSteps = some S₀ ∧
    exec (System.step server fun _ _ _ ↦ true) S₀ forkAndReplay = some S ∧
    Returned S₀ 0 r ∧ r.2 = .ok (.reply reply) ∧ Returned S 2 r' ∧ r'.2 = .ok (.reply reply') ∧
    reply.Agree reply' := by
  obtain ⟨S₀, S, hS₀, hS, h₀, h, ⟨r, reply, hret, hreply⟩, hunused, ⟨rf, hforked, hid⟩,
    ⟨r', reply', hret', hreply'⟩, hkept⟩ := exists_forkAndReplay
  exact ⟨S₀, S, r, reply, r', reply', hS₀, hS, hret, hreply, hret', hreply',
    fork_replays h₀ (i := 0) (j := 2) rfl rfl hret hreply hunused rfl (by decide) h hforked hid
      (by decide) rfl rfl hret' hreply' readsStored_unit (hkept "w") (hkept "v")⟩

end

end Dbos

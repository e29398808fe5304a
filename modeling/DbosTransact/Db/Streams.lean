import DbosTransact.Db.Operations

/-!
# The log of a stream

A stream of a workflow is the rows of `streams` under one key, which readers see in the order of
their offsets and up to the closing sentinel. `Contiguous` is what writers have to keep: the offsets
are `0..n-1`, and only the last entry may be the sentinel. `Grows` is what a writer may do to a
stream: rows stay, and only rows are added.

The text of a JSON value never is the sentinel, so no entry of a user closes a stream.

A reader goes through a stream in rounds. `streamEntries_append` is what makes that sound: what a
growing stream holds from some offset on is what it held there before, and then what it holds from
the next offset on.
-/

namespace Dbos

/-- The entry of a stream at an offset. -/
def Db.entry (db : Db) (w key : String) (i : ℕ) : Option StreamRow := db.streams.lookup (w, key, i)

/-- The row at an offset as a reader gets it. -/
def StreamRow.at (row : StreamRow) (i : ℕ) : StreamEntry := ⟨row.value, i, row.serialization⟩

/-- The rows of a stream of `db` are still there in `db'`. -/
def Grows (w key : String) (db db' : Db) : Prop :=
  ∀ i row, db.entry w key i = some row → db'.entry w key i = some row

/-- The offsets of a stream are `0..n-1`. -/
def Dense (w key : String) (n : ℕ) (db : Db) : Prop := ∀ i, (db.entry w key i).isSome ↔ i < n

/-- The offsets of a stream are `0..n-1`, and a sentinel is its last entry. -/
structure Contiguous (w key : String) (n : ℕ) (db : Db) : Prop where
  dense : Dense w key n db
  last : ∀ i row, db.entry w key i = some row → row.value = streamClosedSentinel → i + 1 = n

/-- A sentinel is among the entries of a stream. -/
def Closed (w key : String) (db : Db) : Prop :=
  ∃ i row, db.entry w key i = some row ∧ row.value = streamClosedSentinel

section

variable {w key : String} {db db' : Db} {n : ℕ}

theorem Grows.refl (w key : String) (db : Db) : Grows w key db db := fun _ _ h ↦ h

theorem Grows.trans {db'' : Db} (h : Grows w key db db') (h' : Grows w key db' db'') :
    Grows w key db db'' :=
  fun i row hrow ↦ h' i row (h i row hrow)

theorem Dense.lt (h : Dense w key n db) {i : ℕ} {row : StreamRow}
    (hrow : db.entry w key i = some row) : i < n :=
  (h i).1 (by rw [hrow]; rfl)

theorem Dense.exists_row (h : Dense w key n db) {i : ℕ} (hi : i < n) :
    ∃ row, db.entry w key i = some row :=
  Option.isSome_iff_exists.1 ((h i).2 hi)

theorem closed_iff : Closed w key db ↔ (db.streams.rows.any fun e ↦
    e.1.1 = w && e.1.2.1 = key && e.2.value = streamClosedSentinel) = true := by
  rw [List.any_eq_true]
  constructor
  · rintro ⟨i, row, hrow, hvalue⟩
    exact ⟨((w, key, i), row), Table.mem_rows_iff.2 hrow, by simp [hvalue]⟩
  · rintro ⟨⟨⟨w', key', i⟩, row⟩, hmem, h⟩
    simp only [Bool.and_eq_true, decide_eq_true_eq] at h
    obtain ⟨⟨rfl, rfl⟩, hvalue⟩ := h
    exact ⟨i, row, Table.mem_rows_iff.1 hmem, hvalue⟩

instance : Decidable (Closed w key db) := decidable_of_iff _ closed_iff.symm

private theorem foldl_max_eq (l : List ℕ) (m k : ℕ) (hle : ∀ i ∈ l, i ≤ m) (hk : k ≤ m)
    (hmem : m ∈ l ∨ m = k) : l.foldl max k = m := by
  induction l generalizing k with
  | nil =>
    rcases hmem with hmem | hmem
    · cases hmem
    · exact hmem.symm
  | cons a l ih =>
    have ha : a ≤ m := hle a List.mem_cons_self
    refine ih (max k a) (fun i hi ↦ hle i (List.mem_cons_of_mem _ hi)) (max_le hk ha) ?_
    rcases hmem with hmem | rfl
    · rcases List.mem_cons.1 hmem with rfl | hmem
      · exact Or.inr (by omega)
      · exact Or.inl hmem
    · exact Or.inr (by omega)

/-- The next offset of a contiguous stream is its length. -/
theorem nextOffset_eq (h : Dense w key n db) :
    Stmt.nextOffset db w key = n := by
  refine foldl_max_eq _ n 0 (fun m hm ↦ ?_) (Nat.zero_le n) ?_
  · obtain ⟨⟨⟨w', key', i⟩, row⟩, hmem, rfl⟩ := List.mem_map.1 hm
    obtain ⟨hrow, heq⟩ := Table.mem_select_iff.1 hmem
    simp only [Bool.and_eq_true, decide_eq_true_eq] at heq
    obtain ⟨rfl, rfl⟩ := heq
    exact (h i).1 (by rw [Db.entry, hrow]; rfl)
  · rcases Nat.eq_zero_or_pos n with rfl | hpos
    · exact Or.inr rfl
    · obtain ⟨row, hrow⟩ := Option.isSome_iff_exists.1 ((h (n - 1)).2 (by omega))
      refine Or.inl (List.mem_map.2 ⟨((w, key, n - 1), row), Table.mem_select_iff.2 ⟨hrow, ?_⟩, ?_⟩)
      · simp
      · show n - 1 + 1 = n
        omega

/-! ### What a reader sees -/

theorem mem_streamEntries {start : ℤ} {e : StreamEntry} :
    e ∈ Stmt.streamEntries db w key start ↔
      ∃ row, db.entry w key e.offset = some row ∧ row.at e.offset = e ∧ start ≤ (e.offset : ℤ) := by
  rw [Stmt.streamEntries, List.mem_insertionSort, List.mem_map]
  constructor
  · rintro ⟨⟨⟨w', key', i⟩, row⟩, hmem, rfl⟩
    obtain ⟨hrow, heq⟩ := Table.mem_select_iff.1 hmem
    simp only [Bool.and_eq_true, decide_eq_true_eq] at heq
    obtain ⟨⟨rfl, rfl⟩, hstart⟩ := heq
    exact ⟨row, hrow, rfl, hstart⟩
  · rintro ⟨row, hrow, heq, hstart⟩
    refine ⟨((w, key, e.offset), row), Table.mem_select_iff.2 ⟨hrow, ?_⟩, heq⟩
    simpa using hstart

/-- Readers see each offset once, in order. -/
theorem pairwise_streamEntries (db : Db) (w key : String) (start : ℤ) :
    (Stmt.streamEntries db w key start).Pairwise fun a b ↦ a.offset < b.offset := by
  have hle := List.pairwise_insertionSort (fun a b : StreamEntry ↦ a.offset ≤ b.offset)
    ((db.streams.select fun k _ ↦ k.1 = w && k.2.1 = key && start ≤ (k.2.2 : ℤ)).map
      fun e ↦ (⟨e.2.value, e.1.2.2, e.2.serialization⟩ : StreamEntry))
  have hnd : (Stmt.streamEntries db w key start).Pairwise fun a b ↦ a.offset ≠ b.offset := by
    rw [Stmt.streamEntries, (List.perm_insertionSort _ _).pairwise_iff fun h ↦ Ne.symm h,
      List.pairwise_map]
    have hkeys := Table.nodup_select_keys
      (fun k (_ : StreamRow) ↦ k.1 = w && k.2.1 = key && start ≤ (k.2.2 : ℤ)) db.streams
    rw [List.Nodup, List.pairwise_map] at hkeys
    refine hkeys.imp_of_mem fun {a b} ha hb hne heq ↦ hne ?_
    obtain ⟨⟨w₁, k₁, i₁⟩, r₁⟩ := a
    obtain ⟨⟨w₂, k₂, i₂⟩, r₂⟩ := b
    have h₁ := (Table.mem_select_iff.1 ha).2
    have h₂ := (Table.mem_select_iff.1 hb).2
    simp only [Bool.and_eq_true, decide_eq_true_eq] at h₁ h₂ heq
    simp [h₁.1, h₂.1, heq]
  exact (hle.and hnd).imp fun h ↦ lt_of_le_of_ne h.1 h.2

/-- The entries before the sentinel are those that have none at or before them. -/
theorem mem_beforeSentinel {l : List StreamEntry}
    (hl : l.Pairwise fun a b ↦ a.offset < b.offset) {e : StreamEntry} (he : e ∈ l)
    (hopen : ∀ e' ∈ l, e'.offset ≤ e.offset → e'.value ≠ streamClosedSentinel) :
    e ∈ (beforeSentinel l).1 := by
  induction l with
  | nil => cases he
  | cons a l ih =>
    obtain ⟨ha, hl⟩ := List.pairwise_cons.1 hl
    have hle : a.offset ≤ e.offset := by
      rcases List.mem_cons.1 he with rfl | he
      · exact le_rfl
      · exact (ha e he).le
    rw [beforeSentinel, if_neg (hopen a List.mem_cons_self hle)]
    rcases List.mem_cons.1 he with rfl | he
    · exact List.mem_cons_self
    · exact List.mem_cons_of_mem _ (ih hl he fun e' he' ↦ hopen e' (List.mem_cons_of_mem _ he'))

/-- Entries that do not close the stream are all before the sentinel. -/
theorem beforeSentinel_append {l l' : List StreamEntry}
    (hl : ∀ e ∈ l, e.value ≠ streamClosedSentinel) : beforeSentinel (l ++ l') =
      (l ++ (beforeSentinel l').1, (beforeSentinel l').2) := by
  induction l with
  | nil => rfl
  | cons a l ih =>
    rw [List.cons_append, beforeSentinel, if_neg (hl a List.mem_cons_self),
      ih fun e he ↦ hl e (List.mem_cons_of_mem _ he)]
    rfl

/-- Where no sentinel was seen there is none. -/
theorem beforeSentinel_of_open {l : List StreamEntry} (h : (beforeSentinel l).2 = false) :
    (beforeSentinel l).1 = l ∧ ∀ e ∈ l, e.value ≠ streamClosedSentinel := by
  induction l with
  | nil => exact ⟨rfl, by simp⟩
  | cons a l ih =>
    rw [beforeSentinel] at h ⊢
    split at h
    · cases h
    · rename_i hopen
      obtain ⟨heq, hall⟩ := ih h
      rw [if_neg hopen, heq]
      exact ⟨rfl, List.forall_mem_cons.2 ⟨hopen, hall⟩⟩

/-- What follows the sentinel is of no account. -/
theorem beforeSentinel_append_of_closed {l : List StreamEntry} (h : (beforeSentinel l).2 = true)
    (l' : List StreamEntry) : beforeSentinel (l ++ l') = beforeSentinel l := by
  induction l with
  | nil => cases h
  | cons a l ih =>
    rw [beforeSentinel] at h
    rw [List.cons_append, beforeSentinel, beforeSentinel]
    split at h
    · rename_i hclosed
      rw [if_pos hclosed, if_pos hclosed]
    · rename_i hopen
      rw [if_neg hopen, if_neg hopen, ih h]

/-- The entries before the sentinel are the first ones, and none of them closes the stream. -/
theorem beforeSentinel_spec (l : List StreamEntry) : (beforeSentinel l).1 <+: l ∧
    ∀ e ∈ (beforeSentinel l).1, e.value ≠ streamClosedSentinel := by
  induction l with
  | nil => exact ⟨List.prefix_rfl, by simp [beforeSentinel]⟩
  | cons a l ih =>
    rw [beforeSentinel]
    split
    · exact ⟨List.nil_prefix, by simp⟩
    · rename_i hopen
      exact ⟨(List.prefix_cons_inj a).2 ih.1, List.forall_mem_cons.2 ⟨hopen, ih.2⟩⟩

/-- In a contiguous stream the entries before the sentinel are all others. -/
theorem Contiguous.mem_beforeSentinel (h : Contiguous w key n db) {start : ℤ} {e : StreamEntry} :
    e ∈ (beforeSentinel (Stmt.streamEntries db w key start)).1 ↔
      e ∈ Stmt.streamEntries db w key start ∧ e.value ≠ streamClosedSentinel := by
  constructor
  · intro he
    have hbefore := beforeSentinel_spec (Stmt.streamEntries db w key start)
    exact ⟨hbefore.1.subset he, hbefore.2 e he⟩
  · rintro ⟨he, hvalue⟩
    obtain ⟨row, hrow, heq, -⟩ := mem_streamEntries.1 he
    refine Dbos.mem_beforeSentinel (pairwise_streamEntries db w key start) he
      fun e' he' hle hclosed ↦ ?_
    obtain ⟨row', hrow', heq', -⟩ := mem_streamEntries.1 he'
    have hlast : e'.offset + 1 = n := h.last _ row' hrow' (by rw [← hclosed, ← heq']; rfl)
    have hlt : e.offset < n := h.dense.lt hrow
    have hsame : e'.offset = e.offset := by omega
    rw [hsame, hrow] at hrow'
    cases hrow'
    exact hvalue (by rw [← hclosed, ← heq, ← heq']; rfl)

/-- In a contiguous stream every entry that is no sentinel is visible from the start. -/
theorem Contiguous.visible (h : Contiguous w key n db) {i : ℕ} {row : StreamRow}
    (hrow : db.entry w key i = some row) (hvalue : row.value ≠ streamClosedSentinel) :
    row.at i ∈ (beforeSentinel (Stmt.streamEntries db w key 0)).1 :=
  h.mem_beforeSentinel.2
    ⟨mem_streamEntries.2 ⟨row, hrow, rfl, Int.natCast_nonneg _⟩, hvalue⟩

/-- Sorted lists with the same entries are the same. -/
theorem eq_of_mem_iff {l l' : List StreamEntry}
    (hl : l.Pairwise fun a b ↦ a.offset < b.offset)
    (hl' : l'.Pairwise fun a b ↦ a.offset < b.offset) (h : ∀ e, e ∈ l ↔ e ∈ l') : l = l' := by
  have hnd : ∀ {l : List StreamEntry}, (l.Pairwise fun a b ↦ a.offset < b.offset) → l.Nodup :=
    fun hl ↦ hl.imp fun hlt heq ↦ by rw [heq] at hlt; exact lt_irrefl _ hlt
  refine ((List.perm_ext_iff_of_nodup (hnd hl) (hnd hl')).2 h).eq_of_pairwise
    (fun a b _ _ hab hba ↦ (lt_asymm hab hba).elim) hl hl'

/-- Streams with the same rows look the same to every reader. -/
theorem streamEntries_congr (h : Grows w key db db') (h' : Grows w key db' db) (start : ℤ) :
    Stmt.streamEntries db w key start = Stmt.streamEntries db' w key start := by
  refine eq_of_mem_iff (pairwise_streamEntries ..) (pairwise_streamEntries ..) fun e ↦ ?_
  rw [mem_streamEntries, mem_streamEntries]
  constructor
  · rintro ⟨row, hrow, hrest⟩
    exact ⟨row, h _ row hrow, hrest⟩
  · rintro ⟨row, hrow, hrest⟩
    exact ⟨row, h' _ row hrow, hrest⟩

/-- What is committed to a stream from an offset on, up to the sentinel of the stream. -/
def visibleFrom (db : Db) (w key : String) (start : ℤ) : List StreamEntry :=
  (beforeSentinel (Stmt.streamEntries db w key 0)).1.filter fun e ↦ start ≤ (e.offset : ℤ)

/-- A reader that starts at offset 0, or reads a contiguous stream, sees what is visible. -/
theorem visibleFrom_eq {start : ℤ} (h : 0 < start → ∃ n, Contiguous w key n db) :
    visibleFrom db w key start = (beforeSentinel (Stmt.streamEntries db w key start)).1 := by
  rcases le_or_gt start 0 with hstart | hstart
  · have hall : Stmt.streamEntries db w key start = Stmt.streamEntries db w key 0 := by
      refine eq_of_mem_iff (pairwise_streamEntries ..) (pairwise_streamEntries ..) fun e ↦ ?_
      rw [mem_streamEntries, mem_streamEntries]
      have hle : start ≤ (e.offset : ℤ) ↔ (0 : ℤ) ≤ e.offset := by omega
      simp only [hle]
    rw [visibleFrom, hall]
    exact List.filter_eq_self.2 fun e _ ↦ by rw [decide_eq_true_eq]; omega
  · obtain ⟨n, hn⟩ := h hstart
    have hsorted : ∀ start : ℤ, (beforeSentinel (Stmt.streamEntries db w key start)).1.Pairwise
        fun a b ↦ a.offset < b.offset := fun start ↦
      (pairwise_streamEntries db w key start).sublist (beforeSentinel_spec _).1.sublist
    refine eq_of_mem_iff ((hsorted 0).filter _) (hsorted start) fun e ↦ ?_
    rw [visibleFrom, List.mem_filter, hn.mem_beforeSentinel, hn.mem_beforeSentinel,
      mem_streamEntries, mem_streamEntries, decide_eq_true_eq]
    constructor
    · rintro ⟨⟨⟨row, hrow, heq, -⟩, hvalue⟩, hle⟩
      exact ⟨⟨row, hrow, heq, hle⟩, hvalue⟩
    · rintro ⟨⟨row, hrow, heq, hle⟩, hvalue⟩
      exact ⟨⟨⟨row, hrow, heq, Int.natCast_nonneg _⟩, hvalue⟩, hle⟩

/-- Nothing is visible but what was read, when everything visible was read. -/
theorem beforeSentinel_eq_of_subset {pre rest : List StreamEntry}
    (hsorted : (pre ++ rest).Pairwise fun a b ↦ a.offset < b.offset)
    (hopen : ∀ e ∈ pre, e.value ≠ streamClosedSentinel)
    (h : ∀ e ∈ (beforeSentinel (pre ++ rest)).1, e ∈ pre) :
    (beforeSentinel (pre ++ rest)).1 = pre := by
  rw [beforeSentinel_append hopen] at h ⊢
  have hnil : (beforeSentinel rest).1 = [] := by
    refine List.eq_nil_iff_forall_not_mem.2 fun e he ↦ ?_
    have hpre : e ∈ pre := h e (List.mem_append_right _ he)
    have hlt :=
      (List.pairwise_append.1 hsorted).2.2 e hpre e ((beforeSentinel_spec rest).1.subset he)
    exact lt_irrefl _ hlt
  rw [hnil, List.append_nil]

/-- Where a reader goes on after it has read `entries` from `current` on. -/
def nextStart (current : ℤ) (entries : List StreamEntry) : ℤ :=
  entries.getLast?.elim current fun e ↦ (e.offset : ℤ) + 1

/-- Below the last offset there is, the cursor of a reader counts on. -/
theorem nextStart_eq {current : ℤ} {entries : List StreamEntry}
    (hfits : ∀ e ∈ entries, (e.offset : ℤ) < i32Max) :
    (entries.getLast?.elim current fun e ↦ asI32 ((e.offset : ℤ) + 1)) =
      nextStart current entries := by
  rw [nextStart]
  cases hend : entries.getLast? with
  | none => rw [Option.elim_none, Option.elim_none]
  | some e =>
    have hlt := hfits e (List.mem_of_getLast? hend)
    rw [Option.elim_some, Option.elim_some]
    exact asI32_of_bounds (by rw [i32Min]; omega) (by omega)

/-- A stream that has grown holds what was read from it, and what follows. -/
theorem streamEntries_append (h : Dense w key n db) (hgrows : Grows w key db db') (current : ℤ) :
    Stmt.streamEntries db' w key current = Stmt.streamEntries db w key current ++
      Stmt.streamEntries db' w key (nextStart current (Stmt.streamEntries db w key current)) := by
  rcases hlast : (Stmt.streamEntries db w key current).getLast? with - | last
  · -- nothing was read
    rw [nextStart, hlast, List.getLast?_eq_none_iff.1 hlast]
    rfl
  obtain ⟨front, hfront⟩ := List.getLast?_eq_some_iff.1 hlast
  have hmem : last ∈ Stmt.streamEntries db w key current := by
    rw [hfront]
    exact List.mem_append_right _ List.mem_cons_self
  have hstart : nextStart current (Stmt.streamEntries db w key current) =
      (last.offset : ℤ) + 1 := by
    rw [nextStart, hlast]
    rfl
  obtain ⟨lastRow, hlastRow, -, hlastStart⟩ := mem_streamEntries.1 hmem
  -- the last entry read is the last one there was
  have htop : ∀ e ∈ Stmt.streamEntries db w key current, e.offset ≤ last.offset := by
    intro e he
    have hsorted := pairwise_streamEntries db w key current
    rw [hfront] at hsorted he
    rcases List.mem_append.1 he with he | he
    · exact (List.pairwise_append.1 hsorted).2.2 e he last List.mem_cons_self |>.le
    · rw [List.mem_singleton.1 he]
  rw [hstart]
  refine eq_of_mem_iff (pairwise_streamEntries ..) ?_ fun e ↦ ?_
  · refine List.pairwise_append.2 ⟨pairwise_streamEntries .., pairwise_streamEntries .., ?_⟩
    intro a ha b hb
    obtain ⟨-, -, -, hb⟩ := mem_streamEntries.1 hb
    have hle := htop a ha
    omega
  · rw [List.mem_append, mem_streamEntries, mem_streamEntries, mem_streamEntries]
    constructor
    · rintro ⟨row, hrow, heq, hle⟩
      by_cases hlt : e.offset ≤ last.offset
      · -- below the last entry read, the old stream has every offset already
        obtain ⟨row', hrow'⟩ := h.exists_row (lt_of_le_of_lt hlt (h.lt hlastRow))
        have hsame := hgrows _ _ hrow'
        rw [hrow] at hsame
        cases hsame
        exact Or.inl ⟨row, hrow', heq, hle⟩
      · exact Or.inr ⟨row, hrow, heq, by omega⟩
    · rintro (⟨row, hrow, heq, hle⟩ | ⟨row, hrow, heq, hle⟩)
      · exact ⟨row, hgrows _ _ hrow, heq, hle⟩
      · exact ⟨row, hrow, heq, by omega⟩

end

section

variable [SerdeJson] {T : Type} [Serde T]

theorem decodeEntries_append {l l' : List StreamEntry} {vs vs' : List T}
    (h : decodeEntries T l = .ok vs) (h' : decodeEntries T l' = .ok vs') :
    decodeEntries T (l ++ l') = .ok (vs ++ vs') := by
  induction l generalizing vs with
  | nil =>
    cases h
    exact h'
  | cons a l ih =>
    rw [decodeEntries] at h
    cases hv : decodeValue T (some a.value) a.serialization with
    | error e =>
      rw [hv] at h
      cases h
    | ok v =>
      cases hl : decodeEntries T l with
      | error e =>
        rw [hv, hl] at h
        cases h
      | ok rest =>
        rw [hv, hl] at h
        cases h
        rw [List.cons_append, decodeEntries, hv, ih hl]
        rfl

/-- Entries that all decode are decoded to the same values by both readers. -/
theorem decodeEntries_of_decodeWhile {l : List StreamEntry} (h : (decodeWhile T l).2 = none) :
    decodeEntries T l = .ok (decodeWhile T l).1 := by
  induction l with
  | nil => rfl
  | cons a l ih =>
    rw [decodeWhile] at h
    cases hv : decodeValue T (some a.value) a.serialization with
    | error e =>
      rw [hv] at h
      cases h
    | ok v =>
      rw [hv] at h
      rw [decodeEntries, decodeWhile, hv, ih h]
      rfl

end

/-- No encoded value is the sentinel. -/
theorem encodeValue_ne_sentinel [SerdeJson] {R : Type} [Serde R] {value : R} {text : String}
    (h : encodeValue value .portable = .ok text) : text ≠ streamClosedSentinel := by
  rintro rfl
  rw [encodeValue] at h
  split at h
  · rename_i v _
    have htext : encodeJsonValue v .portable = streamClosedSentinel := by simpa using h
    rw [encodeJsonValue] at htext
    split at htext
    · exact absurd htext (by decide)
    · exact SerdeJson.head_toString v (by rw [htext]; decide)
  · cases h

end Dbos

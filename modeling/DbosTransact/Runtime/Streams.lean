import DbosTransact.Db.Streams
import DbosTransact.JsonText
import DbosTransact.Queue.Exclusive
import DbosTransact.Runtime.Durable

/-!
# The stream of a workflow

One stream of a workflow whose body issues its durable calls in any order, several at a time, next
to everything else the runtime does. `calls n` is the call of the body with step id `n`, the same in
every attempt.

A writer looks for the closing sentinel in one statement and takes the next offset in another one.
Two writers can never get the same offset, since the primary key makes the second one fail; but a
stream may be closed between the two statements of a writer, which then appends to a closed stream.
`streamLog_of_run` says that this is the only thing that can go wrong: while no insert is sent to a
stream that is closed, the offsets stay `0..n-1`, the sentinel is the last entry, and every write
that returned is visible.
-/

namespace Dbos

open Txn

section

variable [SerdeJson] {V : Type}

/-- The row a call with step id `n` appends to the stream `key`. -/
def Invocation.appends (key : String) (n : ℕ) : Invocation V → Option StreamRow
  | writeStream k codec value =>
    have := codec
    if k = key then
      (encodeValue value .portable).toOption.map fun text ↦ ⟨text, n, some Format.portable.name⟩
    else none
  | closeStream k => if k = key then some ⟨streamClosedSentinel, n, none⟩ else none
  | _ => none

/-- What a write appends closes no stream. -/
theorem Invocation.value_ne_sentinel {key : String} {n : ℕ} {codec : Serde V} {value : V}
    {row : StreamRow} (h : (writeStream key codec value).appends key n = some row) :
    row.value ≠ streamClosedSentinel := by
  rw [appends, if_pos rfl] at h
  obtain ⟨text, htext, rfl⟩ := Option.map_eq_some_iff.1 h
  have hok : encodeValue value .portable = .ok text := by
    cases henc : encodeValue value .portable <;> rw [henc] at htext <;> cases htext
    rfl
  exact encodeValue_ne_sentinel hok

/-- What the writers of a stream keep: its offsets are dense, under the discipline `disc` a sentinel
comes last, and a call that is recorded has appended its row. -/
structure StreamKept (disc : Prop) (w key : String) (calls : ℕ → Invocation V)
    (db : Db) : Prop where
  dense : ∃ n, Dense w key n db ∧ (disc → Contiguous w key n db)
  appended : ∀ n op, db.operation w n = some op → op.functionName = (calls n).kind.recordName →
    ∀ row ∈ (calls n).appends key n, ∃ i, db.entry w key i = some row

/-- The statements that neither change the stream nor record a call that appends to it. -/
def Stmt.KeepsStream (w key : String) (calls : ℕ → Invocation V) : Stmt → Prop
  | insertStream w' key' _ => ¬(w' = w ∧ key' = key)
  | insertOperation w' n row =>
    w' = w → row.functionName = (calls n).kind.recordName → (calls n).appends key n = none
  | deleteWorkflows _ => False
  | collectWorkflows _ => False
  | copyOperations .. => False
  | copyStreams .. => False
  | _ => True

/-- The writes of a call with step id `n` that appends `row` at offset `i` and is recorded as `op`.
-/
def appendWrites (w key : String) (n i : ℕ) (row : StreamRow) (op : OperationRow) : List DbWrite :=
  [⟨.streams w key i, none, some row, .insertStream w key row⟩, recordWrite w n op]

/-- The commit of a call that appends its row: at the start of the stream, or after an entry that,
under the discipline, does not close it. -/
def Appends (disc : Prop) (w key : String) (calls : ℕ → Invocation V) (e : DbEffect) : Prop :=
  ∃ n i op, ∃ row ∈ (calls n).appends key n, e.writes = appendWrites w key n i row op ∧
    ∀ j, i = j + 1 → ∃ row', e.moment.db.entry w key j = some row' ∧
      (disc → row'.value ≠ streamClosedSentinel)

variable {disc : Prop} {w key : String} {calls : ℕ → Invocation V} {db : Db}

/-! ### What a commit keeps -/

theorem entry_apply_of_keeps {ws : List DbWrite} (hlegal : ∀ w' ∈ ws, LegalWrite w')
    (hkeeps : ∀ w' ∈ ws, w'.stmt.KeepsStream w key calls) (i : ℕ) :
    (server.apply db ws).entry w key i = db.entry w key i := by
  refine store.look_apply_of_forall_ne (k := .streams w key i) fun w' hw' hk ↦ ?_
  obtain ⟨k, old, new, s⟩ := w'
  cases hk
  have hkeep := hkeeps _ hw'
  have hwrites : s.Writes (.streams w key i) old new := hlegal _ hw'
  cases hwrites with
  | stream => exact hkeep ⟨rfl, rfl⟩
  | _ => exact hkeep

theorem StreamKept.of_keeps (h : StreamKept disc w key calls db) {ws : List DbWrite}
    (hchain : server.Chain db ws) (hlegal : ∀ w' ∈ ws, LegalWrite w')
    (hkeeps : ∀ w' ∈ ws, w'.stmt.KeepsStream w key calls) :
    StreamKept disc w key calls (server.apply db ws) ∧ Grows w key db (server.apply db ws) := by
  have hentry : ∀ i, (server.apply db ws).entry w key i = db.entry w key i :=
    entry_apply_of_keeps hlegal hkeeps
  refine ⟨⟨?_, fun n op hop ↦ ?_⟩, fun i row hrow ↦ by rwa [hentry]⟩
  · obtain ⟨n, hdense, hdisc⟩ := h.dense
    have hdense' : Dense w key n (server.apply db ws) := fun i ↦ by rw [hentry]; exact hdense i
    exact ⟨n, hdense', fun hd ↦ ⟨hdense', fun i row hrow ↦
      (hdisc hd).last i row (by rwa [hentry] at hrow)⟩⟩
  · have hkept := hchain.keeps (k := .operationOutputs w n) (P := fun r ↦ ∀ op ∈ r,
        op.functionName = (calls n).kind.recordName → ∀ row ∈ (calls n).appends key n,
          ∃ i, db.entry w key i = some row) (h.appended n) fun old new s hw hold ↦ ?_
    · simpa only [hentry] using hkept op hop
    · have hkeep := hkeeps _ hw
      have hwrites : s.Writes (.operationOutputs w n) old new := hlegal _ hw
      cases hwrites with
      | operation _ _ row =>
        rintro _ ⟨⟩ hname row' hrow'
        rw [hkeep rfl hname] at hrow'
        cases hrow'
      | _ => exact hkeep.elim

section

variable {n i : ℕ} {row : StreamRow} {op : OperationRow}

omit [SerdeJson] in
theorem entry_append_self (db : Db) :
    (server.apply db (appendWrites w key n i row op)).entry w key i = some row :=
  store.look_apply_of_mem db (by simp [appendWrites, recordWrite])
    (show _ ∈ appendWrites w key n i row op from List.mem_cons_self)

omit [SerdeJson] in
theorem entry_append_of_ne (db : Db) {j : ℕ} (hj : j ≠ i) :
    (server.apply db (appendWrites w key n i row op)).entry w key j = db.entry w key j := by
  show store.look (store.apply db (appendWrites w key n i row op)) (.streams w key j) = _
  refine store.look_apply_of_forall_ne fun w' hw' hk ↦ ?_
  rcases List.mem_cons.1 hw' with rfl | hw'
  · exact hj (Key.streams.inj hk).2.2.symm
  · rw [List.mem_singleton.1 hw'] at hk
    cases hk

omit [SerdeJson] in
theorem operation_append_of_ne (db : Db) {m : ℕ} (hm : m ≠ n) :
    (server.apply db (appendWrites w key n i row op)).operation w m = db.operation w m := by
  show store.look (store.apply db (appendWrites w key n i row op)) (.operationOutputs w m) = _
  refine store.look_apply_of_forall_ne fun w' hw' hk ↦ ?_
  rcases List.mem_cons.1 hw' with rfl | hw'
  · cases hk
  · rw [List.mem_singleton.1 hw'] at hk
    exact hm (Key.operationOutputs.inj hk).2.symm

end

theorem StreamKept.of_appends (h : StreamKept disc w key calls db) {e : DbEffect}
    (hdb : e.moment.db = db) (hchain : server.Chain db e.writes) (he : Appends disc w key calls e) :
    StreamKept disc w key calls (server.apply db e.writes) ∧
      Grows w key db (server.apply db e.writes) := by
  obtain ⟨n, i, op, row, hrow, hwrites, hfollows⟩ := he
  rw [hdb] at hfollows
  rw [hwrites] at hchain ⊢
  have hfree : db.entry w key i = none := hchain.1.symm
  obtain ⟨len, hlen, hdisc⟩ := h.dense
  -- the offset is the next one of the state the transaction is committed in
  have hi : i = len := by
    have hge : len ≤ i := by
      by_contra hlt
      obtain ⟨row', hrow'⟩ := hlen.exists_row (not_le.1 hlt)
      rw [hfree] at hrow'
      cases hrow'
    rcases i with - | j
    · omega
    · obtain ⟨row', hrow', -⟩ := hfollows j rfl
      have hlt := hlen.lt hrow'
      omega
  subst hi
  have hgrows : Grows w key db (server.apply db (appendWrites w key n i row op)) := by
    intro j row' hrow'
    have hj : j ≠ i := by
      rintro rfl
      rw [hfree] at hrow'
      cases hrow'
    rwa [entry_append_of_ne db hj]
  have hdense : Dense w key (i + 1) (server.apply db (appendWrites w key n i row op)) := by
    intro j
    by_cases hj : j = i
    · subst hj
      simp [entry_append_self]
    · rw [entry_append_of_ne db hj, hlen j]
      omega
  refine ⟨⟨⟨i + 1, hdense, fun hd ↦ ⟨hdense, fun j row' hrow' hvalue ↦ ?_⟩⟩,
    fun m op' hop' hname row' hrow' ↦ ?_⟩, hgrows⟩
  · by_cases hj : j = i
    · rw [hj]
    · -- an entry that closed the stream would be the last one, and the new one follows it
      rw [entry_append_of_ne db hj] at hrow'
      have hlast := (hdisc hd).last j row' hrow' hvalue
      obtain ⟨row'', hrow'', hopen⟩ := hfollows j hlast.symm
      rw [hrow'] at hrow''
      cases hrow''
      exact absurd hvalue (hopen hd)
  · by_cases hm : m = n
    · subst hm
      rw [Option.mem_def.1 hrow] at hrow'
      cases hrow'
      exact ⟨i, entry_append_self db⟩
    · rw [operation_append_of_ne db hm] at hop'
      obtain ⟨j, hj⟩ := h.appended m op' hop' hname row' hrow'
      exact ⟨j, hgrows j row' hj⟩

/-! ### One session -/

/-- What the sessions rely on and guarantee. Under the discipline no insert is sent to a closed
stream; `sent` is what else may be assumed of the statements a session sends. -/
def streamSpec (valid : DbMoment → (q : Ask) → q.Ans → Bool) (disc : Prop)
    (sent : DbTrace → Stmt → DbMoment → Prop) (w key : String) (calls : ℕ → Invocation V) :
    DbSpec where
  rely m m' := m.Before m' ∧ Grows w key m.db m'.db ∧
    (StreamKept disc w key calls m.db → StreamKept disc w key calls m'.db)
  rely_refl m := ⟨.refl m, .refl w key m.db, id⟩
  rely_trans h h' := ⟨h.1.trans h'.1, h.2.1.trans h'.2.1, h'.2.2 ∘ h.2.2⟩
  valid := valid
  guar _ e := (∀ w' ∈ e.writes, w'.stmt.KeepsStream w key calls) ∨ Appends disc w key calls e
  issue τ s m := sent τ s m ∧
    (disc → ∀ row, s = .insertStream w key row → ¬Closed w key m.db)

variable {valid : DbMoment → (q : Ask) → q.Ans → Bool} {sent : DbTrace → Stmt → DbMoment → Prop}

theorem ignoresReads_streamSpec : IgnoresReads (streamSpec valid disc sent w key calls) where
  rely m := ⟨m.before_after server [], .refl w key m.db, id⟩
  guar _ _ _ := Or.inl (by simp)

/-- A call that appends to the stream: it commits its row at the next offset, or nothing, and when
it returns its row is there. -/
theorem wpM_writeStreamRaw (ctx : WorkflowContext) (hw : ctx.state.workflowId = w) {n : ℕ}
    {row : StreamRow} (hrow : row ∈ (calls n).appends key n) (hfn : row.functionId = n)
    {m₀ : DbMoment} (h₀ : StreamKept disc w key calls m₀.db) {τ : DbTrace} :
    wpM (streamSpec valid disc sent w key calls)
      (ctx.writeStreamRaw n key (calls n).kind.recordName row.value row.serialization)
      (fun _ _ m _ ↦ ∃ i, m.db.entry w key i = some row) (fun _ _ _ _ ↦ True) .idle m₀ τ := by
  subst hw hfn
  unfold WorkflowContext.writeStreamRaw
  split
  · exact wpM_throw fun _ _ ↦ trivial
  refine wpM_bind (wpM_mono (wpM_checkOperationExecution ignoresReads_streamSpec) ?_
    fun _ _ _ _ _ ↦ trivial)
  rintro found c m τ₁ ⟨rfl, hm, b, b', hb, hb', hm', -, hfound⟩
  have hkept : StreamKept disc ctx.state.workflowId key calls b'.db := hb'.2.2 (hb.2.2 h₀)
  rcases found with - | recorded
  · refine wpM_bind (wpM_ofExcept (fun unit m₁ _ hm₁ ↦ ?_) fun _ _ _ _ ↦ trivial)
    have hkept₁ : StreamKept disc ctx.state.workflowId key calls m₁.db := hm₁.2.2 (hm'.2.2 hkept)
    refine wpM_transaction (fun _ _ _ _ ↦ trivial) (wpM_bind ?_)
    refine wpM_read_active (g := fun db ↦ db.streams.rows.any fun e ↦
      e.1.1 = ctx.state.workflowId && e.1.2.1 = key && e.2.value = streamClosedSentinel)
      (fun _ ↦ rfl) (fun _ _ _ _ ↦ trivial) fun b₂ m₂ hb₂ hm₂ ↦ ?_
    split
    · exact wpM_throw fun _ _ ↦ trivial
    rw [← bind_pure (query _)]
    refine wpM_query_active_issued (fun _ _ _ _ _ _ _ _ ↦ trivial)
      fun b₃ m₃ v a ch hb₃ hopen hm₃ hv hrun ↦ ?_
    have hkept₃ : StreamKept disc ctx.state.workflowId key calls b₃.db :=
      hb₃.2.2 (hm₂.2.2 (hb₂.2.2 hkept₁))
    obtain ⟨len, hlen, -⟩ := hkept₃.dense
    obtain ⟨hnone, -, rfl⟩ := View.insert_done hrun
    have hbase : Stmt.nextOffset v.base ctx.state.workflowId key = len := by
      rw [hv.base]
      exact nextOffset_eq hlen
    rw [hbase] at hnone ⊢
    rw [store.record_insert hnone, List.nil_append]
    -- the entry before the new one is there from now on, and does not close the stream
    have hprev : ∀ j, len = j + 1 → ∃ row', m₃.db.entry ctx.state.workflowId key j = some row' ∧
        (disc → row'.value ≠ streamClosedSentinel) := by
      intro j hj
      obtain ⟨row', hrow'⟩ := hlen.exists_row (i := j) (by omega)
      exact ⟨row', hm₃.2.1 j row' hrow', fun hd hvalue ↦
        hopen.2 hd _ rfl ⟨j, row', hrow', hvalue⟩⟩
    refine wpM_pure fun m₄ hm₄ ↦ wpM_bind (wpM_mono (wpM_record fun _ _ _ ↦ trivial) ?_
      fun _ _ _ _ _ ↦ trivial)
    rintro - c m₅ τ₅ ⟨hm₅, now, rfl⟩
    rw [show (commitTx : DbosM Unit) = commitTx >>= pure from (bind_pure _).symm]
    have hstay : ∀ m₆, (streamSpec valid disc sent ctx.state.workflowId key calls).rely m₅ m₆ →
        ∀ j, len = j + 1 → ∃ row', m₆.db.entry ctx.state.workflowId key j = some row' ∧
          (disc → row'.value ≠ streamClosedSentinel) := by
      intro m₆ hm₆ j hj
      obtain ⟨row', hrow', hvalue⟩ := hprev j hj
      exact ⟨row', hm₆.2.1 j row' (hm₅.2.1 j row' (hm₄.2.1 j row' hrow')), hvalue⟩
    refine wpM_commit (fun m₆ hm₆ hchain ↦ ?_) (fun _ _ _ _ ↦ trivial) (fun m₆ hm₆ hchain ↦ ?_)
      fun _ _ _ _ _ _ _ ↦ trivial
    · exact Or.inr ⟨row.functionId, len, _, row, hrow, rfl, hstay m₆ hm₆⟩
    · exact wpM_pure fun m₇ hm₇ ↦ ⟨len, hm₇.2.1 len row (entry_append_self _)⟩
  · -- the step is recorded, so the row was appended with it
    refine wpM_pure fun m' hm'' ↦ ?_
    obtain ⟨op, hop, hname, -⟩ := recordedAt_eq_some.1 hfound
    obtain ⟨i, hi⟩ := hkept.appended _ op hop hname row hrow
    exact ⟨i, hm''.2.1 i row (hm'.2.1 i row hi)⟩

/-- What the operations of others send leaves the stream alone. -/
theorem keepsStream_of_elsewhere {s : Stmt} (h : s.Elsewhere w) :
    s.KeepsStream w key calls := by
  rcases h with h | ⟨w', n, kind, hne, h⟩
  · cases s with
    | deleteWorkflows ids => cases h
    | collectWorkflows cutoff => cases h
    | copyOperations new original start => cases h
    | copyStreams new original start => cases h
    | insertOperation w' n row => cases h
    | insertStream w' key' row => cases h
    | _ => trivial
  · cases s with
    | insertOperation w'' n' row =>
      simp only [Stmt.CallOf, Stmt.isCallOf, Bool.and_eq_true, decide_eq_true_eq] at h
      exact fun hw ↦ (hne (h.1.symm.trans hw)).elim
    | insertStream w'' key' row =>
      simp only [Stmt.CallOf, Stmt.isCallOf, Bool.and_eq_true, decide_eq_true_eq] at h
      exact fun hw ↦ hne (h.1.1.symm.trans hw.1)
    | deleteWorkflows ids => cases h
    | collectWorkflows cutoff => cases h
    | copyOperations new original start => cases h
    | copyStreams new original start => cases h
    | _ => trivial

/-- A call of the body that appends nothing to the stream leaves it alone. -/
theorem keepsStream_of_callOf {n : ℕ} (hkind : (calls n).kind.stream ≠ some key) {s : Stmt}
    (h : s.CallOf w n (calls n).kind) : s.KeepsStream w key calls := by
  have hnone : (calls n).appends key n = none := by
    cases hinv : calls n with
    | writeStream k codec value =>
      rw [hinv] at hkind
      exact if_neg fun hk ↦ hkind (congrArg some hk)
    | closeStream k =>
      rw [hinv] at hkind
      exact if_neg fun hk ↦ hkind (congrArg some hk)
    | _ => rfl
  cases s with
  | insertOperation w' n' row =>
    simp only [Stmt.CallOf, Stmt.isCallOf, Bool.and_eq_true, Bool.or_eq_true,
      decide_eq_true_eq] at h
    rintro - hname
    rcases h.2 with ⟨rfl, -⟩ | ⟨⟨rfl, -⟩, hsleep⟩
    · exact hnone
    · -- the deadline of a sleep is recorded under a name no stream call has
      rw [hsleep] at hname
      cases hinv : calls (n + 1) with
      | writeStream k codec value =>
        rw [hinv] at hname
        exact absurd hname (by simp [Invocation.kind, CallKind.recordName])
      | closeStream k =>
        rw [hinv] at hname
        exact absurd hname (by simp [Invocation.kind, CallKind.recordName])
      | _ => rfl
  | insertStream w' key' row =>
    simp only [Stmt.CallOf, Stmt.isCallOf, Bool.and_eq_true, decide_eq_true_eq] at h
    rintro ⟨-, rfl⟩
    exact hkind h.2
  | deleteWorkflows ids => cases h
  | collectWorkflows cutoff => cases h
  | copyOperations new original start => cases h
  | copyStreams new original start => cases h
  | _ => trivial

/-- The row of a call is in the stream. -/
def Invocation.Appended (w key : String) (n : ℕ) (inv : Invocation V) (db : Db) : Prop :=
  ∃ row i, inv.appends key n = some row ∧ db.entry w key i = some row

/-- What the result of an operation says of the stream: a call that returned has appended its
row. -/
def StreamPost (w key : String) (op : Operation V) : DbPost (OperationResult V) := fun r _ m _ ↦
  ∀ state withinStep n inv, op = .durable state withinStep n inv → state.workflowId = w →
    inv.kind.stream = some key → ∀ reply, r.2 = .ok reply → inv.Appended w key n m.db

theorem wpM_stream_call (ctx : WorkflowContext) (hw : ctx.state.workflowId = w) {n : ℕ}
    (hkind : (calls n).kind.stream = some key) {m₀ : DbMoment}
    (h₀ : StreamKept disc w key calls m₀.db) {τ : DbTrace} :
    wpM (streamSpec valid disc sent w key calls) ((calls n).run ctx n)
      (fun _ _ m _ ↦ (calls n).Appended w key n m.db) (fun _ _ _ _ ↦ True) .idle m₀ τ := by
  have hraw : ∀ m₁ τ (row : StreamRow), (calls n).appends key n = some row → row.functionId = n →
      StreamKept disc w key calls m₁.db → wpM (streamSpec valid disc sent w key calls)
        (ctx.writeStreamRaw n key (calls n).kind.recordName row.value row.serialization)
        (fun _ _ m _ ↦ (calls n).Appended w key n m.db) (fun _ _ _ _ ↦ True) .idle m₁ τ := by
    intro m₁ τ row hrow hfn h₁
    exact wpM_mono (wpM_writeStreamRaw ctx hw hrow hfn h₁)
      (fun _ _ _ _ ⟨i, hi⟩ ↦ ⟨row, i, hrow, hi⟩) fun _ _ _ _ _ ↦ trivial
  revert hkind hraw
  cases calls n with
  | writeStream k codec value =>
    rintro ⟨⟩ hraw
    have := codec
    refine wpM_map (wpM_bind (wpM_ofExcept (fun text m₁ htext hm₁ ↦ ?_) fun _ _ _ _ ↦ trivial))
    refine hraw m₁ τ ⟨text, n, some Format.portable.name⟩ ?_ rfl (hm₁.2.2 h₀)
    rw [Invocation.appends, if_pos rfl, htext]
    rfl
  | closeStream k =>
    rintro ⟨⟩ hraw
    exact wpM_map (hraw m₀ τ ⟨streamClosedSentinel, n, none⟩ (if_pos rfl) rfl h₀)
  | _ => rintro ⟨⟩

/-- A stream call within a step is refused. -/
theorem wpM_stream_withinStep {Γ : DbSpec} (ctx : WorkflowContext)
    (hctx : ctx.withinStep = true) {n : ℕ} {inv : Invocation V} (hkind : inv.kind.stream = some key)
    {c : DbConn} {m : DbMoment} {τ : DbTrace} :
    wpM Γ (inv.run ctx n) (fun _ _ _ _ ↦ False) (fun _ _ _ _ ↦ True) c m τ := by
  cases inv with
  | writeStream k codec value =>
    refine wpM_map (wpM_bind (wpM_ofExcept (fun text m₁ htext hm₁ ↦ ?_) fun _ _ _ _ ↦ trivial))
    unfold WorkflowContext.writeStreamRaw
    rw [if_pos hctx]
    exact wpM_throw fun _ _ ↦ trivial
  | closeStream k =>
    refine wpM_map ?_
    unfold WorkflowContext.closeStream WorkflowContext.writeStreamRaw
    rw [if_pos hctx]
    exact wpM_throw fun _ _ ↦ trivial
  | _ => cases hkind

/-- Every operation next to the body, and every call of the body, keeps the stream. -/
theorem wp_stream_program (inner : DbosInner) {op : Operation V} (hop : op.OfBody w calls)
    {m₀ : DbMoment} (h₀ : StreamKept disc w key calls m₀.db) {τ : DbTrace} :
    wp server (streamSpec valid disc sent w key calls) (op.program inner) (StreamPost w key op)
    .idle m₀ τ := by
  have of_all : ∀ {P : Stmt → Prop}, (op.program inner).All P (fun _ ↦ True) →
      (∀ s, P s → s.KeepsStream w key calls) → (∀ r c m τ, StreamPost w key op r c m τ) →
      wp server (streamSpec valid disc sent w key calls) (op.program inner) (StreamPost w key op)
      .idle m₀ τ :=
    fun hall hP hpost ↦ wp_mono
      (wp_of_all hall (fun _ _ he ↦ Or.inl fun w' hw' ↦ hP _ (he w' hw')) (fun _ _ _ ↦ trivial)
        (by simp)) fun r c m τ _ ↦ hpost r c m τ
  rcases hop with hop | ⟨state, withinStep, n, inv, rfl, hw, hinv⟩
  · refine of_all (elsewhere_program inner hop) (fun s ↦ keepsStream_of_elsewhere) ?_
    intro r c m τ state withinStep n inv heq hw
    simp [heq, Operation.beside, hw] at hop
  by_cases hkind : inv.kind.stream = some key
  · refine wp_program (wpM_map ?_)
    cases withinStep with
    | true =>
      refine wpM_mono (wpM_stream_withinStep ⟨inner, state, true⟩ rfl hkind)
        (fun _ _ _ _ ↦ False.elim) ?_
      rintro e c m τ - state' within' n' inv' - - - reply ⟨⟩
    | false =>
      obtain rfl := hinv rfl
      refine wpM_mono (wpM_stream_call ⟨inner, state, false⟩ hw hkind h₀) ?_ ?_
      · rintro reply c m τ hpost state' within' n' inv' ⟨⟩ - - reply' -
        exact hpost
      · rintro e c m τ - state' within' n' inv' - - - reply ⟨⟩
  · have hpost : ∀ r c m τ, StreamPost w key (.durable state withinStep n inv) r c m τ := by
      rintro r c m τ state' within' n' inv' ⟨⟩ - hkind'
      exact absurd hkind' hkind
    cases withinStep with
    | true =>
      refine of_all (Prog.All.bind (silent_invocation ⟨inner, state, true⟩ rfl n inv).map
        fun _ ↦ trivial) (fun _ ↦ False.elim) hpost
    | false =>
      obtain rfl := hinv rfl
      have hcall : ((Operation.durable state false n (calls n)).program inner).All
          (Stmt.CallOf w n (calls n).kind) fun _ ↦ True := by
        rw [← hw]
        exact Prog.All.bind (call_invocation ⟨inner, state, false⟩ n (calls n)
          fun _ _ ↦ trivial).map fun _ ↦ trivial
      exact of_all hcall (fun s ↦ keepsStream_of_callOf hkind) hpost

/-! ### Every run -/

/-- No insert into the stream is sent once its sentinel is committed. -/
def SendsWhileOpen (w key : String) (S : RuntimeSystem V) (l : RuntimeLabel V) : Prop :=
  ∀ i s row k, l = .issue i → S.sessions.lookup i = some s →
    s.prog = .sql (.insertStream w key row) k → ¬Closed w key S.moment.db

/-- A commit that meets its guarantee keeps the stream, and only adds to it. -/
theorem StreamKept.advances {Sent : ℕ → DbTrace → Stmt → DbMoment → Prop} {S S' : RuntimeSystem V}
    (h : StreamKept disc w key calls S.moment.db)
    (hadv : System.Advances server (fun i ↦ streamSpec valid disc (Sent i) w key calls) S S') :
    StreamKept disc w key calls S'.moment.db ∧ Grows w key S.moment.db S'.moment.db := by
  cases hadv with
  | quiet hdb _ _ =>
    rw [hdb]
    exact ⟨h, Grows.refl w key _⟩
  | answer i b hdb _ _ _ =>
    rw [hdb]
    exact ⟨h, Grows.refl w key _⟩
  | commit c hc hchain hlegal hguar hmoment _ _ =>
    rw [hmoment]
    rcases hguar with hkeeps | happends
    · exact h.of_keeps hchain hlegal hkeeps
    · exact h.of_appends (by rw [hc]) hchain happends

theorem streamKept_of_empty (hempty : ∀ i, db.entry w key i = none)
    (hnew : ∀ n, db.operation w n = none) : StreamKept disc w key calls db := by
  have hdense : Dense w key 0 db := fun i ↦ by simp [hempty i]
  exact ⟨⟨0, hdense, fun _ ↦ ⟨hdense, fun i row hrow ↦ by rw [hempty i] at hrow; cases hrow⟩⟩,
    fun n op hop ↦ by rw [hnew n] at hop; cases hop⟩

/-- **The stream log.** A stream starts empty, and the durable calls of its workflow are those of
one body, in any order and number at a time, next to any other operations. While no insert is sent
to it once it is closed, its offsets are `0..n-1`, a sentinel is its last entry, and every write
that returned is visible to a reader that starts at offset 0. -/
theorem streamLog_of_run {executor : ℕ → DbosInner} {ops : ℕ → Operation V} {db₀ : Db} {time : ℤ}
    {S : RuntimeSystem V} (hops : ∀ i, (ops i).OfBody w calls)
    (hempty : ∀ i, db₀.entry w key i = none) (hnew : ∀ n, db₀.operation w n = none)
    (h : Run (System.step server valid)
      (fun S l ↦ Carries executor ops l ∧ SendsWhileOpen w key S l)
      (System.init db₀ time) S) :
    (∃ n, Contiguous w key n S.moment.db) ∧
    ∀ i s state withinStep n codec value r reply,
      ops i = .durable state withinStep n (.writeStream key codec value) → state.workflowId = w →
      S.sessions.lookup i = some s → s.prog = .pure r → r.2 = .ok reply →
      ∃ row j, (Invocation.writeStream key codec value).appends key n = some row ∧
        row.at j ∈ (beforeSentinel (Stmt.streamEntries S.moment.db w key 0)).1 := by
  obtain ⟨-, hsound, -, hkept⟩ := System.sound_of_invariant
    (fun _ ↦ streamSpec valid True (fun _ _ _ ↦ True) w key calls)
    (fun i ↦ StreamPost w key (ops i))
    (P := fun S ↦ StreamKept True w key calls S.moment.db) (fun _ ↦ rfl) (fun _ ↦ trivial)
    (streamKept_of_empty hempty hnew)
    (fun S i p _ hkept hok ↦ by
      rw [hok.1 i p rfl]
      exact wp_stream_program (executor i) (hops i) hkept)
    (fun S i s st k _ _ hok hs hprog _ ↦ ⟨trivial, fun _ row hst ↦ by
      subst hst
      exact hok.2 i s row k rfl hs hprog⟩)
    (fun S l S' _ _ hkept _ _ hadv ↦ (hkept.advances hadv).1)
    (fun S l S' _ hkept _ _ hs hadv _ ↦
      ⟨(System.steps_of_step hs).before, (hkept.advances hadv).2, fun _ ↦ (hkept.advances hadv).1⟩)
        h
  obtain ⟨n, -, hdisc⟩ := hkept.dense
  have hn : Contiguous w key n S.moment.db := hdisc trivial
  refine ⟨⟨n, hn⟩, fun i s state withinStep m codec value r reply hop hw hs hprog hreply ↦ ?_⟩
  obtain ⟨row, j, hrow, hentry⟩ := hsound.returned hs hprog state withinStep m
    (.writeStream key codec value) hop hw rfl reply hreply
  exact ⟨row, j, hrow, hn.visible hentry (Invocation.value_ne_sentinel hrow)⟩

end

/-! ### A writer and a closer -/

section

local instance streamJson : SerdeJson := JsonText.jsonText

/-- The executor and the running workflow of the body. -/
def streamContext : WorkflowState := ⟨"w", {}⟩

/-- A body that writes a value and closes the stream. -/
def writeAndClose : ℕ → Invocation ℤ
  | 0 => .writeStream "k" inferInstance 5
  | 1 => .closeStream "k"
  | _ => .sleep 0

/-- Sessions 0 and 1 are the two calls of the body. -/
def writeAndCloseOps (i : ℕ) : Operation ℤ :=
  .durable streamContext false i (writeAndClose i)

/-- A stream call up to the moment it has found the stream open. -/
def findOpen (i : ℕ) : List (RuntimeLabel ℤ) :=
  [.spawn i ((writeAndCloseOps i).program (anyName "a"))] ++ sendOne i ++ sendOne i ++
    commandOne i ++ sendOne i

/-- The rest of the call: the row, the record, and the end of the transaction. -/
def appendRow (i : ℕ) : List (RuntimeLabel ℤ) :=
  sendOne i ++ answerOne i 0 ++ sendOne i ++ commandOne i ++ commandOne i

theorem carries_writeAndClose {ls : List (RuntimeLabel ℤ)}
    (h : ∀ e ∈ ls.filterMap spawnedOperation, e.1 = 0 ∧
      e.2 = (writeAndCloseOps 0).program (anyName "a") ∨ e.1 = 1 ∧
      e.2 = (writeAndCloseOps 1).program (anyName "a")) :
    ∀ l ∈ ls, Carries (fun _ ↦ anyName "a") writeAndCloseOps l := by
  rintro l hl i p rfl
  rcases h (i, p) (List.mem_filterMap.2 ⟨_, hl, rfl⟩) with ⟨rfl, rfl⟩ | ⟨rfl, rfl⟩ <;> rfl

theorem ofBody_writeAndClose (i : ℕ) : (writeAndCloseOps i).OfBody "w" writeAndClose :=
  Or.inr ⟨streamContext, false, i, writeAndClose i, rfl, rfl, fun _ ↦ rfl⟩

/-- Whether a label sends an insert to a stream that is closed. -/
def sendsWhileOpen (w key : String) (S : RuntimeSystem ℤ) : RuntimeLabel ℤ → Bool
  | .issue i =>
    match S.sessions.lookup i with
    | some ⟨.sql (.insertStream w' key' _) _, _, _⟩ =>
      !(w' = w && key' = key && decide (Closed w key S.moment.db))
    | _ => true
  | _ => true

theorem sendsWhileOpen_spec {w key : String} {S : RuntimeSystem ℤ} {l : RuntimeLabel ℤ}
    (h : sendsWhileOpen w key S l = true) : SendsWhileOpen w key S l := by
  rintro i ⟨p, c, b⟩ row k rfl hs hprog hclosed
  subst hprog
  simp [sendsWhileOpen, hs, hclosed] at h

/-- A value is written, and then the stream is closed. -/
def closeAfterWrite : List (RuntimeLabel ℤ) :=
  findOpen 0 ++ appendRow 0 ++ findOpen 1 ++ appendRow 1

theorem streamLog_of_run_closeAfterWrite : ∃ (S : RuntimeSystem ℤ) (row : StreamRow) (j : ℕ),
    exec (System.step server fun _ _ _ ↦ true) (System.init oneWaiting 0) closeAfterWrite =
      some S ∧ (∃ n, Contiguous "w" "k" n S.moment.db) ∧
    row.at j ∈ (beforeSentinel (Stmt.streamEntries S.moment.db "w" "k" 0)).1 := by
  have hrun : (exec (fun S l ↦ if sendsWhileOpen "w" "k" S l then
      System.step server (fun _ _ _ ↦ true) S l else none) (System.init oneWaiting 0)
      closeAfterWrite).any (fun S ↦ (S.sessions.lookup 0).any returnedOk) = true := by
    decide +kernel
  obtain ⟨S, hS, hreturned⟩ := (Option.any_eq_true _ _).1 hrun
  obtain ⟨s, hs, hok⟩ := (Option.any_eq_true _ _).1 hreturned
  obtain ⟨r, v, hprog, hv⟩ := exists_of_returnedOk hok
  have hspawned : ∀ e ∈ closeAfterWrite.filterMap spawnedOperation,
      e.1 = 0 ∧ e.2 = (writeAndCloseOps 0).program (anyName "a") ∨
      e.1 = 1 ∧ e.2 = (writeAndCloseOps 1).program (anyName "a") :=
    List.forall_mem_cons.2 ⟨Or.inl ⟨rfl, rfl⟩, List.forall_mem_singleton.2 (Or.inr ⟨rfl, rfl⟩)⟩
  have hreach : Run (System.step server fun _ _ _ ↦ true)
      (fun S l ↦ Carries (fun _ ↦ anyName "a") writeAndCloseOps l ∧ SendsWhileOpen "w" "k" S l)
      (System.init oneWaiting 0) S := Run.of_exec_checked hS fun S l hl hcheck ↦
    ⟨carries_writeAndClose hspawned l hl, sendsWhileOpen_spec hcheck⟩
  obtain ⟨hlog, hvisible⟩ :=
    streamLog_of_run ofBody_writeAndClose (fun _ ↦ rfl) (fun _ ↦ rfl) hreach
  obtain ⟨row, j, -, hmem⟩ :=
    hvisible 0 s streamContext false 0 inferInstance 5 r v rfl rfl hs hprog hv
  exact ⟨S, row, j, exec_of_checked hS, hlog, hmem⟩

/-- The stream is closed between the two statements of a writer: both calls return, the entry
follows the sentinel, and no reader sees it. -/
def closeDuringWrite : List (RuntimeLabel ℤ) :=
  findOpen 0 ++ findOpen 1 ++ appendRow 1 ++ appendRow 0

theorem stream_written_after_close : ∃ (S : RuntimeSystem ℤ) (s : Session Db Key Row Stmt Stmt.Res
      SqlError Ask Ask.Ans (OperationResult ℤ)) (r : OperationResult ℤ) (v : OperationValue ℤ),
    Run (System.step server fun _ _ _ ↦ true)
      (fun _ l ↦ Carries (fun _ ↦ anyName "a") writeAndCloseOps l) (System.init oneWaiting 0) S ∧
    (∀ i, (writeAndCloseOps i).OfBody "w" writeAndClose) ∧
    (¬∃ n, Contiguous "w" "k" n S.moment.db) ∧ S.sessions.lookup 0 = some s ∧ s.prog = .pure r ∧
    r.2 = .ok v ∧ (beforeSentinel (Stmt.streamEntries S.moment.db "w" "k" 0)).1 = [] := by
  have hrun : (exec (System.step server fun _ _ _ ↦ true) (System.init oneWaiting 0)
      closeDuringWrite).any (fun S ↦ (S.sessions.lookup 0).any returnedOk &&
        (S.moment.db.entry "w" "k" 0).any (fun row ↦ row.value = streamClosedSentinel) &&
        (S.moment.db.entry "w" "k" 1).isSome &&
        (beforeSentinel (Stmt.streamEntries S.moment.db "w" "k" 0)).1.isEmpty) = true := by
    decide +kernel
  obtain ⟨S, hS, hfacts⟩ := (Option.any_eq_true _ _).1 hrun
  simp only [Bool.and_eq_true, List.isEmpty_iff] at hfacts
  obtain ⟨⟨⟨hreturned, hfirst⟩, hsecond⟩, hempty⟩ := hfacts
  obtain ⟨s, hs, hok⟩ := (Option.any_eq_true _ _).1 hreturned
  obtain ⟨r, v, hprog, hv⟩ := exists_of_returnedOk hok
  have hspawned : ∀ e ∈ closeDuringWrite.filterMap spawnedOperation,
      e.1 = 0 ∧ e.2 = (writeAndCloseOps 0).program (anyName "a") ∨
      e.1 = 1 ∧ e.2 = (writeAndCloseOps 1).program (anyName "a") :=
    List.forall_mem_cons.2 ⟨Or.inl ⟨rfl, rfl⟩, List.forall_mem_singleton.2 (Or.inr ⟨rfl, rfl⟩)⟩
  refine ⟨S, s, r, v, Run.of_exec hS fun _ ↦ carries_writeAndClose hspawned, ofBody_writeAndClose,
    ?_, hs, hprog, hv, hempty⟩
  rintro ⟨n, hn⟩
  obtain ⟨row, hrow, hsentinel⟩ := (Option.any_eq_true _ _).1 hfirst
  have hlast := hn.last 0 row hrow (of_decide_eq_true hsentinel)
  have hlt := (hn.dense 1).1 hsecond
  omega

end

end Dbos

import DbosTransact.Runtime.Attempts
import DbosTransact.Runtime.Durations
import DbosTransact.Runtime.TimedCalls

/-!
# The deadline of a wait

`sleep`, and `recv` and `get_event` with their timeout, wait by the clock. The deadline is a record
of the workflow: the first attempt that comes to the call fixes it, and every other attempt goes by
the record. The calls with their clock are those of `Runtime.TimedCalls`.

`deadline_kept` is about all attempts at one call, in any run: there is one deadline, every attempt
that waits goes by it and waits no longer than until then, and a call says that its time is over
only when it is. For `recv` this needs what `recv` does not check. Between the moment it has seen a
message and its consuming update another attempt may have taken the message, and it then returns
nothing, however much time is left.
-/

namespace Dbos

open Txn

section

variable [SerdeJson]

/-- The reply says that the time is over. -/
def Reply.timedOut {V : Type} : Reply V → Bool
  | .slept _ => true
  | .received none => true
  | _ => false

/-! ### What an attempt keeps to -/

/-- The deadline recorded at a step id. -/
def Db.deadlineAt (db : Db) (w : String) (k : ℕ) : Option ℤ :=
  (db.operation w k).bind fun row ↦ (decodeValue ℤ row.output row.serialization).toOption

omit [SerdeJson] in
/-- A message waits in the mailbox. -/
def HasMessage (db : Db) (w topic : String) : Prop :=
  ∃ id r, db.notification id = some r ∧ r.IsTo w topic ∧ r.consumed = false

/-- The messages that were sent to a workflow are still there. -/
def KeepsMessages (w : String) (db db' : Db) : Prop :=
  ∀ id r, db.notification id = some r → r.destinationUuid = w →
    ∃ r', db'.notification id = some r' ∧ r'.destinationUuid = w

/-- The times of a wait are right: it goes by the recorded deadline, the readings come one after the
other, and the wait goes on only while it is not over. -/
structure Waited.Kept (w : String) (k : ℕ) (t₀ : ℤ) (m : DbMoment) (t : Waited) : Prop where
  deadline : m.db.deadlineAt w k = some t.deadline
  now : t₀ ≤ t.now
  started : t.now ≤ t.started
  elapsed : t.started ≤ m.time
  readings : ∀ r ∈ t.readings, r < t.finish

/-- A wait is over. -/
def Expired (w : String) (k : ℕ) (t₀ : ℤ) (m : DbMoment) : Prop :=
  ∃ t : Waited, t.Kept w k t₀ m ∧ t.finish ≤ m.time

/-- What a transaction of an attempt writes: nothing, the deadline, which it has computed from a
reading of the clock, or the record of the call, which has no output only if the wait is over. -/
inductive WaitCommits (w : String) (n k duration : ℕ) (t₀ : ℤ) (τ : DbTrace) (e : DbEffect) : Prop
  | reads (h : e.writes = [])
  | deadline (row : OperationRow) (b : DbMoment) (t : ℤ) (h : e.writes = [recordWrite w k row])
      (ht : t₀ ≤ t) (hread : ⟨b, .now, t⟩ ∈ τ.answers) (hkeeps : KeepsOperations w b.db e.moment.db)
      (hrow : decodeValue ℤ row.output row.serialization = .ok (addMillis t duration))
  | record (ws : List DbWrite) (row : OperationRow) (h : e.writes = ws ++ [recordWrite w n row])
      (hws : ∀ x ∈ ws, ∀ w' k', x.key ≠ .operationOutputs w' k') (hne : n ≠ k)
      (hrow : row.output = none → Expired w k t₀ e.moment)

namespace WaitCommits

variable {w : String} {n k duration : ℕ} {t₀ : ℤ} {τ : DbTrace} {e : DbEffect}
variable {old : Option OperationRow} {row : OperationRow} {s : Stmt}

/-- The deadline an attempt inserts is computed from a reading of the clock it has made. -/
theorem of_deadline (h : WaitCommits w n k duration t₀ τ e)
    (hx : (⟨.operationOutputs w k, old, some row, s⟩ : DbWrite) ∈ e.writes) :
    e.writes = [recordWrite w k row] ∧ ∃ b t, t₀ ≤ t ∧ ⟨b, .now, t⟩ ∈ τ.answers ∧
      KeepsOperations w b.db e.moment.db ∧
      decodeValue ℤ row.output row.serialization = .ok (addMillis t duration) := by
  cases h with
  | reads hempty =>
    rw [hempty] at hx
    cases hx
  | deadline row' b t hwrites ht hread hkeeps hdecode =>
    rw [hwrites, List.mem_singleton] at hx
    cases hx
    exact ⟨hwrites, b, t, ht, hread, hkeeps, hdecode⟩
  | record ws row' hwrites hws hne _ =>
    rw [hwrites] at hx
    rcases List.mem_append.1 hx with hx | hx
    · exact absurd rfl (hws _ hx w _)
    · have hkey : Key.operationOutputs w k = .operationOutputs w n :=
        congrArg Write.key (List.mem_singleton.1 hx)
      exact absurd (Key.operationOutputs.inj hkey).2.symm hne

/-- A record without output is inserted when the wait is over. -/
theorem of_record (h : WaitCommits w n k duration t₀ τ e) (hnk : n ≠ k)
    (hx : (⟨.operationOutputs w n, old, some row, s⟩ : DbWrite) ∈ e.writes)
    (houtput : row.output = none) : Expired w k t₀ e.moment := by
  cases h with
  | reads hempty =>
    rw [hempty] at hx
    cases hx
  | deadline row' b t hwrites ht hread hkeeps hdecode =>
    rw [hwrites, List.mem_singleton] at hx
    have hkey : Key.operationOutputs w n = .operationOutputs w k := congrArg Write.key hx
    exact absurd (Key.operationOutputs.inj hkey).2 hnk
  | record ws row' hwrites hws _ hexpired =>
    rw [hwrites] at hx
    rcases List.mem_append.1 hx with hx | hx
    · exact absurd rfl (hws _ hx w _)
    · cases List.mem_singleton.1 hx
      exact hexpired houtput

end WaitCommits

/-- The mailbox does not run empty between the last look at it and the consuming update. -/
def StillThere (w : String) (τ : DbTrace) (s : Stmt) (m : DbMoment) : Prop :=
  ∀ topic, s = .consumeOldestNotification w topic → ∀ e ∈ τ.effects.getLast?, ∀ b ∈ e.snapshot,
    HasMessage b.db w topic → HasMessage m.db w topic

/-- What an attempt at a waiting call goes by. -/
def waitSpec (valid : DbMoment → (q : Ask) → q.Ans → Bool) (w : String) (n k duration : ℕ)
    (t₀ : ℤ) : DbSpec where
  rely m m' := m.Before m' ∧ KeepsOperations w m.db m'.db ∧ KeepsMessages w m.db m'.db
  rely_refl m := ⟨.refl m, fun _ _ ↦ id, fun _ r hr hd ↦ ⟨r, hr, hd⟩⟩
  rely_trans h h' := by
    refine ⟨h.1.trans h'.1, fun k row hrow ↦ h'.2.1 k row (h.2.1 k row hrow), fun id r hr hd ↦ ?_⟩
    obtain ⟨r', hr', hd'⟩ := h.2.2 id r hr hd
    exact h'.2.2 id r' hr' hd'
  valid := valid
  guar τ e := WaitCommits w n k duration t₀ τ e
  issue τ s m := StillThere w τ s m

variable {valid : DbMoment → (q : Ask) → q.Ans → Bool} {w : String} {n k duration : ℕ} {t₀ : ℤ}
variable {m m' : DbMoment} {τ : DbTrace} {α : Type}

theorem ignoresReads_waitSpec : IgnoresReads (waitSpec valid w n k duration t₀) :=
  ⟨fun m ↦ ⟨m.before_after server [], fun _ _ ↦ id, fun _ r hr hd ↦ ⟨r, hr, hd⟩⟩,
    fun _ _ _ ↦ .reads rfl⟩

theorem deadlineAt_eq_some {db : Db} {d : ℤ} : db.deadlineAt w k = some d ↔
    ∃ row, db.operation w k = some row ∧ decodeValue ℤ row.output row.serialization = .ok d := by
  rw [Db.deadlineAt, Option.bind_eq_some_iff]
  refine exists_congr fun row ↦ and_congr_right fun _ ↦ ?_
  cases decodeValue ℤ row.output row.serialization <;> simp [Except.toOption]

theorem deadlineAt_keeps {db db' : Db} (h : KeepsOperations w db db') {d : ℤ}
    (hd : db.deadlineAt w k = some d) : db'.deadlineAt w k = some d := by
  obtain ⟨row, hrow, hread⟩ := deadlineAt_eq_some.1 hd
  exact deadlineAt_eq_some.2 ⟨row, h k row hrow, hread⟩

/-- A transaction that does not write the deadline leaves it. -/
theorem deadlineAt_apply {db : Db} {ws : List DbWrite}
    (h : ∀ x ∈ ws, x.key ≠ .operationOutputs w k) :
    (server.apply db ws).deadlineAt w k = db.deadlineAt w k := by
  have hlook : (server.apply db ws).operation w k = db.operation w k :=
    store.look_apply_of_forall_ne (k := .operationOutputs w k) h
  rw [Db.deadlineAt, hlook, Db.deadlineAt]

theorem Waited.Kept.mono {t : Waited} (h : t.Kept w k t₀ m) (hm : m.Before m')
    (hkeeps : KeepsOperations w m.db m'.db) : t.Kept w k t₀ m' :=
  ⟨deadlineAt_keeps hkeeps h.deadline, h.now, h.started, h.elapsed.trans hm.1, h.readings⟩

theorem Waited.Kept.after {t : Waited} (h : t.Kept w k t₀ m) {ws : List DbWrite}
    (hws : ∀ x ∈ ws, x.key ≠ .operationOutputs w k) : t.Kept w k t₀ (m.after server ws) :=
  ⟨(deadlineAt_apply hws).trans h.deadline, h.now, h.started, h.elapsed, h.readings⟩

theorem Expired.mono (h : Expired w k t₀ m) (hm : m.Before m')
    (hkeeps : KeepsOperations w m.db m'.db) : Expired w k t₀ m' := by
  obtain ⟨t, ht, hfinish⟩ := h
  exact ⟨t, ht.mono hm hkeeps, hfinish.trans hm.1⟩

/-! ### Waiting by the deadline -/

/-- The deadline a wait goes by is the recorded one. -/
theorem wpM_sleepDeadline (hclock : ∀ m t, valid m .now t = true → t = m.time) (h₀ : t₀ ≤ m.time) :
    wpM (waitSpec valid w n k duration t₀) (sleepDeadline w k duration)
      (fun d c m _ ↦ c = .idle ∧ t₀ ≤ m.time ∧ m.db.deadlineAt w k = some d)
      (fun _ c _ _ ↦ c = .idle) .idle m τ := by
  -- a record that is found is read back
  have hlookup : ∀ {m : DbMoment} {τ : DbTrace} {f : Option RecordedOperation → DbosM ℤ},
      t₀ ≤ m.time → (∀ m τ, t₀ ≤ m.time → wpM (waitSpec valid w n k duration t₀) (f none)
        (fun d c m _ ↦ c = .idle ∧ t₀ ≤ m.time ∧ m.db.deadlineAt w k = some d)
        (fun _ c _ _ ↦ c = .idle) .idle m τ) →
      (∀ recorded, f (some recorded) =
        ofExcept (decodeValue ℤ recorded.output recorded.serialization)) →
      wpM (waitSpec valid w n k duration t₀) (checkOperationExecution w k "DBOS.sleep" >>= f)
        (fun d c m _ ↦ c = .idle ∧ t₀ ≤ m.time ∧ m.db.deadlineAt w k = some d)
        (fun _ c _ _ ↦ c = .idle) .idle m τ := by
    intro m τ f hm hnone hsome
    refine wpM_bind (wpM_mono (wpM_checkOperationExecution ignoresReads_waitSpec) ?_
      fun _ _ _ _ h ↦ h.1)
    rintro found c m₁ τ₁ ⟨rfl, hm₁, b, b', -, -, hb', -, hfound⟩
    rcases found with - | recorded
    · exact hnone m₁ τ₁ (hm.trans hm₁.1.1)
    · obtain ⟨row, hrow, -, rfl⟩ := recordedAt_eq_some.1 hfound
      rw [hsome]
      exact wpM_ofExcept (fun d m₂ hread hm₂ ↦ ⟨rfl, hm.trans (hm₁.1.1.trans hm₂.1.1),
        deadlineAt_eq_some.2 ⟨row, hm₂.2.1 _ _ (hb'.2.1 _ _ hrow), hread⟩⟩) fun _ _ _ _ ↦ rfl
  rw [sleepDeadline]
  refine hlookup h₀ (fun m₁ τ₁ h₁ ↦ ?_) fun _ ↦ rfl
  refine wpM_ask fun m₂ hm₂ now hnow ↦ ⟨trivial, ?_⟩
  obtain rfl := hclock _ _ hnow
  have h₂ : t₀ ≤ m₂.time := h₁.trans hm₂.1.1
  refine wpM_bind (wpM_ofExcept (fun text m₃ htext hm₃ ↦ ?_) fun _ _ _ _ ↦ rfl)
  have hrow := decodeValue_deadline htext
  refine wpM_bind (wpM_attempt ?_)
  rw [recordOperationResult]
  refine wpM_ask fun m₄ hm₄ now' _ ↦ ⟨trivial, ?_⟩
  -- an insert that fails has found the deadline of another attempt
  have herr : ∀ e m τ (f : Option RecordedOperation → DbosM ℤ), f none = throw e →
      (∀ recorded, f (some recorded) =
        ofExcept (decodeValue ℤ recorded.output recorded.serialization)) →
      t₀ ≤ m.time → wpM (waitSpec valid w n k duration t₀)
      (if e.is .conflictingId then checkOperationExecution w k "DBOS.sleep" >>= f else throw e)
      (fun d c m _ ↦ c = .idle ∧ t₀ ≤ m.time ∧ m.db.deadlineAt w k = some d)
      (fun _ c _ _ ↦ c = .idle) .idle m τ := by
    intro e m τ f hnone hsome hm
    split
    · refine hlookup hm (fun _ _ _ ↦ ?_) hsome
      rw [hnone]
      exact wpM_throw fun _ _ ↦ rfl
    · exact wpM_throw fun _ _ ↦ rfl
  refine wpM_execute_idle (fun b m₅ e hb hm₅ _ ↦ ?_) fun b m₅ v a ch hb hm₅ hv hrun ↦ ?_
  · dsimp only
    have h₅ := h₂.trans (hm₃.1.1.trans (hm₄.1.1.trans (hb.1.1.trans hm₅.1.1)))
    split <;> exact wpM_throw fun m₆ hm₆ ↦ herr _ _ _ _ rfl (fun _ ↦ rfl) (h₅.trans hm₆.1.1)
  · obtain ⟨hnone, -, rfl⟩ := View.insert_done hrun
    rw [hv.cur] at hnone
    rw [store.record_insert hnone]
    have h₅ := h₂.trans (hm₃.1.1.trans (hm₄.1.1.trans (hb.1.1.trans hm₅.1.1)))
    have hafter : ∀ row, (m₅.after server [recordWrite w k row]).db.operation w k = some row :=
      fun row ↦ operation_apply_record m₅.db [] k row
    refine ⟨.deadline _ m₂ m₂.time rfl h₂ (by simp [Trace.note]) (fun k row hfound ↦
      hm₅.2.1 k row (hb.2.1 k row (hm₄.2.1 k row (hm₃.2.1 k row hfound)))) hrow,
        wpM_pure fun m₆ hm₆ ↦ wpM_pure fun m₇ hm₇ ↦ ⟨rfl, ?_, ?_⟩, fun _ e ↦ ?_⟩
    · exact h₅.trans (hm₆.1.1.trans hm₇.1.1)
    · exact deadlineAt_eq_some.2 ⟨_, hm₇.2.1 _ _ (hm₆.2.1 _ _ (hafter _)), hrow⟩
    · dsimp only
      split <;> exact wpM_throw fun m₆ hm₆ ↦ herr _ _ _ _ rfl (fun _ ↦ rfl) (h₅.trans hm₆.1.1)

/-- What a waiting loop may say of its wait. -/
def WaitState.Holds (R : α → DbTrace → Prop) (finish : ℤ) (m : DbMoment) (τ : DbTrace) :
    WaitState α → Prop
  | found a => R a τ
  | passed => finish ≤ m.time
  | waiting => True

/-- A loop ends with what it has found, or when its time is over. -/
theorem wpM_waitFor (hclock : ∀ m t, valid m .now t = true → t = m.time) {finish : ℤ}
    {probe : DbosM (Option α)} {R : α → DbTrace → Prop}
    (hprobe : ∀ m τ, wpM (waitSpec valid w n k duration t₀) probe
      (fun found c m' τ' ↦ c = .idle ∧ (waitSpec valid w n k duration t₀).rely m m' ∧
        ∀ a ∈ found, R a τ') (fun _ c _ _ ↦ c = .idle) .idle m τ) (rounds : ℕ) :
    wpM (waitSpec valid w n k duration t₀) (waitFor probe finish rounds)
      (fun r c m' τ' ↦ c = .idle ∧ (waitSpec valid w n k duration t₀).rely m m' ∧
        (∀ t ∈ r.2, t < finish) ∧ r.1.Holds R finish m' τ')
      (fun _ c _ _ ↦ c = .idle) .idle m τ := by
  induction rounds generalizing m τ with
  | zero => exact wpM_pure fun m₁ hm₁ ↦ ⟨rfl, hm₁, by simp, trivial⟩
  | succ rounds ih =>
    rw [waitFor]
    refine wpM_bind (wpM_mono (hprobe m τ) ?_ fun _ _ _ _ h ↦ h)
    rintro found c m₁ τ₁ ⟨rfl, hm₁, hseen⟩
    cases found with
    | some a =>
      exact wpM_pure fun m₂ hm₂ ↦ ⟨rfl, Spec.rely_trans _ hm₁ hm₂, by simp, hseen a rfl⟩
    | none =>
      refine wpM_ask fun m₂ hm₂ now hnow ↦ ⟨trivial, ?_⟩
      obtain rfl := hclock _ _ hnow
      have h₂ := Spec.rely_trans _ hm₁ hm₂
      split
      · rename_i hover
        exact wpM_pure fun m₃ hm₃ ↦ ⟨rfl, Spec.rely_trans _ h₂ hm₃, by simp, hover.trans hm₃.1.1⟩
      · rename_i hbefore
        refine wpM_bind (wpM_mono ih ?_ fun _ _ _ _ h ↦ h)
        rintro ⟨state, readings⟩ c m₃ τ₃ ⟨rfl, hm₃, hreadings, hstate⟩
        refine wpM_pure fun m₄ hm₄ ↦ ⟨rfl, Spec.rely_trans _ h₂ (Spec.rely_trans _ hm₃ hm₄),
          List.forall_mem_cons.2 ⟨not_le.1 hbefore, hreadings⟩, ?_⟩
        cases state with
        | found a => exact hstate
        | passed => exact hstate.trans hm₄.1.1
        | waiting => trivial

/-- A wait goes by the recorded deadline. -/
theorem wpM_waitUntil (hclock : ∀ m t, valid m .now t = true → t = m.time) (h₀ : t₀ ≤ m.time)
    {probe : DbosM (Option α)} {R : α → DbTrace → Prop}
    (hprobe : ∀ m τ, wpM (waitSpec valid w n k duration t₀) probe
      (fun found c m' τ' ↦ c = .idle ∧ (waitSpec valid w n k duration t₀).rely m m' ∧
        ∀ a ∈ found, R a τ') (fun _ c _ _ ↦ c = .idle) .idle m τ) (rounds : ℕ) :
    wpM (waitSpec valid w n k duration t₀) (waitUntil w k duration probe rounds)
      (fun r c m' τ' ↦ c = .idle ∧ r.2.Kept w k t₀ m' ∧ r.1.Holds R r.2.finish m' τ')
      (fun _ c _ _ ↦ c = .idle) .idle m τ := by
  rw [waitUntil, measureSleep, bind_assoc]
  refine wpM_bind (wpM_mono (wpM_sleepDeadline hclock h₀) ?_ fun _ _ _ _ h ↦ h)
  rintro deadline c m₁ τ₁ ⟨rfl, h₁, hdeadline⟩
  rw [bind_assoc]
  refine wpM_ask fun m₂ hm₂ now hnow ↦ ⟨trivial, ?_⟩
  obtain rfl := hclock _ _ hnow
  rw [pure_bind]
  refine wpM_ask fun m₃ hm₃ started hstarted ↦ ⟨trivial, ?_⟩
  obtain rfl := hclock _ _ hstarted
  refine wpM_bind (wpM_mono (wpM_waitFor hclock hprobe rounds) ?_ fun _ _ _ _ h ↦ h)
  rintro ⟨state, readings⟩ c m₄ τ₄ ⟨rfl, hm₄, hreadings, hstate⟩
  refine wpM_pure fun m₅ hm₅ ↦ ⟨rfl, ⟨?_, h₁.trans hm₂.1.1, hm₃.1.1, hm₄.1.1.trans hm₅.1.1,
    hreadings⟩, ?_⟩
  · exact deadlineAt_keeps hm₅.2.1 (deadlineAt_keeps hm₄.2.1 (deadlineAt_keeps hm₃.2.1
      (deadlineAt_keeps hm₂.2.1 hdeadline)))
  · cases state with
    | found a => exact hstate
    | passed => exact hstate.trans hm₅.1.1
    | waiting => trivial

/-! ### The calls -/

omit [SerdeJson] in
/-- The consuming update finds nothing only where no message waits, unless messages are deleted. -/
theorem Stmt.consume_none {v : DbView Stmt} {topic : String} {ch : Changes}
    (h : run v (.consumeOldestNotification w topic) = .done none ch)
    (hkeeps : KeepsMessages w v.base v.cur) : ch = [] ∧ ¬ HasMessage v.base w topic := by
  simp only [run, runConsumeOldestNotification] at h
  split at h
  · rename_i hnone
    refine ⟨(Outcome.done.inj h).2.symm, ?_⟩
    rintro ⟨id, r, hr, hto, hwaits⟩
    rw [oldestUnconsumed, Option.map_eq_none_iff, List.head?_eq_none_iff] at hnone
    have hmem : (id, r) ∈ v.base.notifications.select fun _ r ↦
        r.destinationUuid = w && r.topic = topic && !r.consumed :=
      Table.mem_select_iff.2 ⟨hr, by simp [hto.1, hto.2, hwaits]⟩
    have hlength := congrArg List.length hnone
    rw [List.length_insertionSort] at hlength
    rw [List.length_eq_zero_iff.1 hlength] at hmem
    cases hmem
  · -- a message that is chosen is still there, and is consumed
    rename_i id hid
    obtain ⟨r, hr, hto, -⟩ := oldestUnconsumed_spec hid
    obtain ⟨r', hr', -⟩ := hkeeps id r hr hto.1
    obtain ⟨a, ha, hnone⟩ := Outcome.map_eq_done.1 h
    have hlook : store.look v.base (.notifications id) = some r := hr
    have hlook' : store.look v.cur (.notifications id) = some r' := hr'
    rw [View.update, hlook, hlook', Option.any_some, if_pos rfl] at ha
    split at ha
    · cases ha
    · split at ha
      · cases ha
      · dsimp only at ha
        rw [if_pos rfl] at ha
        cases ha
        cases hnone

/-- The last read of the session has shown a message. -/
def SeesMessage (w topic : String) (τ : DbTrace) : Prop :=
  ∃ e ∈ τ.effects.getLast?, ∃ b ∈ e.snapshot, HasMessage b.db w topic

/-- The transaction of a `recv` that comes out of its loop: it records that there was no message
only if the time is over. -/
theorem wpM_takeMessage {topic : String} (hne : n ≠ k)
    (hloop : Expired w k t₀ m ∨ SeesMessage w topic τ) :
    wpM (waitSpec valid w n k duration t₀) (takeMessage w topic n)
      (fun consumed _ m' _ ↦ (∀ t : Waited, t.Kept w k t₀ m → t.Kept w k t₀ m') ∧
        (consumed = none → ∃ row, m'.db.operation w n = some row ∧ row.output = none))
      (fun _ _ _ _ ↦ True) .idle m τ := by
  refine wpM_transaction (fun _ _ _ _ ↦ trivial) ?_
  refine wpM_query_active_issued (fun _ _ _ _ _ _ _ _ ↦ trivial)
    fun b m₁ v consumed ch hb hsent hm₁ hv hrun ↦ ?_
  -- no message is taken only if the mailbox was empty, and so after the end of the wait
  have hnone : consumed = none → Expired w k t₀ m₁ := by
    rintro rfl
    have hempty : ¬ HasMessage b.db w topic := by
      have hkeeps : KeepsMessages w v.base v.cur := by
        rw [hv.base, hv.cur]
        exact hm₁.2.2
      have hbase := (Stmt.consume_none hrun hkeeps).2
      rw [hv.base] at hbase
      exact hbase
    rcases hloop with hover | ⟨e, he, b', hb', hsees⟩
    · exact (hover.mono hb.1 hb.2.1).mono hm₁.1 hm₁.2.1
    · exact (hempty (hsent topic rfl e he b' hb' hsees)).elim
  have hkeys : ∀ x ∈ store.record (Stmt.consumeOldestNotification w topic) v.cur ch,
      ∀ w' k', x.key ≠ .operationOutputs w' k' := by
    intro x hx w' k' hkey
    have hmem : x.key ∈ ch.map Sigma.fst := by
      rw [← store.map_key_record]
      exact List.mem_map_of_mem hx
    obtain ⟨c, hc, hcx⟩ := List.mem_map.1 hmem
    obtain ⟨id, hid, -⟩ := Stmt.consume_done hrun c hc
    rw [hcx, hkey] at hid
    cases hid
  refine wpM_bind (wpM_mono (wpM_record fun _ _ _ ↦ trivial) ?_ fun _ _ _ _ _ ↦ trivial)
  rintro - c m₂ τ₂ ⟨hm₂, now, rfl⟩
  have hexpired : ∀ m₃, (waitSpec valid w n k duration t₀).rely m₂ m₃ →
      consumed.map Prod.fst = none → Expired w k t₀ m₃ := by
    intro m₃ hm₃ hmap
    have hm : (waitSpec valid w n k duration t₀).rely m₁ m₃ := Spec.rely_trans _ hm₂ hm₃
    exact (hnone (Option.map_eq_none_iff.1 hmap)).mono hm.1 hm.2.1
  refine wpM_commit (fun m₃ hm₃ _ ↦ .record _ _ rfl hkeys hne (hexpired m₃ hm₃))
    (fun _ _ _ _ ↦ trivial) (fun m₃ hm₃ _ ↦ wpM_pure fun m₄ hm₄ ↦ ⟨fun t ht ↦ ?_, ?_⟩)
    fun _ _ _ _ _ _ _ ↦ trivial
  · have hm : (waitSpec valid w n k duration t₀).rely m m₃ :=
      Spec.rely_trans _ hb (Spec.rely_trans _ hm₁ (Spec.rely_trans _ hm₂ hm₃))
    refine ((ht.mono hm.1 hm.2.1).after fun x hx ↦ ?_).mono hm₄.1 hm₄.2.1
    rcases List.mem_append.1 hx with hx | hx
    · exact hkeys x hx w k
    · rw [List.mem_singleton.1 hx]
      exact fun hkey ↦ hne (Key.operationOutputs.inj hkey).2
  · rintro rfl
    exact ⟨_, hm₄.2.1 _ _ (operation_apply_record ..), rfl⟩

/-- What an attempt that has ended may say: the times of its wait are right, and its reply says that
the time is over only if it is, or if it has been recorded that it was. -/
def WaitPost {V : Type} (w : String) (n k : ℕ) (t₀ : ℤ) (timed : Timed (Reply V)) (m : DbMoment) :
    Prop :=
  (∀ t ∈ timed.waited, t.Kept w k t₀ m) ∧
    ∀ reply ∈ timed.reply, reply.timedOut = true → Expired w k t₀ m ∨
      n ≠ k ∧ ∃ row, m.db.operation w n = some row ∧ row.output = none

/-- A reply read off the record says that the time is over if the record has no output. -/
theorem wpM_wait_lookup {M : Type} [Serde M] {V : Type} (g : Option M → Reply V)
    (hg : ∀ v, (g (some v)).timedOut = false) {name : String} (hne : n ≠ k)
    {f : Option RecordedOperation → DbosM (Timed (Option M))}
    (hsome : ∀ recorded, f (some recorded) = do
      let v ← ofExcept (decodeOptional M recorded)
      return ⟨some v, none⟩) (h₀ : t₀ ≤ m.time)
    (hnone : ∀ m τ, t₀ ≤ m.time → wpM (waitSpec valid w n k duration t₀) (f none)
      (fun timed _ m _ ↦ WaitPost w n k t₀ (timed.map g) m) (fun _ _ _ _ ↦ True) .idle m τ) :
    wpM (waitSpec valid w n k duration t₀) (checkOperationExecution w n name >>= f)
      (fun timed _ m _ ↦ WaitPost w n k t₀ (timed.map g) m) (fun _ _ _ _ ↦ True) .idle m τ := by
  refine wpM_bind (wpM_mono (wpM_checkOperationExecution ignoresReads_waitSpec) ?_
    fun _ _ _ _ _ ↦ trivial)
  rintro found c m₁ τ₁ ⟨rfl, hm₁, b, b', -, -, hb', -, hfound⟩
  rcases found with - | recorded
  · exact hnone m₁ τ₁ (h₀.trans hm₁.1.1)
  · obtain ⟨row, hrow, -, rfl⟩ := recordedAt_eq_some.1 hfound
    rw [hsome]
    refine wpM_bind (wpM_ofExcept (fun v m₂ hread hm₂ ↦ wpM_pure fun m₃ hm₃ ↦ ?_)
      fun _ _ _ _ ↦ trivial)
    refine ⟨fun t ht ↦ (by cases ht), fun reply hreply hover ↦ Or.inr ⟨hne, row, ?_, ?_⟩⟩
    · exact hm₃.2.1 _ _ (hm₂.2.1 _ _ (hb'.2.1 _ _ hrow))
    · obtain rfl := Option.mem_some_iff.1 hreply
      cases v with
      | some v =>
        rw [hg] at hover
        cases hover
      | none =>
        rw [decodeOptional] at hread
        split at hread
        · cases hread
        · split at hread
          · assumption
          · rename_i out _
            cases hdecode : decodeValue M (some out) row.serialization with
            | error e =>
              rw [show (decodeValue M (some out) row.serialization) = _ from hdecode] at hread
              cases hread
            | ok v =>
              rw [show (decodeValue M (some out) row.serialization) = _ from hdecode] at hread
              cases hread

theorem wpM_sleepTimed {V : Type} (hclock : ∀ m t, valid m .now t = true → t = m.time)
    (h₀ : t₀ ≤ m.time) (ctx : WorkflowContext) (hw : ctx.state.workflowId = w) (rounds : ℕ) :
    wpM (waitSpec valid w n n duration t₀) (ctx.sleepTimed n duration rounds)
      (fun timed _ m _ ↦ WaitPost w n n t₀ (timed.map (Reply.slept (V := V))) m)
      (fun _ _ _ _ ↦ True) .idle m τ := by
  subst hw
  rw [WorkflowContext.sleepTimed]
  split
  · exact wpM_throw fun _ _ ↦ trivial
  refine wpM_bind (wpM_mono (wpM_waitUntil hclock h₀ (R := fun _ _ ↦ True)
    (fun m τ ↦ wpM_pure fun m₁ hm₁ ↦ ⟨rfl, hm₁, by simp⟩) rounds) ?_ fun _ _ _ _ _ ↦ trivial)
  rintro ⟨state, waited⟩ c m₁ τ₁ ⟨rfl, hkept, hstate⟩
  cases state with
  | found e => exact e.elim
  | waiting =>
    refine wpM_pure fun m₂ hm₂ ↦ ⟨fun t ht ↦ ?_, fun reply hreply ↦ by cases hreply⟩
    obtain rfl := Option.mem_some_iff.1 ht
    exact hkept.mono hm₂.1 hm₂.2.1
  | passed =>
    refine wpM_pure fun m₂ hm₂ ↦ ⟨fun t ht ↦ ?_, fun reply hreply _ ↦ Or.inl ?_⟩
    · obtain rfl := Option.mem_some_iff.1 ht
      exact hkept.mono hm₂.1 hm₂.2.1
    · exact ⟨waited, hkept.mono hm₂.1 hm₂.2.1, hstate.trans hm₂.1.1⟩

/-- Only where nothing was found, nothing is returned. -/
theorem decodeFound_none {M : Type} [Serde M] {found : Option (String × Option String)}
    {v : Option M} (h : decodeFound M found = .ok v) (hover : (Reply.received v).timedOut = true) :
    found = none := by
  cases found with
  | none => rfl
  | some e =>
    obtain ⟨text, serialization⟩ := e
    change (decodeValue M (some text) (serialization.or (some Format.portable.name))).map some =
      .ok v at h
    cases hdecode : decodeValue M (some text) (serialization.or (some Format.portable.name)) with
    | error e =>
      rw [hdecode] at h
      cases h
    | ok value =>
      rw [hdecode] at h
      obtain rfl := Except.ok.inj h
      cases hover

theorem wpM_recvTimed (hclock : ∀ m t, valid m .now t = true → t = m.time)
    (h₀ : t₀ ≤ m.time) (ctx : WorkflowContext) (hw : ctx.state.workflowId = w) (M : Type) [Serde M]
    (topic : Option String) (rounds : ℕ) :
    wpM (waitSpec valid w n (n + 1) duration t₀) (ctx.recvTimed n M topic duration rounds)
      (fun timed _ m _ ↦ WaitPost w n (n + 1) t₀ (timed.map Reply.received) m)
      (fun _ _ _ _ ↦ True) .idle m τ := by
  subst hw
  rw [WorkflowContext.recvTimed]
  split
  · exact wpM_throw fun _ _ ↦ trivial
  refine wpM_wait_lookup _ (fun _ ↦ rfl) (by omega) (fun _ ↦ rfl) h₀ fun m₁ τ₁ h₁ ↦ ?_
  refine wpM_ask fun m₂ hm₂ vacant _ ↦ ⟨trivial, ?_⟩
  split
  swap
  · exact wpM_throw fun _ _ ↦ trivial
  -- the loop has seen a message, or its time is over
  refine wpM_bind (wpM_mono (wpM_waitUntil hclock (h₁.trans hm₂.1.1)
    (R := fun _ ↦ SeesMessage ctx.state.workflowId (storedTopic topic)) (fun m τ ↦ ?_) rounds) ?_
    fun _ _ _ _ _ ↦ trivial)
  · refine wpM_bind (wpM_mono (wpM_read_sent ignoresReads_waitSpec
      (g := fun db ↦ db.notifications.rows.any fun e ↦ e.2.destinationUuid = ctx.state.workflowId &&
        e.2.topic = storedTopic topic && !e.2.consumed) fun _ ↦ rfl) ?_ fun _ _ _ _ h ↦ h.1)
    rintro found c m₃ τ₃ ⟨rfl, b, m₄, hb, -, hm₄, hm₃, rfl, rfl⟩
    have hm := Spec.rely_trans _ hb (Spec.rely_trans _ hm₄ hm₃)
    split
    · rename_i hany
      refine wpM_pure fun m₅ hm₅ ↦ ⟨rfl, Spec.rely_trans _ hm hm₅, fun _ _ ↦ ?_⟩
      obtain ⟨⟨id, r⟩, hmem, hr⟩ := List.any_eq_true.1 hany
      simp only [Bool.and_eq_true, decide_eq_true_eq, Bool.not_eq_true'] at hr
      refine ⟨⟨m₄, some b, []⟩, ?_, b, rfl, id, r, Table.mem_rows_iff.1 hmem, hr.1, hr.2⟩
      rw [Trace.effects_commit]
      exact List.getLast?_concat ..
    · exact wpM_pure fun m₅ hm₅ ↦ ⟨rfl, Spec.rely_trans _ hm hm₅, by simp⟩
  rintro ⟨state, waited⟩ c m₃ τ₃ ⟨rfl, hkept, hstate⟩
  -- a message is looked for in either case
  have htake : Expired ctx.state.workflowId (n + 1) t₀ m₃ ∨
      SeesMessage ctx.state.workflowId (storedTopic topic) τ₃ →
      wpM (waitSpec valid ctx.state.workflowId n (n + 1) duration t₀) (do
          let consumed ← takeMessage ctx.state.workflowId (storedTopic topic) n
          let message ← ofExcept (decodeFound M consumed)
          return (⟨some message, some waited⟩ : Timed (Option M)))
        (fun timed _ m _ ↦ WaitPost ctx.state.workflowId n (n + 1) t₀ (timed.map Reply.received) m)
        (fun _ _ _ _ ↦ True) .idle m₃ τ₃ := by
    intro hloop
    refine wpM_bind (wpM_mono (wpM_takeMessage (by omega) hloop) ?_ fun _ _ _ _ _ ↦ trivial)
    rintro consumed c m₄ τ₄ ⟨hwaited, hnone⟩
    refine wpM_bind (wpM_ofExcept (fun message m₅ hmessage hm₅ ↦ wpM_pure fun m₆ hm₆ ↦ ?_)
      fun _ _ _ _ ↦ trivial)
    have hm := Spec.rely_trans _ hm₅ hm₆
    refine ⟨fun t ht ↦ ?_, fun reply hreply hover ↦ Or.inr ⟨by omega, ?_⟩⟩
    · obtain rfl := Option.mem_some_iff.1 ht
      exact (hwaited _ hkept).mono hm.1 hm.2.1
    · obtain rfl := Option.mem_some_iff.1 hreply
      obtain ⟨row, hrow, houtput⟩ := hnone (decodeFound_none hmessage hover)
      exact ⟨row, hm.2.1 _ _ hrow, houtput⟩
  cases state with
  | waiting =>
    refine wpM_pure fun m₂ hm₂ ↦ ⟨fun t ht ↦ ?_, fun reply hreply ↦ by cases hreply⟩
    obtain rfl := Option.mem_some_iff.1 ht
    exact hkept.mono hm₂.1 hm₂.2.1
  | passed => exact htake (Or.inl ⟨waited, hkept, hstate⟩)
  | found a => exact htake (Or.inr hstate)

theorem wpM_getEventTimed (hclock : ∀ m t, valid m .now t = true → t = m.time)
    (h₀ : t₀ ≤ m.time) (ctx : WorkflowContext) (hw : ctx.state.workflowId = w) (V : Type) [Serde V]
    (targetWorkflowId key : String) (rounds : ℕ) :
    wpM (waitSpec valid w n (n + 1) duration t₀)
      (ctx.getEventTimed n V targetWorkflowId key duration rounds)
      (fun timed _ m _ ↦ WaitPost w n (n + 1) t₀ (timed.map Reply.received) m)
      (fun _ _ _ _ ↦ True) .idle m τ := by
  subst hw
  rw [WorkflowContext.getEventTimed]
  split
  · exact wpM_throw fun _ _ ↦ trivial
  refine wpM_wait_lookup _ (fun _ ↦ rfl) (by omega) (fun _ ↦ rfl) h₀ fun m₁ τ₁ h₁ ↦ ?_
  refine wpM_bind (wpM_mono (wpM_waitUntil hclock h₁ (R := fun _ _ ↦ True) (fun m τ ↦ ?_) rounds) ?_
    fun _ _ _ _ _ ↦ trivial)
  · refine wpM_bind (wpM_mono (wpM_read_sent ignoresReads_waitSpec
      (g := fun db ↦ db.workflowEvents.lookup (targetWorkflowId, key)) fun _ ↦ rfl) ?_
      fun _ _ _ _ h ↦ h.1)
    rintro found c m₃ τ₃ ⟨rfl, b, m₄, hb, -, hm₄, hm₃, -, -⟩
    exact wpM_pure fun m₅ hm₅ ↦ ⟨rfl, Spec.rely_trans _ hb (Spec.rely_trans _ hm₄
      (Spec.rely_trans _ hm₃ hm₅)), fun _ _ ↦ trivial⟩
  rintro ⟨state, waited⟩ c m₃ τ₃ ⟨rfl, hkept, hstate⟩
  have hrecord : (state.event? = none → Expired ctx.state.workflowId (n + 1) t₀ m₃) →
      wpM (waitSpec valid ctx.state.workflowId n (n + 1) duration t₀) (do
          recordEvent ctx.state.workflowId n state.event?
          let value ← ofExcept (decodeFound V state.event?)
          return (⟨some value, some waited⟩ : Timed (Option V)))
        (fun timed _ m _ ↦ WaitPost ctx.state.workflowId n (n + 1) t₀ (timed.map Reply.received) m)
        (fun _ _ _ _ ↦ True) .idle m₃ τ₃ := by
    intro hnone
    rw [recordEvent, recordOperationResult, bind_assoc]
    refine wpM_ask fun m₄ hm₄ now _ ↦ ⟨trivial, ?_⟩
    rw [bind_assoc]
    refine wpM_execute_idle (fun b m₅ e _ _ _ ↦ ?_) fun b m₅ v a ch hb hm₅ hv hrun ↦ ?_
    · dsimp only
      split <;> exact wpM_bind (wpM_throw fun _ _ ↦ trivial)
    · obtain ⟨hmissing, -, rfl⟩ := View.insert_done hrun
      rw [hv.cur] at hmissing
      rw [store.record_insert hmissing]
      have hm := Spec.rely_trans _ hm₄ (Spec.rely_trans _ hb hm₅)
      have hrow := fun row ↦ operation_apply_record m₅.db [] (w := ctx.state.workflowId) n row
      refine ⟨.record [] _ rfl (by simp) (by omega) fun houtput ↦
        (hnone (Option.map_eq_none_iff.1 houtput)).mono hm.1 hm.2.1, ?_, fun _ e ↦ ?_⟩
      swap
      · dsimp only
        split <;> exact wpM_bind (wpM_throw fun _ _ ↦ trivial)
      refine wpM_bind (wpM_pure fun m₆ hm₆ ↦ wpM_bind (wpM_ofExcept
        (fun value m₇ hvalue hm₇ ↦ wpM_pure fun m₈ hm₈ ↦ ?_) fun _ _ _ _ ↦ trivial))
      have hlast := Spec.rely_trans _ hm₆ (Spec.rely_trans _ hm₇ hm₈)
      refine ⟨fun t ht ↦ ?_, fun reply hreply hover ↦ Or.inr ⟨by omega, ?_⟩⟩
      · obtain rfl := Option.mem_some_iff.1 ht
        refine ((hkept.mono hm.1 hm.2.1).after fun x hx ↦ ?_).mono hlast.1 hlast.2.1
        rw [List.mem_singleton.1 hx]
        exact fun hkey ↦ absurd (Key.operationOutputs.inj hkey).2 (by omega)
      · obtain rfl := Option.mem_some_iff.1 hreply
        exact ⟨_, hlast.2.1 _ _ (hrow _),
          Option.map_eq_none_iff.2 (decodeFound_none hvalue hover)⟩
  cases state with
  | waiting =>
    refine wpM_pure fun m₂ hm₂ ↦ ⟨fun t ht ↦ ?_, fun reply hreply ↦ by cases hreply⟩
    obtain rfl := Option.mem_some_iff.1 ht
    exact hkept.mono hm₂.1 hm₂.2.1
  | passed => exact hrecord fun _ ↦ ⟨waited, hkept, hstate⟩
  | found a => exact hrecord fun hnone ↦ by cases hnone

/-- An attempt at a waiting call. -/
theorem wpM_waitingCall {V : Type} (hclock : ∀ m t, valid m .now t = true → t = m.time)
    (h₀ : t₀ ≤ m.time) (ctx : WorkflowContext) (hw : ctx.state.workflowId = w)
    (call : WaitingCall V) (rounds : ℕ) :
    wpM (waitSpec valid w n (call.deadlineStep n) call.duration t₀) (call.run ctx n rounds)
      (fun timed _ m _ ↦ WaitPost w n (call.deadlineStep n) t₀ timed m)
      (fun _ _ _ _ ↦ True) .idle m τ := by
  cases call with
  | sleep duration => exact wpM_map (wpM_sleepTimed hclock h₀ ctx hw rounds)
  | recv codec topic timeout => exact wpM_map (wpM_recvTimed hclock h₀ ctx hw V topic rounds)
  | getEvent codec target key timeout =>
    exact wpM_map (wpM_getEventTimed hclock h₀ ctx hw V target key rounds)

/-! ### Runs -/

variable {V : Type}

omit [SerdeJson] in
/-- A deadline that fits in 64 bits is subtracted from exactly. -/
theorem remainingTime_eq {d now : ℤ} (hd : 0 ≤ d ∧ d ≤ i64Max) (hnow : 0 ≤ now ∧ now ≤ i64Max) :
    remainingTime d now = max 0 (d - now) := by
  have hexact : asI64 (d - now) = d - now := by
    rw [asI64_eq_self_iff, i64Min]
    rw [i64Max] at *
    omega
  rw [remainingTime, hexact, max_comm]

/-- The system with attempts at a waiting call. -/
abbrev TimedSystem (V : Type) : Type :=
  System Db Key Row Stmt Stmt.Res SqlError Ask Ask.Ans (Except DbosError (Timed (Reply V)))

abbrev TimedLabel (V : Type) : Type :=
  Label Stmt Stmt.Res SqlError (Key → ℕ) Ask Ask.Ans (Except DbosError (Timed (Reply V)))

/-- An attempt at a call, and for how many rounds its loop is followed. -/
structure WaitAttempt where
  ctx : WorkflowContext
  rounds : ℕ

/-- A session with an attempt makes it, and another one runs any program. -/
def MakesAttempts (attempt : ℕ → Option WaitAttempt) (call : WaitingCall V) (n : ℕ)
    (l : TimedLabel V) : Prop :=
  ∀ i p, l = .spawn i p → ∀ a ∈ attempt i, p = (call.run a.ctx n a.rounds).run

omit [SerdeJson] in
/-- Whenever an attempt that has seen a message sends its consuming update, one is still there. -/
def TakesInTime (attempt : ℕ → Option WaitAttempt) (w : String) (S : TimedSystem V)
    (l : TimedLabel V) : Prop :=
  ∀ i t st k, l = .issue i → (attempt i).isSome = true → S.sessions.lookup i = some t →
    t.prog = .sql st k → StillThere w (S.traceOf i) st S.moment

omit [SerdeJson] in
/-- No message to the workflow has been deleted. -/
def KeepsMail (S : TimedSystem V) (w : String) : Prop :=
  ∀ id r s, (⟨.notifications id, some r, none, s⟩ : DbWrite) ∈ System.written S.history →
    r.destinationUuid ≠ w

omit [SerdeJson] in
theorem KeepsMail.keeps {S : TimedSystem V} {db₀ : Db} (hC : System.Consistent server db₀ S)
    (hmail : KeepsMail S w) {i j : ℕ} (hij : i ≤ j) :
    KeepsMessages w (System.stateAt server db₀ S.history i)
      (System.stateAt server db₀ S.history j) := by
  intro id r hr hd
  refine hC.keeps (k := .notifications id) (P := fun r : Option NotificationRow ↦
    ∃ r', r = some r' ∧ r'.destinationUuid = w) hij ⟨r, hr, hd⟩ ?_
  rintro old new s - hw ⟨r', rfl, hd'⟩
  cases new with
  | none => exact absurd hd' (hmail id r' s hw)
  | some row =>
    have hlegal : s.Writes (.notifications id) (some r') (some row) := hC.legal _ hw
    rcases hlegal.message with ⟨row, -, hnone, -⟩ | hconsumed
    · cases hnone
    · obtain ⟨r₀, hr₀, rfl⟩ := hconsumed row rfl
      obtain rfl := Option.mem_some_iff.1 hr₀
      exact ⟨_, rfl, hd'⟩

variable {attempt : ℕ → Option WaitAttempt} {call : WaitingCall V} {db₀ : Db} {time : ℤ}
variable {S : TimedSystem V}

/-- What all the attempts of a run keep to. -/
theorem sound_attempts (hclock : ∀ m t, valid m .now t = true → t = m.time)
    (hw : ∀ i, ∀ a ∈ attempt i, a.ctx.state.workflowId = w)
    (h : Run (System.step server valid) (fun S l ↦ MakesAttempts attempt call n l ∧
      TakesInTime attempt w S l) (System.init db₀ time) S)
    (hkept : KeepsRecords S w) (hmail : KeepsMail S w) :
    System.Consistent server db₀ S ∧
    (∀ c ∈ S.history, (attempt c.session).isSome = true →
      ∃ τ : DbTrace, τ.answers <+: (S.traceOf c.session).answers ∧
        WaitCommits w n (call.deadlineStep n) call.duration time τ c.toEffect) ∧
    ∀ i s timed, (attempt i).isSome = true → S.sessions.lookup i = some s →
      s.prog = .pure (.ok timed) → WaitPost w n (call.deadlineStep n) time timed S.moment := by
  have hC : System.Consistent server db₀ S := System.consistent_of_run h
  obtain ⟨hfirst, hrun⟩ := System.run_to_from (System.consistent_init db₀ time) h
  let Γ : ℕ → DbSpec := fun i ↦ if (attempt i).isSome then
    waitSpec valid w n (call.deadlineStep n) call.duration time else Spec.free valid
  let Q : ℕ → DbPost (Except DbosError (Timed (Reply V))) := fun i r _ m _ ↦
    (attempt i).isSome = true → ∀ timed, r = .ok timed →
      WaitPost w n (call.deadlineStep n) time timed m
  have hsome : ∀ {i}, (attempt i).isSome = true →
      Γ i = waitSpec valid w n (call.deadlineStep n) call.duration time := fun hi ↦ if_pos hi
  have hnone : ∀ {i}, ¬ (attempt i).isSome = true → Γ i = Spec.free valid := fun hi ↦ if_neg hi
  obtain ⟨-, hS, -, -⟩ := System.sound_of_invariant Γ Q
    (P := fun S₁ ↦ System.Shows server db₀ S.history S₁.moment ∧ time ≤ S₁.moment.time)
    (fun i ↦ by
      by_cases hi : (attempt i).isSome = true
      · rw [hsome hi]
        rfl
      · rw [hnone hi]
        rfl)
    (fun i ↦ by
      by_cases hi : (attempt i).isSome = true
      · rw [hsome hi]
        trivial
      · rw [hnone hi]
        trivial)
    ⟨hfirst, le_rfl⟩
    (fun S₁ i p _ hS₁ hok ↦ by
      by_cases hi : (attempt i).isSome = true
      · obtain ⟨a, ha⟩ := Option.isSome_iff_exists.1 hi
        rw [hsome hi, hok.1.1 i p rfl a ha]
        refine wp_mono (wpM_waitingCall hclock hS₁.2 a.ctx (hw i a ha) call a.rounds) ?_
        rintro (e | timed) c m τ hpost - timed' heq
        · cases heq
        · cases heq
          exact hpost
      · rw [hnone hi]
        exact wp_mono (wp_free p) fun _ _ _ _ _ hi' ↦ absurd hi' hi)
    (fun T i s st k _ _ hok hs hprog _ ↦ by
      by_cases hi : (attempt i).isSome = true
      · rw [hsome hi]
        exact hok.1.2 i s st k rfl hi hs hprog
      · rw [hnone hi]
        trivial)
    (fun S₁ l S₂ _ _ hS₁ hok hs _ ↦
      ⟨hok.2 S₂ hs, hS₁.2.trans (System.steps_of_step hs).before.1⟩)
    (fun S₁ l S₂ _ hS₁ hS₂ hok hs _ i ↦ by
      have hm := (System.steps_of_step hs).before
      by_cases hi : (attempt i).isSome = true
      · rw [hsome hi]
        refine ⟨hm, ?_, ?_⟩
        · rw [hS₁.1.db, hS₂.1.db]
          exact fun k row ↦ (hkept.insertsOnly hC k).stays hC hm.2.1
        · rw [hS₁.1.db, hS₂.1.db]
          exact hmail.keeps hC hm.2.1
      · rw [hnone hi]
        exact hm)
    hrun
  refine ⟨hC, fun c hc hi ↦ ?_, fun i s timed hi hs hprog ↦ ?_⟩
  · obtain ⟨τ, -, hanswers, hguar⟩ := hS.guar c hc
    rw [hsome hi] at hguar
    exact ⟨τ, hanswers, hguar⟩
  · exact hS.returned hs hprog hi timed rfl

omit [SerdeJson] in
/-- A row at one of the step ids of the call that was not there at the start is an attempt's. -/
theorem exists_attempt_of_recorded (hC : System.Consistent server db₀ S)
    (hown : ∀ c ∈ S.history, attempt c.session = none → ∀ x ∈ c.writes,
      x.key ≠ .operationOutputs w n ∧ x.key ≠ .operationOutputs w (call.deadlineStep n)) {k : ℕ}
    (hk : k = n ∨ k = call.deadlineStep n) (hnone : db₀.operation w k = none) {row : OperationRow}
    (hrow : S.moment.db.operation w k = some row) :
    ∃ c ∈ S.history, (attempt c.session).isSome = true ∧
      ∃ old s, (⟨.operationOutputs w k, old, some row, s⟩ : DbWrite) ∈ c.writes := by
  obtain ⟨c, hc, old, s, hx⟩ := System.exists_write (E := server) (k := Key.operationOutputs w k)
    hC hnone hrow
  refine ⟨c, hc, Option.isSome_iff_ne_none.2 fun hother ↦ ?_, old, s, hx⟩
  obtain ⟨hrecord, hdeadline⟩ := hown c hc hother _ hx
  rcases hk with rfl | rfl
  · exact hrecord rfl
  · exact hdeadline rfl

/-- **Deadlines.** Sessions of a run make attempts at one waiting call of a workflow, next to
sessions that run any programs but do not write the records of the call; no record of the workflow
and no message to it is deleted, the clock fits in 64 bits, and so does the deadline that is
computed from a reading of it while none is recorded. Whenever an attempt has seen a message, there
still is one when it sends its consuming update. Then at most one deadline is recorded. Every
attempt that waits goes by it, and goes on waiting only for as long as it was away when the attempt
read the clock; and a call says that its time is over only when the deadline has passed. -/
theorem deadline_kept (hclock : ∀ m t, valid m .now t = true → t = m.time)
    (hw : ∀ i, ∀ a ∈ attempt i, a.ctx.state.workflowId = w)
    (h : Run (System.step server valid) (fun S l ↦ MakesAttempts attempt call n l ∧
      TakesInTime attempt w S l) (System.init db₀ time) S)
    (hkept : KeepsRecords S w) (hmail : KeepsMail S w)
    (hown : ∀ c ∈ S.history, attempt c.session = none → ∀ x ∈ c.writes,
      x.key ≠ .operationOutputs w n ∧ x.key ≠ .operationOutputs w (call.deadlineStep n))
    (hnew : db₀.operation w n = none ∧ db₀.operation w (call.deadlineStep n) = none)
    (htime : 0 ≤ time ∧ S.moment.time ≤ i64Max)
    (hfits : ∀ i b t, (attempt i).isSome = true → (i, ⟨b, .now, t⟩) ∈ S.answers →
      b.db.deadlineAt w (call.deadlineStep n) = none → t + call.duration ≤ i64Max) :
    S.history.countP (System.writesTo (.operationOutputs w (call.deadlineStep n))) ≤ 1 ∧
    ∀ i s timed, (attempt i).isSome = true → S.sessions.lookup i = some s →
      s.prog = .pure (.ok timed) →
      (∀ t ∈ timed.waited, S.moment.db.deadlineAt w (call.deadlineStep n) = some t.deadline ∧
        t.now ≤ t.started ∧ t.started ≤ S.moment.time ∧
        ∀ r ∈ t.readings, r < t.started + max 0 (t.deadline - t.now)) ∧
      ∀ reply ∈ timed.reply, reply.timedOut = true → ∃ d,
        S.moment.db.deadlineAt w (call.deadlineStep n) = some d ∧ d ≤ S.moment.time := by
  obtain ⟨hC, hcommits, hposts⟩ := sound_attempts hclock hw h hkept hmail
  -- the deadline is one that an attempt has computed
  have hdeadline : ∀ d, S.moment.db.deadlineAt w (call.deadlineStep n) = some d →
      0 ≤ d ∧ d ≤ i64Max := by
    intro d hd
    obtain ⟨row, hrow, hread⟩ := deadlineAt_eq_some.1 hd
    obtain ⟨c, hc, hi, old, st, hx⟩ :=
      exists_attempt_of_recorded hC hown (Or.inr rfl) hnew.2 hrow
    obtain ⟨τ, hanswers, hcommit⟩ := hcommits c hc hi
    obtain ⟨hwrites, b, t, ht, hreading, hkeeps, hdecode⟩ := hcommit.of_deadline hx
    -- the insert has found no deadline, so there was none when the clock was read
    have hnone : b.db.deadlineAt w (call.deadlineStep n) = none := by
      rw [Db.deadlineAt, Option.bind_eq_none_iff]
      intro row' hrow'
      obtain ⟨p, hp⟩ := List.mem_iff_getElem?.1 hc
      have hchain := (hC.commit hp).2.2.2.1
      rw [show c.writes = _ from hwrites] at hchain
      have hold : none = c.moment.db.operation w (call.deadlineStep n) := hchain.1
      rw [show c.moment.db.operation w _ = some row' from hkeeps _ _ hrow'] at hold
      cases hold
    have hmillis : t + call.duration ≤ i64Max :=
      hfits _ b t hi (System.mem_answers_traceOf.1 (hanswers.subset hreading)) hnone
    rw [hread] at hdecode
    obtain rfl := Except.ok.inj hdecode
    rw [((addExact_iff (htime.1.trans ht)).2 hmillis).addMillis_eq]
    have := htime.1
    omega
  have htimes : ∀ t : Waited, t.Kept w (call.deadlineStep n) time S.moment →
      remainingTime t.deadline t.now = max 0 (t.deadline - t.now) := by
    intro t ht
    exact remainingTime_eq (hdeadline _ ht.deadline)
      ⟨htime.1.trans ht.now, (ht.started.trans ht.elapsed).trans htime.2⟩
  have hexpired : ∀ m : DbMoment, m.time ≤ S.moment.time → Expired w (call.deadlineStep n) time m →
      (∀ d, m.db.deadlineAt w (call.deadlineStep n) = some d →
        S.moment.db.deadlineAt w (call.deadlineStep n) = some d) →
      ∃ d, S.moment.db.deadlineAt w (call.deadlineStep n) = some d ∧ d ≤ S.moment.time := by
    rintro m hm ⟨t, ht, hfinish⟩ hstays
    refine ⟨t.deadline, hstays _ ht.deadline, ?_⟩
    have hbound := hdeadline _ (hstays _ ht.deadline)
    have hnow : t.now ≤ i64Max := (ht.started.trans (ht.elapsed.trans hm)).trans htime.2
    rw [Waited.finish, remainingTime_eq hbound ⟨htime.1.trans ht.now, hnow⟩] at hfinish
    have := ht.started
    omega
  refine ⟨?_, fun i s timed hi hs hprog ↦ ?_⟩
  · rw [(hkept.insertsOnly hC _).countP_eq hC hnew.2]
    split <;> simp
  obtain ⟨hwaited, hover⟩ := hposts i s timed hi hs hprog
  refine ⟨fun t ht ↦ ?_, fun reply hreply htimed ↦ ?_⟩
  · have hk := hwaited t ht
    refine ⟨hk.deadline, hk.started, hk.elapsed, fun r hr ↦ ?_⟩
    rw [← htimes t hk]
    exact hk.readings r hr
  · rcases hover reply hreply htimed with hexp | ⟨hne, row, hrow, houtput⟩
    · exact hexpired S.moment le_rfl hexp fun _ ↦ id
    -- the record that says so was written when the time was over
    obtain ⟨c, hc, hi', old, st, hx⟩ :=
      exists_attempt_of_recorded hC hown (Or.inl rfl) hnew.1 hrow
    obtain ⟨p, hp⟩ := List.mem_iff_getElem?.1 hc
    obtain ⟨-, hbefore, hshows, -⟩ := hC.commit hp
    obtain ⟨τ, -, hcommit⟩ := hcommits c hc hi'
    refine hexpired c.moment hbefore.1 (hcommit.of_record hne hx houtput) fun d hd ↦ ?_
    refine deadlineAt_keeps (fun k row hrow ↦ ?_) hd
    rw [System.db_eq_stateAt hC]
    rw [hshows.db] at hrow
    exact (hkept.insertsOnly hC k).stays hC hshows.bound hrow

end

/-! ### A message that another attempt takes -/

section

local instance waitsJson : SerdeJson := JsonText.jsonText

/-- The clock that all executors share. -/
def sharedClock (m : DbMoment) : (q : Ask) → q.Ans → Bool
  | .now, t => t = m.time
  | _, _ => true

theorem sharedClock_now (m : DbMoment) (t : ℤ) (h : sharedClock m .now t = true) : t = m.time :=
  of_decide_eq_true h

def recvForFive : WaitingCall Unit := .recv inferInstance none 5

def timedContext (executorId : String) : WorkflowContext := ⟨anyName executorId, ⟨"w", {}⟩, false⟩

def sendTimed (i : ℕ) : List (TimedLabel Unit) := [.issue i, .finish i fun _ ↦ 0]

def commandTimed (i : ℕ) : List (TimedLabel Unit) := [.finish i fun _ ↦ 0]

def answerTimed (i : ℕ) (now : ℤ) : List (TimedLabel Unit) := [.answer i (answersAt now "")]

/-- A `recv` up to its first look at the mailbox, at time 0. -/
def firstLook (i : ℕ) : List (TimedLabel Unit) :=
  sendTimed i ++ sendTimed i ++ answerTimed i 0 ++ sendTimed i ++ sendTimed i ++ answerTimed i 0 ++
    answerTimed i 0 ++ sendTimed i ++ answerTimed i 0 ++ answerTimed i 0 ++ sendTimed i

/-- The transaction of a `recv`. -/
def takeAt (i : ℕ) (now : ℤ) : List (TimedLabel Unit) :=
  commandTimed i ++ sendTimed i ++ answerTimed i now ++ sendTimed i ++ commandTimed i ++
    commandTimed i

/-- A `recv` that finds the deadline of another attempt, up to its waiting on after its first look
at the mailbox. -/
def secondLook (i : ℕ) (now : ℤ) : List (TimedLabel Unit) :=
  sendTimed i ++ sendTimed i ++ answerTimed i now ++ sendTimed i ++ sendTimed i ++
    answerTimed i now ++ answerTimed i now ++ sendTimed i ++ answerTimed i now

/-- A client that sends the workflow a message. -/
def sendsMessage : DbosM (Timed (Reply Unit)) := do
  insertNotification "w" (storedTopic none) "null" Format.portable.name
  return ⟨none, none⟩

/-- The attempt of one executor fixes the deadline, the one of another comes to wait by it, and a
message arrives. The second attempt takes it; the first one finds at the end of its wait that the
call has been recorded. -/
def twoAttemptsWait : List (TimedLabel Unit) :=
  [.spawn 0 (recvForFive.run (timedContext "a") 0 2).run] ++ firstLook 0 ++ answerTimed 0 0 ++
    [.tick 1, .spawn 1 (recvForFive.run (timedContext "b") 0 2).run] ++ secondLook 1 1 ++
    [.tick 2, .spawn 2 sendsMessage.run] ++ answerTimed 2 3 ++ answerTimed 2 3 ++ sendTimed 2 ++
    sendTimed 1 ++ takeAt 1 3 ++ [.tick 2] ++ sendTimed 0 ++ answerTimed 0 5 ++ commandTimed 0 ++
    sendTimed 0 ++ answerTimed 0 5 ++ sendTimed 0 ++ commandTimed 0

/-- A message waits for the workflow. -/
def oneMessage : Db :=
  { oneWaiting with
    notifications := Table.set ∅ "m" (some ⟨"w", storedTopic none, "null", 0, none, false⟩) }

/-- The `recv` of step 0 on one executor has seen the message when the `recv` of step 2 on another
one takes it. -/
def takenMeanwhile : List (TimedLabel Unit) :=
  [.spawn 0 (recvForFive.run (timedContext "a") 0 1).run,
    .spawn 1 (recvForFive.run (timedContext "b") 2 1).run] ++ firstLook 0 ++ firstLook 1 ++
    takeAt 1 0 ++ takeAt 0 0

/-- Whether a message waits in the mailbox. -/
def hasMessage (db : Db) (w topic : String) : Bool :=
  db.notifications.rows.any fun e ↦ e.2.destinationUuid = w && e.2.topic = topic && !e.2.consumed

theorem hasMessage_iff {db : Db} {w topic : String} :
    hasMessage db w topic = true ↔ HasMessage db w topic := by
  rw [hasMessage, List.any_eq_true]
  constructor
  · rintro ⟨⟨id, r⟩, hmem, hr⟩
    simp only [Bool.and_eq_true, decide_eq_true_eq, Bool.not_eq_true'] at hr
    exact ⟨id, r, Table.mem_rows_iff.1 hmem, hr.1, hr.2⟩
  · rintro ⟨id, r, hr, hto, hwaits⟩
    exact ⟨(id, r), Table.mem_rows_iff.2 hr, by simp [hto.1, hto.2, hwaits]⟩

/-- Whether a step sends no consuming update after the message is gone. -/
def takesInTime (w : String) (S : TimedSystem Unit) : TimedLabel Unit → Bool
  | .issue i => (S.sessions.lookup i).all fun t ↦
    match t.prog with
    | .sql (.consumeOldestNotification _ topic) _ => (S.traceOf i).effects.getLast?.all fun e ↦
      e.snapshot.all fun b ↦ !hasMessage b.db w topic || hasMessage S.moment.db w topic
    | _ => true
  | _ => true

theorem takesInTime_spec {w : String} {S : TimedSystem Unit} {l : TimedLabel Unit}
    (h : takesInTime w S l = true) (attempt : ℕ → Option WaitAttempt) :
    TakesInTime attempt w S l := by
  rintro i t st k rfl - ht hprog topic rfl e he b hb hsees
  rw [takesInTime, ht, Option.all_some, hprog] at h
  have hshown := (Option.all_eq_true _ _).1 ((Option.all_eq_true _ _).1 h e he) b hb
  rw [hasMessage_iff.2 hsees] at hshown
  exact hasMessage_iff.1 hshown

/-- Whether the call of a session has returned a message, or nothing, as `message` says. -/
def gotMessage (message : Bool) (s : Session Db Key Row Stmt Stmt.Res SqlError Ask Ask.Ans
    (Except DbosError (Timed (Reply Unit)))) : Bool :=
  match s.prog with
  | .pure (.ok ⟨some (.received found), _⟩) => found.isSome == message
  | _ => false

theorem exists_of_gotMessage {S : TimedSystem Unit} {i : ℕ} {message : Bool}
    (h : (S.sessions.lookup i).any (gotMessage message) = true) :
    ∃ s timed found, S.sessions.lookup i = some s ∧ s.prog = .pure (.ok timed) ∧
      timed.reply = some (.received found) ∧ found.isSome = message := by
  obtain ⟨s, hs, hgot⟩ := (Option.any_eq_true _ _).1 h
  unfold gotMessage at hgot
  split at hgot
  · exact ⟨s, _, _, hs, by assumption, rfl, beq_iff_eq.1 hgot⟩
  · cases hgot

/-- Whether the history deletes no row, and only the first `n` sessions write the records of the
call of step 0. -/
def undisturbed (n : ℕ) (S : TimedSystem Unit) : Bool :=
  (System.written S.history).all (fun x ↦ x.new.isSome) &&
    S.history.all fun c ↦ c.session < n || c.writes.all fun x ↦
      x.key ≠ .operationOutputs "w" 0 && x.key ≠ .operationOutputs "w" 1

/-- The first sessions make the attempts at the call of step 0. -/
def attemptOf (attempts : List WaitAttempt) (i : ℕ) : Option WaitAttempt := attempts[i]?

theorem workflowId_attemptOf {attempts : List WaitAttempt}
    (h : ∀ a ∈ attempts, a.ctx.state.workflowId = "w") (i : ℕ) :
    ∀ a ∈ attemptOf attempts i, a.ctx.state.workflowId = "w" :=
  fun a ha ↦ h a (List.mem_of_getElem? ha)

/-- The session a label starts. -/
def spawnedTimed : TimedLabel Unit → Option (ℕ × DbProg (Except DbosError (Timed (Reply Unit))))
  | .spawn i p => some (i, p)
  | _ => none

theorem makesAttempts_attemptOf {attempts : List WaitAttempt} {ls : List (TimedLabel Unit)}
    (h : ∀ e ∈ ls.filterMap spawnedTimed, ∀ a ∈ attempts[e.1]?,
      e.2 = (recvForFive.run a.ctx 0 a.rounds).run) :
    ∀ l ∈ ls, MakesAttempts (attemptOf attempts) recvForFive 0 l := by
  rintro l hl i p rfl a ha
  exact h (i, p) (List.mem_filterMap.2 ⟨_, hl, rfl⟩) a ha

theorem undisturbed_spec {S : TimedSystem Unit} (attempts : List WaitAttempt)
    (h : undisturbed attempts.length S = true) :
    KeepsRecords S "w" ∧ KeepsMail S "w" ∧
      ∀ c ∈ S.history, attemptOf attempts c.session = none → ∀ x ∈ c.writes,
        x.key ≠ .operationOutputs "w" 0 ∧
          x.key ≠ .operationOutputs "w" (recvForFive.deadlineStep 0) := by
  rw [undisturbed, Bool.and_eq_true, List.all_eq_true, List.all_eq_true] at h
  refine ⟨fun k old s hw ↦ (by cases h.1 _ hw), fun id r s hw ↦ (by cases h.1 _ hw),
    fun c hc hnone x hx ↦ ?_⟩
  have hother := h.2 c hc
  have hge : ¬ c.session < attempts.length := not_lt.2 (List.getElem?_eq_none_iff.1 hnone)
  simp only [hge, decide_false, Bool.false_or, List.all_eq_true, Bool.and_eq_true,
    decide_eq_true_eq] at hother
  exact hother x hx

/-- Whether no reading of the clock was later than time 5. -/
def readsUpToFive (S : TimedSystem Unit) : Bool :=
  S.answers.all fun a ↦
    match a with
    | (_, ⟨_, .now, t⟩) => t ≤ 5
    | _ => true

theorem readsUpToFive_spec {S : TimedSystem Unit} (h : readsUpToFive S = true) {i : ℕ}
    {b : DbMoment} {t : ℤ} (ht : (i, ⟨b, .now, t⟩) ∈ S.answers) :
    t + recvForFive.duration ≤ i64Max := by
  have hle : t ≤ 5 := of_decide_eq_true (List.all_eq_true.1 h _ ht)
  rw [show recvForFive.duration = 5 from rfl, i64Max]
  omega

/-- Two attempts at a `recv` wait by one deadline, and the second one returns a message. -/
theorem deadline_kept_twoAttempts : ∃ S : TimedSystem Unit,
    exec (System.step server sharedClock) (System.init oneWaiting 0) twoAttemptsWait = some S ∧
    S.moment.time = 5 ∧ S.history.countP (System.writesTo (.operationOutputs "w" 1)) ≤ 1 ∧
    ∃ s timed found, S.sessions.lookup 1 = some s ∧ s.prog = .pure (.ok timed) ∧
      timed.reply = some (.received found) ∧ found.isSome = true ∧
      ∀ t ∈ timed.waited, S.moment.db.deadlineAt "w" 1 = some t.deadline ∧ t.now ≤ t.started ∧
        t.started ≤ S.moment.time ∧
        ∀ r ∈ t.readings, r < t.started + max 0 (t.deadline - t.now) := by
  have hrun : (exec (fun S l ↦ if takesInTime "w" S l then System.step server sharedClock S l
      else none) (System.init oneWaiting 0) twoAttemptsWait).any (fun S ↦ undisturbed 2 S &&
        readsUpToFive S && S.moment.time = 5 && (S.sessions.lookup 1).any (gotMessage true)) =
          true := by
    decide +kernel
  obtain ⟨S, hS, hfacts⟩ := (Option.any_eq_true _ _).1 hrun
  simp only [Bool.and_eq_true, decide_eq_true_eq] at hfacts
  obtain ⟨⟨⟨hundisturbed, hreads⟩, htime⟩, hgot⟩ := hfacts
  obtain ⟨s, timed, found, hs, hprog, hreply, hfound⟩ := exists_of_gotMessage hgot
  let attempts : List WaitAttempt := [⟨timedContext "a", 2⟩, ⟨timedContext "b", 2⟩]
  obtain ⟨hkept, hmail, hown⟩ := undisturbed_spec attempts hundisturbed
  have hmakes : ∀ l ∈ twoAttemptsWait, MakesAttempts (attemptOf attempts) recvForFive 0 l := by
    refine makesAttempts_attemptOf (List.forall_mem_cons.2 ⟨?_, List.forall_mem_cons.2 ⟨?_,
      List.forall_mem_singleton.2 fun a ha ↦ by cases ha⟩⟩)
    · rintro a ⟨⟩
      rfl
    · rintro a ⟨⟩
      rfl
  have hreach : Run (System.step server sharedClock) (fun S l ↦
      MakesAttempts (attemptOf attempts) recvForFive 0 l ∧ TakesInTime (attemptOf attempts) "w" S l)
      (System.init oneWaiting 0) S :=
    Run.of_exec_checked hS fun S₁ l hl hcheck ↦ ⟨hmakes l hl, takesInTime_spec hcheck _⟩
  obtain ⟨honce, hall⟩ := deadline_kept sharedClock_now (workflowId_attemptOf (by simp [attempts,
    timedContext])) hreach hkept hmail hown ⟨rfl, rfl⟩ ⟨le_rfl, by rw [htime]; decide⟩
    fun _ _ _ _ ht _ ↦ readsUpToFive_spec hreads ht
  exact ⟨S, exec_of_checked hS, htime, honce, s, timed, found, hs, hprog, hreply, hfound,
    (hall 1 s timed rfl hs hprog).1⟩

/-- The attempt of one executor alone. -/
def oneAttempt : List WaitAttempt := [⟨timedContext "a", 1⟩]

/-- The `recv` of step 0 returns nothing at time 0, though its deadline is 5: the message it has
seen has been taken by the `recv` of step 2, on an executor where that one has come to wait
first. -/
theorem recv_gives_up_early : ∃ (S : TimedSystem Unit)
      (s : Session Db Key Row Stmt Stmt.Res SqlError Ask Ask.Ans
        (Except DbosError (Timed (Reply Unit)))) (timed : Timed (Reply Unit)),
    Run (System.step server sharedClock) (fun _ l ↦
      MakesAttempts (attemptOf oneAttempt) recvForFive 0 l ∧
      ∀ i p, l = .spawn i p → i = 1 → p = (recvForFive.run (timedContext "b") 2 1).run)
      (System.init oneMessage 0) S ∧
    KeepsRecords S "w" ∧ KeepsMail S "w" ∧
    (∀ c ∈ S.history, attemptOf oneAttempt c.session = none → ∀ x ∈ c.writes,
      x.key ≠ .operationOutputs "w" 0 ∧
        x.key ≠ .operationOutputs "w" (recvForFive.deadlineStep 0)) ∧
    S.moment.time + recvForFive.duration ≤ i64Max ∧ S.sessions.lookup 0 = some s ∧
    s.prog = .pure (.ok timed) ∧ timed.reply = some (.received none) ∧
    S.moment.db.deadlineAt "w" 1 = some 5 ∧ S.moment.time = 0 := by
  have hrun : (exec (System.step server sharedClock) (System.init oneMessage 0)
      takenMeanwhile).any (fun S ↦ undisturbed 1 S && S.moment.time = 0 &&
        S.moment.db.deadlineAt "w" 1 = some 5 &&
          (S.sessions.lookup 0).any (gotMessage false)) = true := by
    decide +kernel
  obtain ⟨S, hS, hfacts⟩ := (Option.any_eq_true _ _).1 hrun
  simp only [Bool.and_eq_true, decide_eq_true_eq] at hfacts
  obtain ⟨⟨⟨hundisturbed, htime⟩, hdeadline⟩, hgot⟩ := hfacts
  obtain ⟨s, timed, found, hs, hprog, hreply, hfound⟩ := exists_of_gotMessage hgot
  obtain rfl : found = none := Option.isNone_iff_eq_none.1 (Option.isSome_eq_false_iff.1 hfound)
  obtain ⟨hkept, hmail, hown⟩ := undisturbed_spec oneAttempt hundisturbed
  have hmakes : ∀ l ∈ takenMeanwhile, MakesAttempts (attemptOf oneAttempt) recvForFive 0 l := by
    refine makesAttempts_attemptOf (List.forall_mem_cons.2 ⟨?_, List.forall_mem_singleton.2
      fun a ha ↦ by cases ha⟩)
    rintro a ⟨⟩
    rfl
  refine ⟨S, s, timed, Run.of_exec hS fun _ l hl ↦ ⟨hmakes l hl, ?_⟩, hkept, hmail, hown,
    by rw [htime]; decide, hs, hprog, hreply, hdeadline, htime⟩
  rintro i p rfl rfl
  have hmem : (1, p) ∈ takenMeanwhile.filterMap spawnedTimed :=
    List.mem_filterMap.2 ⟨_, hl, rfl⟩
  have hspawned : takenMeanwhile.filterMap spawnedTimed =
      [(0, (recvForFive.run (timedContext "a") 0 1).run),
        (1, (recvForFive.run (timedContext "b") 2 1).run)] := rfl
  rw [hspawned] at hmem
  rcases List.mem_cons.1 hmem with heq | hmem
  · cases heq
  · exact congrArg Prod.snd (List.mem_singleton.1 hmem)

end

end Dbos

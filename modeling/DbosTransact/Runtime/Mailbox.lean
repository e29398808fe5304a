import DbosTransact.Runtime.Durable
import DbosTransact.Runtime.Identity
import DbosTransact.JsonText

/-!
# The order of a mailbox

A message waits in the mailbox of its destination and topic until a `recv` of the destination
consumes it, and the consuming update takes the message with the least creation time. That time is a
reading of the clock in milliseconds, and nothing else is kept of the order in which messages were
sent: two messages of one millisecond are consumed in the order the query happens to give.

So the mailbox is first in, first out (`mailbox_fifo`) as long as no message is sent with the time
of an earlier one that still waits. The consuming update is the first statement of its transaction,
so the snapshot it chooses from is a state of the history (`ConsumesOldest`), and a message that
waits when it is carried out has been waiting in that state as well.
-/

namespace Dbos

open Txn

/-! ### Messages -/

/-- The message with the given id. -/
def Db.notification (db : Db) (messageUuid : String) : Option NotificationRow :=
  db.notifications.lookup messageUuid

/-- The message has been sent to this mailbox. -/
def NotificationRow.IsTo (destinationId topic : String) (r : NotificationRow) : Prop :=
  r.destinationUuid = destinationId ∧ r.topic = topic

/-- The message is there and has not been consumed. -/
def Unconsumed (db : Db) (messageUuid : String) : Prop :=
  ∃ r, db.notification messageUuid = some r ∧ r.consumed = false

instance (db : Db) (messageUuid : String) : Decidable (Unconsumed db messageUuid) :=
  decidable_of_iff ((db.notification messageUuid).any (fun r ↦ !r.consumed) = true)
    (by simp [Unconsumed, Option.any_eq_true])

section

variable {s : Stmt} {messageUuid destinationId topic : String} {v : DbView Stmt}

/-- A message is inserted, or taken away, or consumed. -/
theorem Stmt.Writes.message {old new : Option NotificationRow}
    (h : s.Writes (.notifications messageUuid) old new) :
    (∃ row, s = .insertNotification messageUuid row ∧ old = none ∧ new = some row) ∨
      ∀ r ∈ new, ∃ r₀ ∈ old, r = { r₀ with consumed := true } := by
  cases h with
  | notification _ row => exact Or.inl ⟨row, rfl, rfl, rfl⟩
  | consume d t _ r => exact Or.inr fun r' hr' ↦ ⟨r, rfl, (Option.mem_some_iff.1 hr').symm⟩
  | delete ids _ old _ => exact Or.inr (by simp)
  | collectCascade cutoff _ old _ => exact Or.inr (by simp)

/-- The message the consuming update chooses waits in the mailbox, and none there is older. -/
theorem Stmt.oldestUnconsumed_spec (h : oldestUnconsumed v destinationId topic = some messageUuid) :
    ∃ r, v.base.notification messageUuid = some r ∧ r.IsTo destinationId topic ∧
      ∀ uuid' r', v.base.notification uuid' = some r' → r'.IsTo destinationId topic →
        r'.consumed = false → r.createdAtEpochMs ≤ r'.createdAtEpochMs := by
  let before (a b : String × NotificationRow) : Prop :=
    a.2.createdAtEpochMs < b.2.createdAtEpochMs ∨
      a.2.createdAtEpochMs = b.2.createdAtEpochMs ∧
        v.plan (.notifications a.1) ≤ v.plan (.notifications b.1)
  have htotal : Std.Total before := ⟨fun a b ↦ by unfold before; omega⟩
  have htrans : IsTrans _ before := ⟨fun a b c ↦ by unfold before; omega⟩
  rw [oldestUnconsumed] at h
  obtain ⟨e, he, rfl⟩ := Option.map_eq_some_iff.1 h
  obtain ⟨rest, hsorted⟩ := List.head?_eq_some_iff.1 he
  have hmem : ∀ x : String × NotificationRow, x ∈ e :: rest ↔
      v.base.notification x.1 = some x.2 ∧ (decide (x.2.destinationUuid = destinationId) &&
        decide (x.2.topic = topic) && !x.2.consumed) = true := by
    intro x
    rw [← hsorted, List.mem_insertionSort]
    exact Table.mem_select_iff
  have hfirst := List.pairwise_insertionSort before (v.base.notifications.select fun _ r ↦
    r.destinationUuid = destinationId && r.topic = topic && !r.consumed)
  obtain ⟨he, hto⟩ := (hmem e).1 List.mem_cons_self
  simp only [Bool.and_eq_true, decide_eq_true_eq] at hto
  refine ⟨e.2, he, hto.1, fun uuid' r' hr' hto' hwaits ↦ ?_⟩
  have hin : (uuid', r') ∈ e :: rest := (hmem (uuid', r')).2 ⟨hr', by simp [hto'.1, hto'.2, hwaits]⟩
  rcases List.mem_cons.1 hin with rfl | hin
  · exact le_rfl
  · have hlist : (v.base.notifications.select _).insertionSort before = e :: rest := hsorted
    rw [hlist] at hfirst
    have hle : before e (uuid', r') := List.rel_of_pairwise_cons hfirst hin
    unfold before at hle
    exact hle.elim le_of_lt fun heq ↦ heq.1.le

/-- Whatever the consuming update writes is the message it has chosen. -/
theorem Stmt.consume_done {a : (Stmt.consumeOldestNotification destinationId topic).Res}
    {ch : Changes} (h : run v (.consumeOldestNotification destinationId topic) = .done a ch) :
    ∀ c ∈ ch, ∃ uuid, c.1 = .notifications uuid ∧
      oldestUnconsumed v destinationId topic = some uuid := by
  simp only [run, runConsumeOldestNotification] at h
  split at h
  · cases h
    simp
  · rename_i uuid huuid
    obtain ⟨r, hr, -⟩ := Outcome.map_eq_done.1 h
    rcases View.update_done hr with ⟨-, rfl⟩ | ⟨old, -, -, -, rfl⟩
    · simp
    · rintro c hc
      obtain rfl := List.mem_singleton.1 hc
      exact ⟨uuid, rfl, huuid⟩

end

/-! ### Sessions -/

/-- The statements other than a consuming update. -/
def Stmt.consumesNothing : Stmt → Bool
  | consumeOldestNotification .. => false
  | _ => true

/-- Every message the transaction consumes was the oldest one of its mailbox in a state that was
shown to it. -/
def ConsumesOldest (Shown : DbMoment → Prop) (e : DbEffect) : Prop :=
  ∀ uuid old new d t,
    (⟨.notifications uuid, old, new, .consumeOldestNotification d t⟩ : DbWrite) ∈ e.writes →
    ∃ (v : DbView Stmt) (b : DbMoment), Shown b ∧ b.xid ≤ e.moment.xid ∧ v.base = b.db ∧
      Stmt.oldestUnconsumed v d t = some uuid

theorem consumesOldest_of_consumesNothing {Shown : DbMoment → Prop} {e : DbEffect}
    (h : ∀ w ∈ e.writes, w.stmt.consumesNothing = true) : ConsumesOldest Shown e := by
  intro uuid old new d t hw
  cases h _ hw

/-- What is guaranteed of the consumptions of a session whose statements are sent in states that are
`Shown`. -/
def mailboxSpec (valid : DbMoment → (q : Ask) → q.Ans → Bool) (Shown : DbMoment → Prop) :
    DbSpec where
  rely := Moment.Before
  rely_refl := Moment.Before.refl
  rely_trans := Moment.Before.trans
  valid := valid
  guar _ := ConsumesOldest Shown
  issue _ _ b := Shown b

section

variable {valid : DbMoment → (q : Ask) → q.Ans → Bool} {Shown : DbMoment → Prop}
variable {w topic : String} {n : ℕ} {m : DbMoment} {τ : DbTrace}

theorem ignoresReads_mailboxSpec : IgnoresReads (mailboxSpec valid Shown) where
  rely m := m.before_after server []
  guar _ _ _ := consumesOldest_of_consumesNothing (by simp)

theorem autocommits_checkOperationExecution (name : String) :
    Autocommits (checkOperationExecution w n name) := by
  rw [checkOperationExecution_eq]
  exact (autocommits_query _).bind fun _ ↦ (autocommits_ofExcept _).bind fun _ ↦
    (autocommits_query _).bind fun _ ↦ autocommits_ofExcept _

theorem autocommits_recordOperationResult (name : String) (output error child ser : Option String) :
    Autocommits (recordOperationResult w n name output error child ser) := by
  refine (autocommits_ask _).bind fun now ↦ (autocommits_execute _).bind ?_
  rintro (e | _)
  · dsimp only
    split <;> exact autocommits_throw _
  · exact autocommits_pure _

theorem autocommits_recordSleep [SerdeJson] (duration : ℕ) :
    Autocommits (recordSleep w n duration) := by
  have hdeadline : Autocommits (sleepDeadline w n duration) := by
    refine (autocommits_checkOperationExecution _).bind ?_
    rintro (- | recorded)
    · refine (autocommits_ask _).bind fun now ↦ (autocommits_ofExcept _).bind fun output ↦
        (autocommits_recordOperationResult _ _ _ _ _).attempt.bind ?_
      rintro (e | _)
      · dsimp only
        split
        · refine (autocommits_checkOperationExecution _).bind ?_
          rintro (- | recorded)
          · exact autocommits_throw _
          · exact autocommits_ofExcept _
        · exact autocommits_throw _
      · exact autocommits_pure _
    · exact autocommits_ofExcept _
  exact hdeadline.bind fun _ ↦ (autocommits_ask _).bind fun _ ↦ autocommits_pure _

/-- A wait for a message reads, and begins no transaction. -/
theorem awaitMessage_spec (polls : ℕ) : Autocommits (awaitMessage w topic polls) ∧
    Sends (fun s ↦ s.consumesNothing = true) (awaitMessage w topic polls) := by
  induction polls with
  | zero =>
    exact ⟨(autocommits_query _).bind fun _ ↦ autocommits_pure _,
      Sends.bind (sends_query (by rfl)) fun _ ↦ sends_pure _⟩
  | succ polls ih =>
    refine ⟨(autocommits_query _).bind fun found ↦ ?_,
      Sends.bind (sends_query (by rfl)) fun found ↦ ?_⟩
    · cases found
      · exact ih.1
      · exact autocommits_pure _
    · cases found
      · exact ih.2
      · exact sends_pure _

/-- The transaction of a `recv`: the consuming update comes first in it. -/
theorem wpM_consume {ser : Option (String × Option String) → Option String} :
    wpM (mailboxSpec valid Shown) (transaction do
        let consumed ← consumeOldestNotification w topic
        recordOperationResult w n "DBOS.recv" (consumed.map Prod.fst) none none (ser consumed)
        commitTx
        return consumed) (fun _ _ _ _ ↦ True) (fun _ _ _ _ ↦ True) .idle m τ := by
  refine wpM_transaction (fun _ _ _ _ ↦ trivial) ?_
  refine wpM_query_active_issued (fun _ _ _ _ _ _ _ _ ↦ trivial)
    fun b m₁ v a ch hb hshown hm₁ hv hrun ↦ ?_
  refine wpM_bind (wpM_mono (wpM_record fun _ _ _ ↦ trivial) ?_ fun _ _ _ _ _ ↦ trivial)
  rintro - c m₂ τ₂ ⟨hm₂, now, rfl⟩
  refine wpM_commit (fun m₃ hm₃ _ ↦ ?_) (fun _ _ _ _ ↦ trivial)
    (fun _ _ _ ↦ wpM_pure fun _ _ ↦ trivial) fun _ _ _ _ _ _ _ ↦ trivial
  intro uuid old new d t hw
  rcases List.mem_append.1 hw with hw | hw
  · cases store.stmt_of_mem_record hw
    have hkey : Key.notifications uuid ∈ ch.map Sigma.fst := by
      rw [← store.map_key_record]
      exact List.mem_map_of_mem hw
    obtain ⟨c, hc, hcu⟩ := List.mem_map.1 hkey
    obtain ⟨uuid', huuid, hchosen⟩ := Stmt.consume_done hrun c hc
    cases hcu.symm.trans huuid
    exact ⟨v, b, hshown, (hm₁.trans (hm₂.trans hm₃)).2.1, hv.base, hchosen⟩
  · cases List.mem_singleton.1 hw

variable [SerdeJson]

theorem wpM_recv (ctx : WorkflowContext) (M : Type) [Serde M] (topic : Option String)
    (timeout : ℕ) : wpM (mailboxSpec valid Shown) (ctx.recv n M topic timeout)
      (fun _ _ _ _ ↦ True) (fun _ _ _ _ ↦ True) .idle m τ := by
  have hquiet : ∀ {w k kind} (s : Stmt), kind ≠ CallKind.recv → s.CallOf w k kind →
      s.consumesNothing = true := by
    intro w k kind s hkind hs
    cases s with
    | consumeOldestNotification d t => simp [Stmt.CallOf, Stmt.isCallOf, hkind] at hs
    | _ => rfl
  have hguar : ∀ τ, ∀ e : DbEffect, (∀ w ∈ e.writes, w.stmt.consumesNothing = true) →
      (mailboxSpec valid Shown).guar τ e := fun _ _ he ↦ consumesOldest_of_consumesNothing he
  unfold WorkflowContext.recv
  split
  · exact wpM_throw fun _ _ ↦ trivial
  refine wpM_bind (wpM_mono (wpM_checkOperationExecution ignoresReads_mailboxSpec) ?_
    fun _ _ _ _ _ ↦ trivial)
  rintro found c m₁ τ₁ ⟨rfl, -, -⟩
  rcases found with - | recorded
  · refine wpM_ask fun m₂ _ vacant _ ↦ ⟨trivial, ?_⟩
    split
    · have hsleep : Sends (Stmt.CallOf ctx.state.workflowId (n + 1) .sleep)
          (recordSleep ctx.state.workflowId (n + 1) timeout) :=
        call_recordSleep (Or.inl ⟨rfl, rfl⟩) _
      refine wpM_bind (wpM_mono (wpM_of_autocommits (hsleep.mono (fun s ↦ hquiet s (by simp))
        fun _ ↦ id) (autocommits_recordSleep _) hguar fun _ _ _ ↦ trivial) ?_ fun _ _ _ _ _ ↦
        trivial)
      rintro - c m₃ τ₃ rfl
      refine wpM_ask fun m₄ _ polls _ ↦ ⟨trivial, wpM_bind (wpM_mono (wpM_of_autocommits
        (awaitMessage_spec polls).2 (awaitMessage_spec polls).1 hguar fun _ _ _ ↦ trivial) ?_
        fun _ _ _ _ _ ↦ trivial)⟩
      rintro - c m₅ τ₅ rfl
      exact wpM_bind (wpM_mono wpM_consume (fun _ _ _ _ _ ↦
        wpM_ofExcept (fun _ _ _ _ ↦ trivial) fun _ _ _ _ ↦ trivial) fun _ _ _ _ _ ↦ trivial)
    · exact wpM_throw fun _ _ ↦ trivial
  · exact wpM_ofExcept (fun _ _ _ _ ↦ trivial) fun _ _ _ _ ↦ trivial

variable {V : Type} {inner : DbosInner}

/-- The operation is a durable `recv`. -/
def Operation.recvs : Operation V → Bool
  | durable _ _ _ inv => inv.kind = .recv
  | _ => false

theorem consumesNothing_run {op : Operation V} (h : op.recvs = false) :
    Sends (fun s ↦ s.consumesNothing = true) (op.run inner) := by
  have hcall : ∀ {w k kind} (s : Stmt), kind ≠ CallKind.recv → s.CallOf w k kind →
      s.consumesNothing = true := by
    intro w k kind s hkind hs
    cases s with
    | consumeOldestNotification d t => simp [Stmt.CallOf, Stmt.isCallOf, hkind] at hs
    | _ => rfl
  have hstatus : ∀ s : Stmt, s.StatusOnly → s.consumesNothing = true := by
    intro s hs
    cases s <;> first | rfl | cases hs
  have hmanage : ∀ s : Stmt, s.isManagement = true → s.consumesNothing = true := by
    intro s hs
    cases s <;> first | rfl | cases hs
  cases op with
  | call c =>
    refine Sends.map ?_
    by_cases hc : c.statusOnly = true
    · exact (status_call inner hc fun _ _ ↦ trivial).mono hstatus fun _ ↦ id
    · cases c with
      | runWorkflow name input opts parent =>
        rcases parent with - | ⟨state, k⟩
        · exact absurd rfl hc
        · exact ((call_startWorkflow inner name input opts state k _ _).mono
            (fun s ↦ hcall s (by simp)) fun _ ↦ id).map
      | fork input => exact Sends.map (sends_forkWorkflow hmanage input)
      | delete ids => exact Sends.map (sends_query (by rfl))
      | collectGarbage cutoff rowsThreshold =>
        exact Sends.map (sends_garbageCollect hmanage cutoff rowsThreshold)
      | _ => exact absurd rfl hc
  | durable state withinStep k inv =>
    have hkind : inv.kind ≠ .recv := by simpa [Operation.recvs] using h
    exact Sends.map ((call_invocation _ k inv fun _ _ ↦ trivial).mono (fun s ↦ hcall s hkind)
      fun _ ↦ id)
  | readStream w key codec fromOffset snapshot rounds =>
    exact Sends.map (sends_readStream (fun _ ↦ by rfl) (by rfl) snapshot rounds fromOffset [])
  | readStreamAsync w key codec rounds =>
    exact Sends.map (sends_readStreamAsync (fun _ ↦ by rfl) (by rfl) rounds 0 [])

theorem wp_mailbox_program (op : Operation V) :
    wp server (mailboxSpec valid Shown) (op.program inner) (fun _ _ _ _ ↦ True) .idle m {} := by
  by_cases hop : op.recvs = true
  · cases op with
    | durable state withinStep k inv =>
      cases inv with
      | recv codec topic timeout =>
        exact wp_program (wpM_map (wpM_map (wpM_recv _ V topic timeout)))
      | _ => cases hop
    | _ => cases hop
  · have hall : (op.program inner).All (fun s ↦ s.consumesNothing = true) fun _ ↦ True :=
      Prog.All.bind (consumesNothing_run (Bool.eq_false_iff.2 hop)) fun _ ↦ trivial
    exact wp_of_all hall (fun _ _ he ↦ consumesOldest_of_consumesNothing he) (fun _ _ _ ↦ trivial)
      (by simp)

/-! ### Runs -/

variable {executor : ℕ → DbosInner} {ops : ℕ → Operation V} {db₀ : Db} {time : ℤ}
variable {S : RuntimeSystem V}

/-- Every message a run consumes was the oldest one of its mailbox in a state of the history. -/
theorem consumes_oldest
    (h : Run (System.step server valid) (RuntimeStep executor) (System.init db₀ time) S) :
    ∀ c ∈ S.history, ConsumesOldest (System.Shows server db₀ S.history) c.toEffect := by
  obtain ⟨-, hS, -⟩ := System.sound_of_run_shown
    (Γ := fun _ ↦ mailboxSpec valid (System.Shows server db₀ S.history))
    (Q := fun _ _ _ _ _ ↦ True) (fun _ _ _ hm ↦ hm) (fun _ ↦ rfl) (fun _ ↦ trivial)
    (fun S i p hp m ↦ by
      obtain ⟨op, rfl⟩ := hp i p rfl
      exact wp_mailbox_program op) h fun _ _ _ _ hshows ↦ hshows
  intro c hc
  obtain ⟨τ, -, -, hguar⟩ := hS.guar c hc
  exact hguar

/-- A message, and the number of the commit that sent it. -/
structure SentMessage where
  commit : ℕ
  messageUuid : String
  row : NotificationRow
  deriving DecidableEq

/-- The commit inserts the message. -/
def SentMessage.SentIn (x : SentMessage) (S : RuntimeSystem V) : Prop :=
  ∃ c, S.history[x.commit]? = some c ∧ (⟨.notifications x.messageUuid, none, some x.row,
    .insertNotification x.messageUuid x.row⟩ : DbWrite) ∈ c.writes

/-- Commit `k` consumes the message. -/
def ConsumesAt (S : RuntimeSystem V) (k : ℕ) (messageUuid : String) : Prop :=
  ∃ c, S.history[k]? = some c ∧ ∃ old new d t, (⟨.notifications messageUuid, old, new,
    .consumeOldestNotification d t⟩ : DbWrite) ∈ c.writes

/-- Every message is sent under a new id. -/
def FreshMessages (db₀ : Db) (S : RuntimeSystem V) : Prop :=
  ∀ x : SentMessage, x.SentIn S → db₀.notification x.messageUuid = none ∧
    ∀ y : SentMessage, y.SentIn S → y.messageUuid = x.messageUuid → y = x

namespace SentMessage

variable {x : SentMessage}

omit [SerdeJson] in
/-- The message is not there before it is sent. -/
theorem absent (hC : System.Consistent server db₀ S) (hfresh : FreshMessages db₀ S)
    (hx : x.SentIn S) {k : ℕ} (hk : k ≤ x.commit) :
    (System.stateAt server db₀ S.history k).notification x.messageUuid = none := by
  refine hC.keeps (Nat.zero_le k) (k := .notifications x.messageUuid)
    (P := fun row : Option NotificationRow ↦ row = none) (hfresh x hx).1 ?_
  rintro old new s hw hwritten rfl
  rcases (hC.legal _ hwritten).message with ⟨row, rfl, -, rfl⟩ | hkeeps
  · obtain ⟨-, j, c, -, hj, hc, hw⟩ := System.exists_commit_of_written hw
    have hsame := (hfresh x hx).2 ⟨j, x.messageUuid, row⟩ ⟨c, hc, hw⟩ rfl
    rw [← hsame] at hk
    exact absurd hk (by simpa using hj)
  · rcases new with - | r
    · rfl
    · obtain ⟨r₀, hr₀, -⟩ := hkeeps r rfl
      cases hr₀

omit [SerdeJson] in
/-- The message is the one that was sent for as long as it is there. -/
theorem row_eq (hC : System.Consistent server db₀ S) (hfresh : FreshMessages db₀ S)
    (hx : x.SentIn S) {k : ℕ} {r : NotificationRow}
    (hr : (System.stateAt server db₀ S.history k).notification x.messageUuid = some r) :
    r = { x.row with consumed := r.consumed } := by
  have hall : ∀ r' ∈ (System.stateAt server db₀ S.history k).notification x.messageUuid,
      r' = { x.row with consumed := r'.consumed } := by
    refine hC.keeps (Nat.zero_le k) (k := .notifications x.messageUuid)
      (P := fun row : Option NotificationRow ↦
        ∀ r' ∈ row, r' = { x.row with consumed := r'.consumed })
      (fun r' hr' ↦ ?_) ?_
    · have hnone : db₀.notification x.messageUuid = some r' := hr'
      rw [(hfresh x hx).1] at hnone
      cases hnone
    · rintro old new s hw hwritten hold r' hr'
      rcases (hC.legal _ hwritten).message with ⟨row, rfl, rfl, rfl⟩ | hkeeps
      · obtain ⟨-, j, c, -, -, hc, hw⟩ := System.exists_commit_of_written hw
        have hsame := (hfresh x hx).2 ⟨j, x.messageUuid, row⟩ ⟨c, hc, hw⟩ rfl
        cases hr'
        rw [← hsame]
      · obtain ⟨r₀, hr₀, rfl⟩ := hkeeps r' hr'
        rw [hold r₀ hr₀]
  exact hall r hr

omit [SerdeJson] in
/-- A message that does not wait any more, once it has been sent, never will. -/
theorem not_unconsumed (hC : System.Consistent server db₀ S) (hfresh : FreshMessages db₀ S)
    (hx : x.SentIn S) {j k : ℕ} (hj : x.commit < j) (hjk : j ≤ k)
    (h : ¬Unconsumed (System.stateAt server db₀ S.history j) x.messageUuid) :
    ¬Unconsumed (System.stateAt server db₀ S.history k) x.messageUuid := by
  refine hC.keeps hjk (k := .notifications x.messageUuid)
    (P := fun row : Option NotificationRow ↦ ¬∃ r, row = some r ∧ r.consumed = false) h ?_
  rintro old new s hw hwritten - ⟨r, rfl, hwaits⟩
  rcases (hC.legal _ hwritten).message with ⟨row, rfl, rfl, hrow⟩ | hkeeps
  · obtain ⟨-, i, c, hi, -, hc, hw⟩ := System.exists_commit_of_written hw
    cases hrow
    have hsame := (hfresh x hx).2 ⟨i, x.messageUuid, r⟩ ⟨c, hc, hw⟩ rfl
    rw [← hsame] at hj
    exact absurd hj (by simpa using hi)
  · obtain ⟨r₀, -, rfl⟩ := hkeeps r rfl
    cases hwaits

end SentMessage

/-- **Mailbox order.** In every run, take messages that were sent to one mailbox one after the
other, by a clock that does not go back, none of them in the millisecond of an earlier one that
still waits. No message is ever consumed while an earlier one waits. -/
theorem mailbox_fifo
    (h : Run (System.step server valid) (fun _ l ↦ Carries executor ops l) (System.init db₀ time) S)
    (hfresh : FreshMessages db₀ S) {destinationId topic : String} {sent : List SentMessage}
    (hsent : ∀ x ∈ sent, x.SentIn S ∧ x.row.IsTo destinationId topic)
    (horder : sent.Pairwise fun x y ↦ x.commit < y.commit)
    (hclock : sent.Pairwise fun x y ↦ x.row.createdAtEpochMs ≤ y.row.createdAtEpochMs)
    (hapart : sent.Pairwise fun x y ↦ x.row.createdAtEpochMs = y.row.createdAtEpochMs →
      ¬Unconsumed (System.stateAt server db₀ S.history y.commit) x.messageUuid) :
    sent.Pairwise fun x y ↦ ∀ k, ConsumesAt S k y.messageUuid →
      ¬Unconsumed (System.stateAt server db₀ S.history k) x.messageUuid := by
  have hrun := runtime_of_carries h
  have hC := System.consistent_of_run hrun
  refine (horder.and (hclock.and hapart)).imp_of_mem ?_
  rintro x y hx hy ⟨hlt, hle, hapart⟩ k ⟨c, hc, old, new, d, t, hw⟩ hwaits
  obtain ⟨hx, hxto⟩ := hsent x hx
  obtain ⟨hy, hyto⟩ := hsent y hy
  -- the state in which `y` was found to be the oldest message
  obtain ⟨v, b, hshows, hb, hbase, hchosen⟩ := consumes_oldest hrun c (List.mem_of_getElem? hc)
    _ _ _ _ _ hw
  obtain ⟨r, hr, hrto, holdest⟩ := Stmt.oldestUnconsumed_spec hchosen
  rw [(hC.commit hc).1] at hb
  rw [hbase, hshows.db] at hr holdest
  have hyj : y.commit < b.xid := by
    by_contra hnot
    rw [SentMessage.absent hC hfresh hy (not_lt.1 hnot)] at hr
    cases hr
  have hry := SentMessage.row_eq hC hfresh hy hr
  -- `x` was waiting there as well, so it is not younger than `y`
  have hxwaits : Unconsumed (System.stateAt server db₀ S.history b.xid) x.messageUuid := by
    by_contra hnot
    exact SentMessage.not_unconsumed hC hfresh hx (hlt.trans hyj) hb hnot hwaits
  obtain ⟨rx, hrx, hxnew⟩ := hxwaits
  have hrow := SentMessage.row_eq hC hfresh hx hrx
  have hsame : x.row.createdAtEpochMs = y.row.createdAtEpochMs := by
    have hxto' : rx.IsTo d t := by
      have hyto' : y.row.IsTo d t := by
        rw [hry] at hrto
        exact hrto
      rw [hrow]
      exact ⟨hxto.1.trans (hyto.1.symm.trans hyto'.1), hxto.2.trans (hyto.2.symm.trans hyto'.2)⟩
    have hmin := holdest x.messageUuid rx hrx hxto' hxnew
    rw [hry, hrow] at hmin
    exact hle.antisymm hmin
  exact SentMessage.not_unconsumed hC hfresh hx hlt hyj.le (hapart hsame) ⟨rx, hrx, hxnew⟩

end

/-! ### Two messages and two receives -/

section

local instance mailboxJson : SerdeJson := JsonText.jsonText

/-- Two running workflows, a sender and a receiver. -/
def senderAndReceiver : Db where
  workflowStatus :=
    let running (w : String) : WorkflowRow := InsertWorkflowInput.row
      { workflowId := w, status := .pending, name := "f", createdAt := 0, updatedAt := 0,
        recoveryAttempts := 1, ownerXid := w }
    Table.set (Table.set ∅ "s" (some (running "s"))) "d" (some (running "d"))

/-- Sessions 0 and 1 are sends of one body, the others receives of another. -/
def mailboxOps : ℕ → Operation ℤ
  | 0 => .durable ⟨"s", {}⟩ false 0 (.send "d" inferInstance 1 none)
  | 1 => .durable ⟨"s", {}⟩ false 1 (.send "d" inferInstance 2 none)
  | i => .durable ⟨"d", {}⟩ false (2 * (i - 2)) (.recv inferInstance none 0)

/-- A send under the id `uuid` and at the time `now`. -/
def sendSteps (i : ℕ) (uuid : String) (now : ℤ) : List (RuntimeLabel ℤ) :=
  [sendOne i, sendOne i, commandOne i, [.answer i (answersAt now uuid)], answerOne i now, sendOne i,
    answerOne i now, sendOne i, commandOne i, commandOne i].flatten

/-- A receive. Of messages of one time the query gives `n` first. -/
def recvSteps (i : ℕ) : List (RuntimeLabel ℤ) :=
  [sendOne i, sendOne i, answerOne i 9, sendOne i, sendOne i, answerOne i 9, answerOne i 9,
    sendOne i, answerOne i 9, answerOne i 9, sendOne i, commandOne i,
    [.issue i, .finish i fun k ↦ if k = .notifications "n" then 0 else 1], answerOne i 9,
    sendOne i, commandOne i, commandOne i].flatten

/-- A whole call. -/
def mailboxCall (i : ℕ) (steps : List (RuntimeLabel ℤ)) : List (RuntimeLabel ℤ) :=
  .spawn i ((mailboxOps i).program (anyName "a")) :: steps

/-- Two sends and some receives, one after the other. -/
def mailboxCalls (t t' : ℤ) (receivers : List ℕ) : List (RuntimeLabel ℤ) :=
  mailboxCall 0 (sendSteps 0 "m" t) ++ mailboxCall 1 (sendSteps 1 "n" t') ++
    receivers.flatMap fun i ↦ mailboxCall i (recvSteps i)

/-- The messages in the order they are sent in. -/
def twoMessages (t t' : ℤ) : List SentMessage :=
  let row (message : String) (now : ℤ) : NotificationRow :=
    ⟨"d", nullTopic, message, now, some Format.portable.name, false⟩
  [⟨2, "m", row "1" t⟩, ⟨5, "n", row "2" t'⟩]

/-- The message a write of commit `k` inserts. -/
def sentBy (k : ℕ) : DbWrite → Option SentMessage
  | ⟨.notifications uuid, none, some row, .insertNotification uuid' row'⟩ =>
    if uuid' = uuid ∧ row' = row then some ⟨k, uuid, row⟩ else none
  | _ => none

/-- All messages of the history. -/
def sentMessages (S : RuntimeSystem ℤ) : List SentMessage :=
  S.history.zipIdx.flatMap fun e ↦ e.1.writes.filterMap (sentBy e.2)

theorem sentBy_eq_some {k : ℕ} {w : DbWrite} {x : SentMessage} : sentBy k w = some x ↔
    x.commit = k ∧ w = ⟨.notifications x.messageUuid, none, some x.row,
      .insertNotification x.messageUuid x.row⟩ := by
  constructor
  · intro h
    unfold sentBy at h
    split at h
    · split at h
      · rename_i hsame
        cases h
        exact ⟨rfl, by rw [hsame.1, hsame.2]⟩
      · cases h
    · cases h
  · rintro ⟨rfl, rfl⟩
    simp [sentBy]

theorem mem_sentMessages {S : RuntimeSystem ℤ} {x : SentMessage} :
    x ∈ sentMessages S ↔ x.SentIn S := by
  constructor
  · intro hx
    obtain ⟨⟨c, k⟩, hc, hx⟩ := List.mem_flatMap.1 hx
    obtain ⟨w, hw, hsent⟩ := List.mem_filterMap.1 hx
    obtain ⟨rfl, rfl⟩ := sentBy_eq_some.1 hsent
    exact ⟨c, List.mem_zipIdx_iff_getElem?.1 hc, hw⟩
  · rintro ⟨c, hc, hw⟩
    exact List.mem_flatMap.2 ⟨(c, x.commit), List.mem_zipIdx_iff_getElem?.2 hc,
      List.mem_filterMap.2 ⟨_, hw, sentBy_eq_some.2 ⟨rfl, rfl⟩⟩⟩

/-- Whether commit `k` consumes the message. -/
def consumesAt (S : RuntimeSystem ℤ) (k : ℕ) (messageUuid : String) : Bool :=
  (S.history[k]?).any fun c ↦ c.writes.any fun w ↦
    match w with
    | ⟨.notifications uuid, _, _, .consumeOldestNotification _ _⟩ => uuid = messageUuid
    | _ => false

theorem consumesAt_spec {S : RuntimeSystem ℤ} {k : ℕ} {messageUuid : String}
    (h : consumesAt S k messageUuid = true) : ConsumesAt S k messageUuid := by
  obtain ⟨c, hc, hany⟩ := (Option.any_eq_true _ _).1 h
  obtain ⟨w, hw, hconsumes⟩ := List.any_eq_true.1 hany
  split at hconsumes
  · obtain rfl := of_decide_eq_true hconsumes
    exact ⟨c, hc, _, _, _, _, hw⟩
  · cases hconsumes

/-- Each of the calls carries out its operation. -/
theorem carries_mailboxCalls {t t' : ℤ} {receivers : List ℕ} {l : RuntimeLabel ℤ}
    (hl : l ∈ mailboxCalls t t' receivers) :
    Carries (fun _ ↦ anyName "a") mailboxOps l := by
  have hone : ∀ {i : ℕ} {steps : List (RuntimeLabel ℤ)}, steps.filterMap spawnedOperation = [] →
      l ∈ mailboxCall i steps → Carries (fun _ ↦ anyName "a") mailboxOps l := by
    rintro i steps hsteps hl j p rfl
    rcases List.mem_cons.1 hl with heq | hl
    · cases heq
      rfl
    · have hmem : (j, p) ∈ steps.filterMap spawnedOperation := List.mem_filterMap.2 ⟨_, hl, rfl⟩
      rw [hsteps] at hmem
      cases hmem
  rcases List.mem_append.1 hl with hl | hl
  · rcases List.mem_append.1 hl with hl | hl
    · exact hone rfl hl
    · exact hone rfl hl
  · obtain ⟨i, -, hl⟩ := List.mem_flatMap.1 hl
    exact hone rfl hl

/-- What a run of the two sends and some receives comes to. -/
theorem exists_run_mailbox (t t' : ℤ) (k : ℕ) (receivers : List ℕ) (facts : RuntimeSystem ℤ → Bool)
    (hrun : (exec (System.step server fun _ _ _ ↦ true) (System.init senderAndReceiver 0)
      (mailboxCalls t t' receivers)).any (fun S ↦
        sentMessages S = twoMessages t t' && consumesAt S k "n" && facts S) = true) :
    ∃ S : RuntimeSystem ℤ, exec (System.step server fun _ _ _ ↦ true)
        (System.init senderAndReceiver 0)
        (mailboxCalls t t' receivers) = some S ∧
      Run (System.step server fun _ _ _ ↦ true)
        (fun _ l ↦ Carries (fun _ ↦ anyName "a") mailboxOps l) (System.init senderAndReceiver 0) S ∧
      FreshMessages senderAndReceiver S ∧
      (∀ x ∈ twoMessages t t', x.SentIn S ∧ x.row.IsTo "d" nullTopic) ∧ ConsumesAt S k "n" ∧
      facts S = true := by
  obtain ⟨S, hS, hfacts⟩ := (Option.any_eq_true _ _).1 hrun
  simp only [Bool.and_eq_true, decide_eq_true_eq] at hfacts
  obtain ⟨⟨hsent, hconsumes⟩, hfacts⟩ := hfacts
  have hall : ∀ x : SentMessage, x.SentIn S → x ∈ twoMessages t t' := fun x hx ↦ by
    rw [← hsent]
    exact mem_sentMessages.2 hx
  have hids : ((twoMessages t t').map SentMessage.messageUuid) = ["m", "n"] := rfl
  refine ⟨S, hS, Run.of_exec hS fun _ l ↦ carries_mailboxCalls, fun x hx ↦ ⟨rfl, fun y hy heq ↦ ?_⟩,
    fun x hx ↦ ⟨?_, ?_⟩, consumesAt_spec hconsumes, hfacts⟩
  · refine List.inj_on_of_nodup_map ?_ (hall y hy) (hall x hx) heq
    rw [hids]
    decide
  · rw [← hsent] at hx
    exact mem_sentMessages.1 hx
  · rcases List.mem_cons.1 hx with rfl | hx
    · exact ⟨rfl, rfl⟩
    · rw [List.mem_singleton.1 hx]
      exact ⟨rfl, rfl⟩

/-- The second message is sent a millisecond after the first: it is consumed by the second receive,
when the first message does not wait any more. -/
theorem mailbox_fifo_apart : ∃ S : RuntimeSystem ℤ,
    exec (System.step server fun _ _ _ ↦ true) (System.init senderAndReceiver 0)
      (mailboxCalls 5 6 [2, 3]) = some S ∧
    ConsumesAt S 19 "n" ∧
      ¬Unconsumed (System.stateAt server senderAndReceiver S.history 19) "m" := by
  obtain ⟨S, hS, hrun, hfresh, hsent, hconsumes, -⟩ :=
    exists_run_mailbox 5 6 19 [2, 3] (fun _ ↦ true) (by decide +kernel)
  have hfifo := mailbox_fifo hrun hfresh hsent (by decide) (by decide)
    (List.pairwise_pair.2 fun hsame ↦ absurd hsame (by decide))
  exact ⟨S, hS, hconsumes, List.pairwise_pair.1 hfifo 19 hconsumes⟩

/-- Both messages are sent in one millisecond: the first receive consumes the second message, and
the first one waits. -/
theorem mailbox_not_fifo : ∃ (S : RuntimeSystem ℤ) (x y : SentMessage) (k : ℕ),
    exec (System.step server fun _ _ _ ↦ true) (System.init senderAndReceiver 0)
      (mailboxCalls 5 5 [2]) = some S ∧
    Run (System.step server fun _ _ _ ↦ true)
      (fun _ l ↦ Carries (fun _ ↦ anyName "a") mailboxOps l) (System.init senderAndReceiver 0) S ∧
    FreshMessages senderAndReceiver S ∧ x.SentIn S ∧ y.SentIn S ∧ x.row.IsTo "d" nullTopic ∧
    y.row.IsTo "d" nullTopic ∧ x.commit < y.commit ∧
    x.row.createdAtEpochMs ≤ y.row.createdAtEpochMs ∧ ConsumesAt S k y.messageUuid ∧
    Unconsumed (System.stateAt server senderAndReceiver S.history k) x.messageUuid := by
  obtain ⟨S, hS, hrun, hfresh, hsent, hconsumes, hwaits⟩ :=
    exists_run_mailbox 5 5 12 [2]
      (fun S ↦ decide (Unconsumed (System.stateAt server senderAndReceiver S.history 12) "m"))
      (by decide +kernel)
  obtain ⟨hx, hxto⟩ := hsent _ List.mem_cons_self
  obtain ⟨hy, hyto⟩ := hsent _ (List.mem_cons_of_mem _ List.mem_cons_self)
  exact ⟨S, _, _, 12, hS, hrun, hfresh, hx, hy, hxto, hyto, by decide, le_rfl, hconsumes,
    of_decide_eq_true hwaits⟩

end

end Dbos

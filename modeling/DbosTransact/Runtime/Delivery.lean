import DbosTransact.Foundation.Budget
import DbosTransact.Runtime.Attempts

/-!
# Messages are delivered once

The update that consumes a message takes the oldest one of its mailbox in its snapshot. When it has
to wait for another transaction that consumes the same message, it does not ask again whether the
message is still unconsumed. Nothing in the mailbox keeps two receives from taking one message.

What does is the table of records. A receive consumes the message and records it as its step in one
transaction (`Receipt`), and the step of a workflow is recorded once. Two attempts at one receive
exclude each other by that; and two receives at different steps do, as long as the later one is
begun after the earlier one was recorded (`StartsInOrder`), which is so of a body that makes its
receives one after the other and ends with the first error. So every message is consumed by one
transaction at most, by exactly one if it is consumed in the end, and what this transaction records
is the text of the message (`messages_delivered_once`).
-/

namespace Dbos

open Txn

section

variable [SerdeJson] {V : Type}

/-- The operation is a receive of workflow `w` on the topic, with step id `n`. -/
def Operation.Receives (op : Operation V) (w topic : String) (n : ℕ) : Prop :=
  ∃ state codec topic' timeout, op = .durable state false n (.recv codec topic' timeout) ∧
    state.workflowId = w ∧ storedTopic topic' = topic

/-- The receives at earlier steps than `n` are recorded. -/
def EarlierRecorded (ops : ℕ → Operation V) (w topic : String) (n : ℕ) (db : Db) : Prop :=
  ∀ j k, (ops j).Receives w topic k → k < n → (db.operation w k).isSome = true

/-- Session `i` carries out `ops i`, and a receive is begun after the receives of its mailbox at
earlier steps were recorded. -/
def StartsInOrder (executor : ℕ → DbosInner) (ops : ℕ → Operation V) (S : RuntimeSystem V)
    (l : RuntimeLabel V) : Prop :=
  Carries executor ops l ∧ ∀ i p, l = .spawn i p → ∀ w topic n, (ops i).Receives w topic n →
    EarlierRecorded ops w topic n S.moment.db

omit [SerdeJson] in
theorem Operation.Receives.recvs {op : Operation V} {w topic : String} {n : ℕ}
    (h : op.Receives w topic n) : op.recvs = true := by
  obtain ⟨state, codec, topic', timeout, rfl, -, -⟩ := h
  rfl

omit [SerdeJson] in
theorem Operation.Receives.unique {op : Operation V} {w w' topic topic' : String} {n n' : ℕ}
    (h : op.Receives w topic n) (h' : op.Receives w' topic' n') :
    w = w' ∧ topic = topic' ∧ n = n' := by
  obtain ⟨state, codec, t, timeout, rfl, rfl, rfl⟩ := h
  obtain ⟨state', codec', t', timeout', heq, rfl, rfl⟩ := h'
  cases heq
  exact ⟨rfl, rfl, rfl⟩

/-! ### The transactions of a receive -/

/-- What a transaction of a receive writes: nothing but the deadline; or the record that there was
no message; or the consumption of a message that was the oldest one of the mailbox in a state that
was shown, and the record of its text. -/
inductive Receipt (Shown : DbMoment → Prop) (w topic : String) (n : ℕ) (e : DbEffect) : Prop
  | quiet (h : ∀ x ∈ e.writes, x.stmt.CallOf w (n + 1) .sleep)
  | nothing (row : OperationRow) (houtput : row.output = none)
      (hwrites : e.writes = [recordWrite w n row])
  | message (messageUuid : String) (r : NotificationRow) (row : OperationRow) (v : DbView Stmt)
      (b : DbMoment) (hwrites : e.writes = [⟨.notifications messageUuid, some r,
        some { r with consumed := true }, .consumeOldestNotification w topic⟩, recordWrite w n row])
      (hname : row.functionName = "DBOS.recv") (houtput : row.output = some r.message)
      (hser : row.serialization = some (r.serialization.getD Format.portable.name))
      (hshown : Shown b) (hle : b.xid ≤ e.moment.xid) (hbase : v.base = b.db)
      (hchosen : Stmt.oldestUnconsumed v w topic = some messageUuid)

/-- What is guaranteed of a session with respect to the mailboxes, when its statements are sent in
states that are `Shown`. -/
def deliverySpec (valid : DbMoment → (q : Ask) → q.Ans → Bool) (Shown : DbMoment → Prop)
    (op : Operation V) : DbSpec where
  rely := Moment.Before
  rely_refl := Moment.Before.refl
  rely_trans := Moment.Before.trans
  valid := valid
  guar _ e := (∀ x ∈ e.writes, x.stmt.consumesNothing = true ∧ op.recvs = false) ∨
    ∃ w topic n, op.Receives w topic n ∧ Receipt Shown w topic n e
  issue _ _ b := Shown b

variable {valid : DbMoment → (q : Ask) → q.Ans → Bool} {Shown : DbMoment → Prop}
variable {op : Operation V} {n : ℕ} {m : DbMoment} {τ : DbTrace} {w topic : String}

omit [SerdeJson] in
theorem ignoresReads_deliverySpec : IgnoresReads (deliverySpec valid Shown op) :=
  ⟨fun m ↦ m.before_after server [], fun _ _ _ ↦ Or.inl (by simp)⟩

omit [SerdeJson] in
/-- The transaction of a receive. -/
theorem wpM_receipt (hop : op.Receives w topic n) :
    wpM (deliverySpec valid Shown op) (transaction do
        let consumed ← consumeOldestNotification w topic
        recordOperationResult w n "DBOS.recv" (consumed.map Prod.fst) none none
          (some (foundFormat consumed))
        commitTx
        return consumed) (fun _ _ _ _ ↦ True) (fun _ _ _ _ ↦ True) .idle m τ := by
  refine wpM_transaction (fun _ _ _ _ ↦ trivial) ?_
  refine wpM_query_active_issued (fun _ _ _ _ _ _ _ _ ↦ trivial)
    fun b m₁ v a ch hb hshown hm₁ hv hrun ↦ ?_
  refine wpM_bind (wpM_mono (wpM_record fun _ _ _ ↦ trivial) ?_ fun _ _ _ _ _ ↦ trivial)
  rintro - c m₂ τ₂ ⟨hm₂, now, rfl⟩
  refine wpM_commit (fun m₃ hm₃ _ ↦ ?_) (fun _ _ _ _ ↦ trivial)
    (fun _ _ _ ↦ wpM_pure fun _ _ ↦ trivial) fun _ _ _ _ _ _ _ ↦ trivial
  refine Or.inr ⟨w, topic, n, hop, ?_⟩
  rcases Stmt.consumeOldestNotification_done hrun with ⟨rfl, hnone⟩ | ⟨uuid, r, hchosen, rfl, hsome⟩
  · exact .nothing _ rfl (by rw [hnone]; rfl)
  · exact .message uuid r _ v b (by rw [hsome]; rfl) rfl rfl rfl hshown
      (hm₁.trans (hm₂.trans hm₃)).2.1 hv.base hchosen

/-- A receive outside a step commits receipts. -/
theorem wpM_recv_delivers (ctx : WorkflowContext) (codec : Serde V) {topic' : Option String}
    {timeout : ℕ} (hop : op.Receives ctx.state.workflowId (storedTopic topic') n) :
    wpM (deliverySpec valid Shown op) (ctx.recv n V topic' timeout) (fun _ _ _ _ ↦ True)
      (fun _ _ _ _ ↦ True) .idle m τ := by
  have hawait : ∀ polls, Sends (Stmt.CallOf ctx.state.workflowId (n + 1) .sleep)
      (awaitMessage ctx.state.workflowId (storedTopic topic') polls) := by
    intro polls
    induction polls with
    | zero => exact (call_query rfl).bind fun _ ↦ sends_pure _
    | succ polls ih =>
      refine (call_query rfl).bind fun found ↦ ?_
      cases found
      · exact ih
      · exact sends_pure _
  unfold WorkflowContext.recv
  split
  · exact wpM_throw fun _ _ ↦ trivial
  refine wpM_bind (wpM_mono (wpM_checkOperationExecution ignoresReads_deliverySpec) ?_
    fun _ _ _ _ _ ↦ trivial)
  rintro found c m₁ τ₁ ⟨rfl, -, -⟩
  rcases found with - | recorded
  · refine wpM_ask fun m₂ _ vacant _ ↦ ⟨trivial, ?_⟩
    split
    · -- the deadline is the record of a sleep at the second step id
      have hsleep : Sends (Stmt.CallOf ctx.state.workflowId (n + 1) .sleep)
          (recordSleep ctx.state.workflowId (n + 1) timeout) :=
        call_recordSleep (Or.inl ⟨rfl, rfl⟩) _
      refine wpM_bind (wpM_mono (wpM_of_autocommits hsleep (autocommits_recordSleep _)
        (fun _ e he ↦ Or.inr ⟨_, _, n, hop, .quiet he⟩) fun _ _ _ ↦ trivial) ?_
        fun _ _ _ _ _ ↦ trivial)
      rintro - c m₃ τ₃ rfl
      refine wpM_ask fun m₄ _ polls _ ↦ ⟨trivial, wpM_bind (wpM_mono (wpM_of_autocommits
        (hawait polls) (awaitMessage_spec polls).1 (fun _ e he ↦ Or.inr ⟨_, _, n, hop, .quiet he⟩)
        fun _ _ _ ↦ trivial) ?_ fun _ _ _ _ _ ↦ trivial)⟩
      rintro - c m₅ τ₅ rfl
      exact wpM_bind (wpM_mono (wpM_receipt hop) (fun _ _ _ _ _ ↦
        wpM_ofExcept (fun _ _ _ _ ↦ trivial) fun _ _ _ _ ↦ trivial) fun _ _ _ _ _ ↦ trivial)
    · exact wpM_throw fun _ _ ↦ trivial
  · exact wpM_ofExcept (fun _ _ _ _ ↦ trivial) fun _ _ _ _ ↦ trivial

theorem wp_delivery_program {inner : DbosInner} (op : Operation V) :
    wp server (deliverySpec valid Shown op) (op.program inner) (fun _ _ _ _ ↦ True) .idle m {} := by
  by_cases hrecvs : op.recvs = true
  · cases op with
    | durable state withinStep n inv =>
      cases inv with
      | recv codec topic timeout =>
        cases withinStep with
        | true =>
          have hsilent : Sends (fun _ ↦ False) (Operation.run inner
              (.durable state true n (.recv codec topic timeout))) :=
            (silent_invocation ⟨inner, state, true⟩ rfl n _).map
          have hall := Prog.All.bind (f := fun r ↦ .pure
            ((.durable state true n (.recv codec topic timeout) : Operation V), r)) hsilent
            fun _ ↦ trivial
          exact wp_of_all hall (fun _ _ he ↦ Or.inl fun x hx ↦ (he x hx).elim)
            (fun _ _ _ ↦ trivial) (by simp)
        | false =>
          exact wp_program (wpM_map (wpM_map (wpM_recv_delivers ⟨inner, state, false⟩ codec
            ⟨state, codec, topic, timeout, rfl, rfl, rfl⟩)))
      | _ => cases hrecvs
    | _ => cases hrecvs
  · have hall : (op.program inner).All (fun s ↦ s.consumesNothing = true) fun _ ↦ True :=
      Prog.All.bind (consumesNothing_run (Bool.eq_false_iff.2 hrecvs)) fun _ ↦ trivial
    exact wp_of_all hall (fun _ _ he ↦ Or.inl fun x hx ↦ ⟨he x hx, Bool.eq_false_iff.2 hrecvs⟩)
      (fun _ _ _ ↦ trivial) (by simp)

/-! ### Messages are sent unconsumed -/

def Stmt.isMessage : Stmt → Bool
  | insertNotification .. => true
  | _ => false

/-- The statement inserts no message that has been consumed. -/
def Stmt.SendsUnconsumed (s : Stmt) : Prop :=
  ∀ messageUuid row, s = .insertNotification messageUuid row → row.consumed = false

theorem sendsUnconsumed_run {inner : DbosInner} (op : Operation V) :
    Sends Stmt.SendsUnconsumed (op.run inner) := by
  have hcall : ∀ {w k kind} (s : Stmt), kind ≠ CallKind.send → s.CallOf w k kind →
      s.SendsUnconsumed := by
    rintro w k kind s hkind hs messageUuid row rfl
    exact (hkind (of_decide_eq_true hs)).elim
  have hstatus : ∀ s : Stmt, s.StatusOnly → s.SendsUnconsumed := by
    rintro s hs messageUuid row rfl
    cases hs
  have hmanage : ∀ s : Stmt, s.isManagement = true → s.SendsUnconsumed := by
    rintro s hs messageUuid row rfl
    cases hs
  have hother : ∀ {s : Stmt}, s.isMessage = false → s.SendsUnconsumed := by
    rintro s hs messageUuid row rfl
    cases hs
  cases op with
  | call c =>
    refine Sends.map ?_
    by_cases hc : c.statusOnly = true
    · exact (status_call inner hc fun _ _ ↦ trivial).mono hstatus fun _ ↦ id
    · cases c with
      | runWorkflow name input opts parent =>
        rcases parent with - | ⟨state, k⟩
        · exact absurd rfl hc
        · exact ((call_startWorkflow inner name input opts state k _ _).mono
            (fun s ↦ hcall s (by simp)) fun _ ↦ id).map
      | fork input => exact Sends.map (sends_forkWorkflow hmanage input)
      | delete ids => exact Sends.map (sends_query (hother rfl))
      | collectGarbage cutoff rowsThreshold =>
        exact Sends.map (sends_garbageCollect hmanage cutoff rowsThreshold)
      | _ => exact absurd rfl hc
  | durable state withinStep k inv =>
    refine Sends.map ?_
    by_cases hkind : inv.kind = .send
    · cases inv with
      | send destinationId codec message topic =>
        refine Sends.map ?_
        rw [WorkflowContext.send]
        split
        · exact sends_throw _
        have hlookup : Sends (Stmt.CallOf state.workflowId k .recv)
            (checkOperationExecution state.workflowId k "DBOS.send") :=
          call_checkOperationExecution _
        refine (hlookup.mono (fun s ↦ hcall s (by simp)) fun _ ↦ id).bind ?_
        rintro (- | recorded)
        · refine (sends_ofExcept _).bind fun _ ↦ (sends_ofExcept _).bind fun _ ↦
            Sends.transaction (Sends.bind ?_ fun _ ↦
              (sends_recordOperationResult (fun _ _ ↦ hother rfl) _ _ _ _ trivial).bind fun _ ↦
                sends_commitTx)
          rw [insertNotification]
          refine (sends_ask _).bind fun uuid ↦ (sends_ask _).bind fun now ↦
            (sends_execute ?_).bind fun r ↦ ?_
          · rintro messageUuid row ⟨⟩
            rfl
          · rcases r with e | -
            · dsimp only
              split <;> exact sends_throw _
            · exact sends_pure _
        · exact sends_pure _
      | _ => cases hkind
    · exact (call_invocation _ k inv fun _ _ ↦ trivial).mono (fun s ↦ hcall s hkind) fun _ ↦ id
  | readStream w key codec fromOffset snapshot rounds =>
    exact Sends.map
      (sends_readStream (fun _ ↦ hother rfl) (hother rfl) snapshot rounds fromOffset [])
  | readStreamAsync w key codec rounds =>
    exact Sends.map (sends_readStreamAsync (fun _ ↦ hother rfl) (hother rfl) rounds 0 [])

/-! ### Runs -/

omit [SerdeJson] in
theorem countP_le_one_of_pairwise {α : Type} {p : α → Bool} {l : List α}
    (h : l.Pairwise fun a b ↦ p a = true → p b = false) : l.countP p ≤ 1 := by
  induction h with
  | nil => simp
  | @cons a l hall _ ih =>
    rw [List.countP_cons]
    split
    · rename_i hp
      rw [List.countP_eq_zero.2 fun b hb ↦ by simp [hall b hb hp]]
    · exact ih

/-- The transaction consumes the message. -/
def consumes (messageUuid : String) (c : Commit Db Key Row Stmt) : Bool :=
  c.writes.any fun x ↦ x.key = .notifications messageUuid && !x.stmt.consumesNothing

variable {executor : ℕ → DbosInner} {ops : ℕ → Operation V} {db₀ : Db} {time : ℤ}
variable {S : RuntimeSystem V}

omit [SerdeJson] in
theorem consumes_iff {messageUuid : String} {c : Commit Db Key Row Stmt} :
    consumes messageUuid c = true ↔ ∃ old new d t, (⟨.notifications messageUuid, old, new,
      .consumeOldestNotification d t⟩ : DbWrite) ∈ c.writes := by
  constructor
  · intro h
    obtain ⟨⟨key, old, new, s⟩, hx, hboth⟩ := List.any_eq_true.1 h
    simp only [Bool.and_eq_true, decide_eq_true_eq] at hboth
    obtain ⟨rfl, hs⟩ := hboth
    cases s with
    | consumeOldestNotification d t => exact ⟨old, new, d, t, hx⟩
    | _ => cases hs
  · rintro ⟨old, new, d, t, hx⟩
    exact List.any_eq_true.2 ⟨_, hx, by simp [Stmt.consumesNothing]⟩

omit [SerdeJson] in
/-- A message is there as it was sent, and waits until a transaction consumes it. -/
theorem SentMessage.consumed_eq_false {x : SentMessage} (hC : System.Consistent server db₀ S)
    (hfresh : FreshMessages db₀ S) (hx : x.SentIn S) (hnew : x.row.consumed = false)
    (hnone : ∀ c ∈ S.history, consumes x.messageUuid c = false) {r : NotificationRow}
    (hr : S.moment.db.notification x.messageUuid = some r) : r.consumed = false := by
  have hall : ∀ r' ∈ (System.stateAt server db₀ S.history S.history.length).notification
      x.messageUuid, r'.consumed = false := by
    refine hC.keeps (Nat.zero_le _) (k := .notifications x.messageUuid)
      (P := fun row : Option NotificationRow ↦ ∀ r' ∈ row, r'.consumed = false)
      (fun r' hr' ↦ ?_) ?_
    · have habsent : db₀.notification x.messageUuid = some r' := hr'
      rw [(hfresh x hx).1] at habsent
      cases habsent
    · rintro old new s - hwritten hold r' hr'
      obtain ⟨c, hc, hw⟩ := List.mem_flatMap.1 hwritten
      have hlegal : s.Writes (.notifications x.messageUuid) old new := hC.legal _ hwritten
      cases hlegal with
      | notification _ row =>
        obtain ⟨k, hk⟩ := List.mem_iff_getElem?.1 hc
        have hsame := (hfresh x hx).2 ⟨k, x.messageUuid, row⟩ ⟨c, hk, hw⟩ rfl
        rw [← hsame] at hnew
        exact (Option.some.inj hr') ▸ hnew
      | consume d t _ r =>
        have hnot := hnone c hc
        rw [consumes_iff.2 ⟨_, _, d, t, hw⟩] at hnot
        cases hnot
      | delete => cases hr'
      | collectCascade => cases hr'
  exact hall r (by rw [← System.db_eq_stateAt hC]; exact hr)

/-- What the transactions of a run are with respect to the mailboxes: they consume nothing, or are
the receipts of a receive that chose its message from a state of the history in which the receives
at earlier steps were recorded. -/
theorem receipts_of_run
    (h : Run (System.step server valid) (StartsInOrder executor ops) (System.init db₀ time) S)
    {w : String} (hkept : KeepsRecords S w) {c : Commit Db Key Row Stmt} (hc : c ∈ S.history) :
    (∀ x ∈ c.writes, x.stmt.consumesNothing = true ∧ (ops c.session).recvs = false) ∨
    ∃ w' topic n, (ops c.session).Receives w' topic n ∧
      Receipt (fun b ↦ System.Shows server db₀ S.history b ∧
        (w' = w → EarlierRecorded ops w topic n b.db)) w' topic n c.toEffect := by
  have hC : System.Consistent server db₀ S := System.consistent_of_run h
  obtain ⟨-, hS, -⟩ := System.sound_of_run_since
    (R := fun i m ↦ ∀ topic n, (ops i).Receives w topic n → EarlierRecorded ops w topic n m.db)
    (Γ := fun i ↦ deliverySpec valid (fun b ↦ System.Shows server db₀ S.history b ∧
      ∀ topic n, (ops i).Receives w topic n → EarlierRecorded ops w topic n b.db) (ops i))
    (Q := fun _ _ _ _ _ ↦ True) (fun _ _ _ hm ↦ hm) (fun _ ↦ rfl) (fun _ ↦ trivial)
    (fun S₁ i p hok ↦ ⟨fun topic n ↦ hok.2 i p rfl w topic n, fun m ↦ by
      rw [hok.1 i p rfl]
      exact wp_delivery_program _⟩) h
    (fun i m m' hm hm' hle hR topic n hi j k hj hk ↦ by
      obtain ⟨row, hrow⟩ := Option.isSome_iff_exists.1 (hR topic n hi j k hj hk)
      rw [hm.db] at hrow
      have hstays := (hkept.insertsOnly hC k).stays hC hle.2.1 hrow
      rw [hm'.db]
      exact Option.isSome_iff_exists.2 ⟨row, hstays⟩)
    fun i τ st m hm hR ↦ ⟨hm, hR⟩
  obtain ⟨τ, -, -, hguar⟩ := hS.guar c hc
  rcases hguar with hquiet | ⟨w', topic, n, hop, hreceipt⟩
  · exact Or.inl hquiet
  · refine Or.inr ⟨w', topic, n, hop, ?_⟩
    cases hreceipt with
    | quiet h => exact .quiet h
    | nothing row houtput hwrites => exact .nothing row houtput hwrites
    | message uuid r row v b hwrites hname houtput hser hshown hle hbase hchosen =>
      refine .message uuid r row v b hwrites hname houtput hser ⟨hshown.1, ?_⟩ hle hbase hchosen
      rintro rfl
      exact hshown.2 topic n hop

omit [SerdeJson] in
/-- The transaction that consumes a message is the receipt of it. -/
theorem Receipt.of_consumes {Shown : DbMoment → Prop} {w topic messageUuid : String} {n : ℕ}
    {c : Commit Db Key Row Stmt} (h : Receipt Shown w topic n c.toEffect)
    (hconsumes : consumes messageUuid c = true) :
    ∃ (r : NotificationRow) (row : OperationRow) (v : DbView Stmt) (b : DbMoment),
      c.writes = [⟨.notifications messageUuid, some r, some { r with consumed := true },
        .consumeOldestNotification w topic⟩, recordWrite w n row] ∧
      row.functionName = "DBOS.recv" ∧ row.output = some r.message ∧
      row.serialization = some (r.serialization.getD Format.portable.name) ∧
      Shown b ∧ b.xid ≤ c.moment.xid ∧ v.base = b.db ∧
      Stmt.oldestUnconsumed v w topic = some messageUuid := by
  obtain ⟨old, new, d, t, hw⟩ := consumes_iff.1 hconsumes
  cases h with
  | quiet h =>
    have hcall := h _ hw
    simp [Stmt.CallOf, Stmt.isCallOf] at hcall
  | nothing row _ hwrites =>
    have hwrites : c.writes = [recordWrite w n row] := hwrites
    rw [hwrites] at hw
    cases List.mem_singleton.1 hw
  | message uuid r row v b hwrites hname houtput hser hshown hle hbase hchosen =>
    have hwrites : c.writes = _ := hwrites
    have hw' := hw
    rw [hwrites] at hw'
    rcases List.mem_cons.1 hw' with heq | hw'
    · cases heq
      exact ⟨r, row, v, b, hwrites, hname, houtput, hser, hshown, hle, hbase, hchosen⟩
    · cases List.mem_singleton.1 hw'

omit [SerdeJson] in
/-- The message the consuming update chooses waits in the mailbox. -/
theorem Stmt.oldestUnconsumed_waits {v : DbView Stmt} {d t messageUuid : String}
    (h : oldestUnconsumed v d t = some messageUuid) :
    ∃ r, v.base.notification messageUuid = some r ∧ r.IsTo d t ∧ r.consumed = false := by
  rw [oldestUnconsumed] at h
  obtain ⟨e, he, rfl⟩ := Option.map_eq_some_iff.1 h
  have hmem := (List.mem_insertionSort _).1 (List.mem_of_mem_head? he)
  obtain ⟨hlook, hwhere⟩ := Table.mem_select_iff.1 hmem
  simp only [Bool.and_eq_true, decide_eq_true_eq, Bool.not_eq_true'] at hwhere
  exact ⟨e.2, hlook, hwhere.1, hwhere.2⟩

/-- Transaction `k` is a receive at step `n` that consumes the message: it chose it from the state
after `b` commits, in which it waited and the receives at earlier steps were recorded. -/
structure Delivery (ops : ℕ → Operation V) (db₀ : Db) (S : RuntimeSystem V) (x : SentMessage)
    (c : Commit Db Key Row Stmt) (k n b : ℕ) : Prop where
  receives : (ops c.session).Receives x.row.destinationUuid x.row.topic n
  recorded : ∃ row, recordWrite x.row.destinationUuid n row ∈ c.writes ∧
    row.functionName = "DBOS.recv" ∧ row.output = some x.row.message ∧
    row.serialization = some (x.row.serialization.getD Format.portable.name)
  before : b ≤ k
  sent : x.commit < b
  waits : Unconsumed (System.stateAt server db₀ S.history b) x.messageUuid
  earlier : EarlierRecorded ops x.row.destinationUuid x.row.topic n
    (System.stateAt server db₀ S.history b)
  gone : ¬Unconsumed (System.stateAt server db₀ S.history (k + 1)) x.messageUuid

theorem delivery_of_consumes
    (h : Run (System.step server valid) (StartsInOrder executor ops) (System.init db₀ time) S)
    (hfresh : FreshMessages db₀ S) {x : SentMessage} (hx : x.SentIn S)
    (hkept : KeepsRecords S x.row.destinationUuid) {k : ℕ} {c : Commit Db Key Row Stmt}
    (hc : S.history[k]? = some c) (hconsumes : consumes x.messageUuid c = true) :
    ∃ n b, Delivery ops db₀ S x c k n b := by
  have hC : System.Consistent server db₀ S := System.consistent_of_run h
  rcases receipts_of_run h hkept (List.mem_of_getElem? hc) with
    hquiet | ⟨w, topic, n, hop, hreceipt⟩
  · obtain ⟨old, new, d, t, hw⟩ := consumes_iff.1 hconsumes
    cases (hquiet _ hw).1
  obtain ⟨r, row, v, b, hwrites, hname, houtput, hser, ⟨hshown, hearlier⟩, hle, hbase, hchosen⟩ :=
    hreceipt.of_consumes hconsumes
  obtain ⟨hk, -, hmoment, hchain, -⟩ := hC.commit hc
  rw [hk] at hle
  -- the message as it was found, and as it was written
  obtain ⟨r₀, hr₀, hto, hwaits⟩ := Stmt.oldestUnconsumed_waits hchosen
  rw [hbase, hshown.db] at hr₀
  have hrow₀ := SentMessage.row_eq hC hfresh hx hr₀
  have hr : (System.stateAt server db₀ S.history k).notification x.messageUuid = some r := by
    rw [hwrites] at hchain
    rw [← hk, ← hmoment.db]
    exact hchain.1.symm
  have hrow := SentMessage.row_eq hC hfresh hx hr
  have hdest : x.row.destinationUuid = w ∧ x.row.topic = topic := by
    rw [hrow₀] at hto
    exact hto
  obtain ⟨rfl, rfl⟩ := hdest
  refine ⟨n, b.xid, ⟨hop, ⟨row, ?_, hname, ?_, ?_⟩, hle, ?_, ⟨r₀, hr₀, hwaits⟩, ?_, ?_⟩⟩
  · rw [hwrites]
    exact List.mem_cons_of_mem _ List.mem_cons_self
  · rw [houtput, hrow]
  · rw [hser, hrow]
  · by_contra hnot
    rw [SentMessage.absent hC hfresh hx (not_lt.1 hnot)] at hr₀
    cases hr₀
  · rw [← hshown.db]
    exact hearlier rfl
  · -- the transaction leaves it consumed
    have hafter : (System.stateAt server db₀ S.history (k + 1)).notification x.messageUuid =
        some { r with consumed := true } := by
      rw [System.stateAt_succ db₀ hc, hwrites]
      show store.look (store.put (store.put (System.stateAt server db₀ S.history k)
        (.notifications x.messageUuid) (some { r with consumed := true }))
        (.operationOutputs x.row.destinationUuid n) (some row)) (.notifications x.messageUuid) = _
      exact (store.look_put_of_ne _ _ _ _ (by simp)).trans (store.look_put_self _ _ _)
    rintro ⟨r', hr', hwaits'⟩
    rw [hafter] at hr'
    cases hr'
    cases hwaits'

omit [SerdeJson] in
/-- Two transactions do not consume the same message. -/
theorem Delivery.unique
    (hC : System.Consistent server db₀ S) (hfresh : FreshMessages db₀ S) {x : SentMessage}
    (hx : x.SentIn S) (hkept : KeepsRecords S x.row.destinationUuid) {k k' n n' b b' : ℕ}
    {c c' : Commit Db Key Row Stmt} (hc : S.history[k]? = some c) (hc' : S.history[k']? = some c')
    (hk : k < k') (h : Delivery ops db₀ S x c k n b) (h' : Delivery ops db₀ S x c' k' n' b') :
    False := by
  -- a step is recorded by the transaction of its receive, and not before it
  have records : ∀ {k n b c}, S.history[k]? = some c → Delivery ops db₀ S x c k n b →
      (System.stateAt server db₀ S.history k).operation x.row.destinationUuid n = none ∧
      ((System.stateAt server db₀ S.history (k + 1)).operation
        x.row.destinationUuid n).isSome = true := by
    intro k n b c hc h
    obtain ⟨row, hrow, -⟩ := h.recorded
    rw [System.stateAt_succ db₀ hc, System.stateAt_eq_of_commit hC hc]
    exact (hkept.insertsOnly hC n).of_commit hC hc hrow rfl
  have stays : ∀ {m i j : ℕ}, i ≤ j →
      ((System.stateAt server db₀ S.history i).operation x.row.destinationUuid m).isSome = true →
      (System.stateAt server db₀ S.history j).operation x.row.destinationUuid m ≠ none := by
    intro m i j hij hsome hnone
    obtain ⟨row, hrow⟩ := Option.isSome_iff_exists.1 hsome
    have hrow' := (hkept.insertsOnly hC m).stays hC hij hrow
    have hnone' : server.look (System.stateAt server db₀ S.history j)
      (.operationOutputs x.row.destinationUuid m) = none := hnone
    rw [hrow'] at hnone'
    cases hnone'
  rcases lt_trichotomy n n' with hlt | rfl | hgt
  · -- the later receive saw the record of the earlier one, and so the message gone
    have hseen := h'.earlier _ n h.receives hlt
    have hkb : k < b' := by
      by_contra hnot
      exact stays (not_lt.1 hnot) hseen (records hc h).1
    exact SentMessage.not_unconsumed hC hfresh hx (h.sent.trans_le (h.before.trans (Nat.le_succ k)))
      hkb h.gone h'.waits
  · exact stays hk (records hc h).2 (records hc' h').1
  · -- the first transaction is of a receive that was begun when the other one was recorded
    exact stays (h.before.trans hk.le) (h.earlier _ n' h'.receives hgt) (records hc' h').1

/-- **Messages are delivered once.** In every run, with attempts of a workflow on any executors, in
which a receive is begun after those of its mailbox at earlier steps were recorded, one transaction
at most consumes a message. As long as the message is there, it is marked as consumed if there was
one, and waits if there was none. The transaction that consumes it is one of a receive by the
workflow it was sent to, on its topic, and records its text as what the receive found; and no
receive records a text but that of a message it consumes. -/
theorem messages_delivered_once
    (h : Run (System.step server valid) (StartsInOrder executor ops) (System.init db₀ time) S)
    (hfresh : FreshMessages db₀ S) {x : SentMessage} (hx : x.SentIn S)
    (hkept : KeepsRecords S x.row.destinationUuid) :
    S.history.countP (consumes x.messageUuid) ≤ 1 ∧
    (∀ r, S.moment.db.notification x.messageUuid = some r →
      S.history.countP (consumes x.messageUuid) = if r.consumed then 1 else 0) ∧
    (∀ c ∈ S.history, consumes x.messageUuid c = true → ∃ n row,
      (ops c.session).Receives x.row.destinationUuid x.row.topic n ∧
      recordWrite x.row.destinationUuid n row ∈ c.writes ∧ row.functionName = "DBOS.recv" ∧
      row.output = some x.row.message ∧
      row.serialization = some (x.row.serialization.getD Format.portable.name)) ∧
    ∀ c ∈ S.history, ∀ w topic n row, (ops c.session).Receives w topic n →
      recordWrite w n row ∈ c.writes → row.output.isSome = true → ∃ messageUuid r,
        consumes messageUuid c = true ∧ c.moment.db.notification messageUuid = some r ∧
        row.output = some r.message := by
  have hC : System.Consistent server db₀ S := System.consistent_of_run h
  have hle : S.history.countP (consumes x.messageUuid) ≤ 1 := by
    refine countP_le_one_of_pairwise (List.pairwise_iff_getElem.2 fun i j hi hj hij hci ↦ ?_)
    by_contra hcj
    have hi' := List.getElem?_eq_getElem hi
    have hj' := List.getElem?_eq_getElem hj
    obtain ⟨n, b, hd⟩ := delivery_of_consumes h hfresh hx hkept hi' hci
    obtain ⟨n', b', hd'⟩ := delivery_of_consumes h hfresh hx hkept hj' (by simpa using hcj)
    exact hd.unique hC hfresh hx hkept hi' hj' hij hd'
  refine ⟨hle, fun r hr ↦ ?_, fun c hc hconsumes ↦ ?_, fun c hc w topic n row hop hrow hsome ↦ ?_⟩
  · have hdb := System.db_eq_stateAt hC
    split
    · -- a message that waits until the end was never consumed
      rename_i hconsumed
      refine le_antisymm hle (Nat.one_le_iff_ne_zero.2 fun hzero ↦ ?_)
      have hnone : ∀ c ∈ S.history, consumes x.messageUuid c = false := fun c hc ↦
        Bool.eq_false_iff.2 (List.countP_eq_zero.1 hzero c hc)
      have hnew : x.row.consumed = false := by
        obtain ⟨c, hc, hw⟩ := hx
        refine (System.all_of_run (P := fun _ ↦ Stmt.SendsUnconsumed) (A := fun _ _ ↦ True)
          (fun S₁ i p hok ↦ ?_) h).1 c (List.mem_of_getElem? hc) _ hw _ _ rfl
        rw [hok.1 i p rfl]
        exact Prog.All.bind (sendsUnconsumed_run _) fun _ ↦ trivial
      rw [SentMessage.consumed_eq_false hC hfresh hx hnew hnone hr] at hconsumed
      cases hconsumed
    · -- and one that was consumed does not wait again
      rename_i hwaits
      rw [List.countP_eq_zero]
      intro c hc hconsumes
      obtain ⟨k, hk⟩ := List.mem_iff_getElem?.1 hc
      obtain ⟨n, b, hd⟩ := delivery_of_consumes h hfresh hx hkept hk hconsumes
      have hlt : k < S.history.length := (List.getElem?_eq_some_iff.1 hk).1
      refine SentMessage.not_unconsumed hC hfresh hx
        (hd.sent.trans_le (hd.before.trans (Nat.le_succ k))) hlt hd.gone ⟨r, ?_, ?_⟩
      · rw [← hdb]
        exact hr
      · simpa using hwaits
  · obtain ⟨k, hk⟩ := List.mem_iff_getElem?.1 hc
    obtain ⟨n, b, hd⟩ := delivery_of_consumes h hfresh hx hkept hk hconsumes
    obtain ⟨row, hrow⟩ := hd.recorded
    exact ⟨n, row, hd.receives, hrow⟩
  · rcases receipts_of_run h hkept hc with hquiet | ⟨w', topic', n', hop', hreceipt⟩
    · have hnot := (hquiet _ hrow).2
      rw [hop.recvs] at hnot
      cases hnot
    obtain ⟨rfl, rfl, rfl⟩ := hop.unique hop'
    cases hreceipt with
    | quiet hsleep =>
      have hcall := hsleep _ hrow
      simp [recordWrite, Stmt.CallOf, Stmt.isCallOf, CallKind.sleeps] at hcall
    | nothing row' houtput hwrites =>
      have hwrites : c.writes = [recordWrite w n row'] := hwrites
      rw [hwrites] at hrow
      cases List.mem_singleton.1 hrow
      rw [houtput] at hsome
      cases hsome
    | message uuid r row' v b hwrites hname houtput hser hshown hle hbase hchosen =>
      obtain ⟨k, hk⟩ := List.mem_iff_getElem?.1 hc
      have hwrites : c.writes = _ := hwrites
      have hchain := (hC.commit hk).2.2.2.1
      rw [hwrites] at hrow hchain
      rcases List.mem_cons.1 hrow with heq | hrow
      · cases heq
      obtain rfl : row = row' := by
        cases List.mem_singleton.1 hrow
        rfl
      have hw : (⟨.notifications uuid, some r, some { r with consumed := true },
          .consumeOldestNotification w topic⟩ : DbWrite) ∈ c.writes := by
        rw [hwrites]
        exact List.mem_cons_self
      exact ⟨uuid, r, consumes_iff.2 ⟨_, _, _, _, hw⟩, hchain.1.symm, houtput⟩

end

/-! ### Two attempts at a receive -/

section

local instance deliveryJson : SerdeJson := JsonText.jsonText

/-- Sessions 0 and 1 send a message each, sessions 2 and 3 are attempts at the first receive, and
the others at the second one. -/
def deliveryOps : ℕ → Operation ℤ
  | 0 => mailboxOps 0
  | 1 => mailboxOps 1
  | 2 => mailboxOps 2
  | 3 => mailboxOps 2
  | _ => mailboxOps 3

/-- A session carries out its operation. -/
def deliverySession (i : ℕ) : List (RuntimeLabel ℤ) :=
  [.spawn i ((deliveryOps i).program (anyName "a"))]

/-- What is left of an attempt that has looked up its step and finds the deadline recorded: it
chooses a message, and fails to record it. -/
def losingAttempt (i : ℕ) : List (RuntimeLabel ℤ) :=
  [answerOne i 9, sendOne i, sendOne i, answerOne i 9, answerOne i 9, sendOne i, commandOne i,
    sendOne i, answerOne i 9, sendOne i, commandOne i].flatten

/-- The second attempt is begun before the first one, and goes on after it. -/
def attemptsAtReceive : List (RuntimeLabel ℤ) :=
  deliverySession 0 ++ sendSteps 0 "m" 5 ++ deliverySession 1 ++ sendSteps 1 "n" 6 ++
    deliverySession 3 ++ sendOne 3 ++ sendOne 3 ++ deliverySession 2 ++ recvSteps 2 ++
    losingAttempt 3 ++ deliverySession 4 ++ recvSteps 4

/-- Session 4 is only started once the first receive is recorded. -/
def startsInOrder (S : RuntimeSystem ℤ) : RuntimeLabel ℤ → Bool
  | .spawn i _ => i < 4 || (S.moment.db.operation "d" 0).isSome
  | _ => true

theorem startsInOrder_spec {S : RuntimeSystem ℤ} {l : RuntimeLabel ℤ} (hl : l ∈ attemptsAtReceive)
    (hcheck : startsInOrder S l = true) :
    StartsInOrder (fun _ ↦ anyName "a") deliveryOps S l := by
  have hspawns : attemptsAtReceive.filterMap spawnedOperation =
    [0, 1, 3, 2, 4].map fun i ↦ (i, (deliveryOps i).program (anyName "a")) := rfl
  have hstep : ∀ {j w topic k}, (deliveryOps j).Receives w topic k →
      w = "d" ∧ (j < 4 → k = 0) ∧ (k = 0 ∨ k = 2) := by
    rintro j w topic k ⟨state, codec, topic', timeout, hop, rfl, -⟩
    match j with
    | 0 | 1 => cases hop
    | 2 | 3 | n + 4 =>
      cases hop
      simp
  refine ⟨?_, ?_⟩
  · rintro i p rfl
    have hmem : (i, p) ∈ attemptsAtReceive.filterMap spawnedOperation :=
      List.mem_filterMap.2 ⟨_, hl, rfl⟩
    rw [hspawns] at hmem
    obtain ⟨i', -, heq⟩ := List.mem_map.1 hmem
    cases heq
    rfl
  · rintro i p rfl w topic n hi j k hj hk
    obtain ⟨rfl, hzero, hn⟩ := hstep hi
    obtain ⟨-, -, hk'⟩ := hstep hj
    -- only the receive at step 2 has an earlier one, at step 0
    obtain rfl : k = 0 := by omega
    simp only [startsInOrder, Bool.or_eq_true, decide_eq_true_eq] at hcheck
    exact hcheck.resolve_left fun hlt ↦ by
      have := hzero hlt
      omega

theorem attemptsAtReceive_run : (exec (fun S l ↦
    if startsInOrder S l then System.step server (fun _ _ _ ↦ true) S l else none)
    (System.init senderAndReceiver 0) attemptsAtReceive).any (fun S ↦
      sentMessages S = twoMessages 5 6 &&
        (S.history.all fun c ↦ c.writes.all fun x ↦ x.new.isSome) &&
      (S.moment.db.notification "n").any NotificationRow.consumed) = true := by
  decide +kernel

theorem messages_delivered_once_twoAttempts : ∃ S : RuntimeSystem ℤ,
    exec (System.step server fun _ _ _ ↦ true) (System.init senderAndReceiver 0)
      attemptsAtReceive = some S ∧ S.history.countP (consumes "n") = 1 := by
  obtain ⟨S, hS, hfacts⟩ := (Option.any_eq_true _ _).1 attemptsAtReceive_run
  simp only [Bool.and_eq_true, decide_eq_true_eq, List.all_eq_true] at hfacts
  obtain ⟨⟨hsent, hkept⟩, hconsumed⟩ := hfacts
  obtain ⟨r, hr, hconsumed⟩ := (Option.any_eq_true _ _).1 hconsumed
  have hall : ∀ x : SentMessage, x.SentIn S → x ∈ twoMessages 5 6 := fun x hx ↦ by
    rw [← hsent]
    exact mem_sentMessages.2 hx
  have hfresh : FreshMessages senderAndReceiver S := fun x hx ↦ ⟨rfl, fun y hy heq ↦ by
    refine List.inj_on_of_nodup_map ?_ (hall y hy) (hall x hx) heq
    decide⟩
  have hx : SentMessage.SentIn ((twoMessages 5 6)[1]) S := by
    refine mem_sentMessages.1 ?_
    rw [hsent]
    exact List.mem_cons_of_mem _ List.mem_cons_self
  have hrun : Run (System.step server fun _ _ _ ↦ true)
      (StartsInOrder (fun _ ↦ anyName "a") deliveryOps) (System.init senderAndReceiver 0) S :=
    Run.of_exec_checked hS fun S l hl hcheck ↦ startsInOrder_spec hl hcheck
  have hdelivered := (messages_delivered_once hrun hfresh hx fun k old s hw ↦ by
    obtain ⟨c, hc, hw⟩ := List.mem_flatMap.1 hw
    cases hkept c hc _ hw).2.1 r hr
  rw [if_pos hconsumed] at hdelivered
  exact ⟨S, exec_of_checked hS, hdelivered⟩

end

end Dbos

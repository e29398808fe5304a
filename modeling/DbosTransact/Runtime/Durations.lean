import DbosTransact.Foundation.Answers
import DbosTransact.JsonText
import DbosTransact.Queue.RateLimit
import DbosTransact.Runtime.Executors

/-!
# Durations on the millisecond clock

A `std::time::Duration` is narrowed to `i64` milliseconds before it is added to a clock reading or
subtracted from one: `Duration::as_millis` gives a `u128`, and `as i64` keeps its last 64 bits. The
sum is a deadline (the wake-up time that `record_sleep` stores, `delay_until_epoch_ms` of an
enqueue), the difference the start of the window of a rate limit.

`Deadlines now d v` says that every function that stores a deadline for the duration `d` stores `v`
when the first reading of its clock is `now`; the later readings are those of the record's own
timestamps. `WindowStarts now d v` says the same of the window. Both hold of one value only, which
is the wrapped sum or difference, and `durations_iff` compares this value with the saturated one.
-/

namespace Dbos

open Txn

/-! ### Milliseconds -/

/-- `std::time::Duration`: whole seconds, and the nanoseconds of the last one. -/
structure Duration where
  secs : ℕ
  nanos : ℕ
  secs_lt : secs < 2 ^ 64
  nanos_lt : nanos < 10 ^ 9

namespace Duration

/-- `Duration::as_millis`. -/
def asMillis (d : Duration) : ℕ := d.secs * 1000 + d.nanos / 10 ^ 6

/-- `Duration::MAX`. -/
def maximum : Duration := ⟨2 ^ 64 - 1, 10 ^ 9 - 1, by decide, by decide⟩

/-- The seconds are compared first. -/
instance : LE Duration where
  le d d' := d.secs < d'.secs ∨ d.secs = d'.secs ∧ d.nanos ≤ d'.nanos

theorem asMillis_mono {d d' : Duration} (h : d ≤ d') : d.asMillis ≤ d'.asMillis := by
  have hlt := d.nanos_lt
  rw [asMillis, asMillis]
  obtain hsecs | ⟨hsecs, hnanos⟩ := h
  · omega
  · have hdiv : d.nanos / 10 ^ 6 ≤ d'.nanos / 10 ^ 6 := Nat.div_le_div_right hnanos
    omega

end Duration

/-- The nearest value an `i64` has. -/
def clampI64 (n : ℤ) : ℤ := max i64Min (min n i64Max)

theorem clampI64_of_fits {n : ℤ} (h : i64Min ≤ n ∧ n ≤ i64Max) : clampI64 n = n := by
  rw [clampI64, min_eq_left h.2, max_eq_right h.1]

/-- A time some milliseconds later, as the code adds it up. -/
def addMillis (now : ℤ) (ms : ℕ) : ℤ := asI64 (now + asI64 ms)

/-- A time some milliseconds earlier, as the code subtracts it. -/
def subMillis (now : ℤ) (ms : ℕ) : ℤ := asI64 (now - asI64 ms)

/-- Neither the cast nor the addition wraps. -/
def AddExact (now : ℤ) (ms : ℕ) : Prop :=
  asI64 ms = ms ∧ asI64 (now + asI64 ms) = now + asI64 ms

/-- Neither the cast nor the subtraction wraps. -/
def SubExact (now : ℤ) (ms : ℕ) : Prop :=
  asI64 ms = ms ∧ asI64 (now - asI64 ms) = now - asI64 ms

section

variable {now : ℤ} {ms : ℕ}

theorem addExact_iff (h : 0 ≤ now) : AddExact now ms ↔ now + ms ≤ i64Max := by
  rw [AddExact, asI64_eq_self_iff, asI64_eq_self_iff]
  refine ⟨fun ⟨hcast, hadd⟩ ↦ ?_, fun hle ↦ ?_⟩
  · rw [asI64_eq_self_iff.2 hcast] at hadd
    exact hadd.2
  · have hcast : i64Min ≤ (ms : ℤ) ∧ (ms : ℤ) ≤ i64Max := by
      rw [i64Min]
      omega
    rw [asI64_eq_self_iff.2 hcast]
    rw [i64Min] at *
    omega

theorem subExact_iff (h : 0 ≤ now) (hmax : now ≤ i64Max) :
    SubExact now ms ↔ (ms : ℤ) ≤ i64Max := by
  rw [SubExact, asI64_eq_self_iff, asI64_eq_self_iff]
  refine ⟨fun ⟨hcast, _⟩ ↦ hcast.2, fun hle ↦ ?_⟩
  have hcast : i64Min ≤ (ms : ℤ) ∧ (ms : ℤ) ≤ i64Max := by
    rw [i64Min]
    omega
  rw [asI64_eq_self_iff.2 hcast]
  rw [i64Min, i64Max] at *
  omega

theorem AddExact.addMillis_eq (h : AddExact now ms) : addMillis now ms = now + ms := by
  rw [addMillis, h.2, h.1]

theorem SubExact.subMillis_eq (h : SubExact now ms) : subMillis now ms = now - ms := by
  rw [subMillis, h.2, h.1]

end

/-! ### What the functions store -/

/-- The first reading of the clock. -/
def firstReading (s : Option ℤ) : (q : Ask) → q.Ans → Option ℤ
  | .now, t => s.or (some t)
  | _, _ => s

theorem firstReading_some (t : ℤ) (q : Ask) (a : q.Ans) :
    firstReading (some t) q a = some t := by
  cases q <;> rfl

/-- The statement comes after a first reading of the clock, and if that reading is `now` then `v` is
what it carries. -/
def ReadAt (now : ℤ) (reading : Option ℤ) (carried : Prop) : Prop :=
  ∃ t, reading = some t ∧ (t = now → carried)

/-- Every statement the program sends satisfies `P` with the first reading before it, and a result
of the program satisfies `Q`. -/
def Heeds {α : Type} (P : Option ℤ → Stmt → Prop) (m : DbosM α) (Q : Option ℤ → α → Prop)
    (s : Option ℤ) : Prop :=
  m.run.heeds firstReading P (fun r s ↦ ∀ a, r = .ok a → Q s a) s

section

variable {α β : Type} {P : Option ℤ → Stmt → Prop} {s : Option ℤ}

theorem Heeds.mono {m : DbosM α} {Q Q' : Option ℤ → α → Prop} (h : Heeds P m Q s)
    (hQ : ∀ s a, Q s a → Q' s a) : Heeds P m Q' s :=
  Prog.heeds_mono h fun _ s h a hr ↦ hQ s a (h a hr)

theorem heeds_pure {Q : Option ℤ → α → Prop} {a : α} (h : Q s a) : Heeds P (pure a) Q s := by
  rintro _ ⟨⟩
  exact h

theorem heeds_throw {Q : Option ℤ → α → Prop} (e : DbosError) :
    Heeds P (throw e : DbosM α) Q s := by
  rintro _ ⟨⟩

theorem heeds_ofExcept {Q : Option ℤ → α → Prop} {r : Except DbosError α}
    (h : ∀ a, r = .ok a → Q s a) : Heeds P (ofExcept r) Q s :=
  h

theorem Heeds.bind {m : DbosM β} {f : β → DbosM α} {Q : Option ℤ → α → Prop}
    (h : Heeds P m (fun s b ↦ Heeds P (f b) Q s) s) : Heeds P (m >>= f) Q s := by
  refine Prog.heeds_bind (Prog.heeds_mono h fun r s hr ↦ ?_)
  cases r with
  | ok b => exact hr b rfl
  | error e => exact heeds_throw e

theorem heeds_ask {q : Ask} {Q : Option ℤ → q.Ans → Prop}
    (h : ∀ a, Q (firstReading s q a) a) : Heeds P (ask q) Q s := by
  rintro a _ ⟨⟩
  exact h a

theorem heeds_execute {st : Stmt} (h : P s st) : Heeds P (execute st) (fun s' _ ↦ s' = s) s := by
  refine ⟨h, ?_⟩
  rintro r _ ⟨⟩
  rfl

theorem heeds_query {st : Stmt} (h : P s st) : Heeds P (query st) (fun s' _ ↦ s' = s) s := by
  refine ((heeds_execute h).mono ?_).bind
  rintro _ (e | r) rfl
  · exact heeds_throw _
  · exact heeds_pure rfl

/-- Once the clock has been read, the reading stays the first one. -/
theorem heeds_of_sends {m : DbosM α} {t : ℤ} (h : Sends (P (some t)) m) :
    Heeds P m (fun s' _ ↦ s' = some t) (some t) := by
  refine Prog.heeds_mono (Prog.heeds_of_all ?_) fun _ _ h _ _ ↦ h
  exact Prog.All.mono h (fun _ ↦ id) fun q _ ↦ firstReading_some t q

theorem Heeds.transaction {m : DbosM α} {Q : Option ℤ → α → Prop} (h : Heeds P m Q s) :
    Heeds P (transaction m) Q s := by
  refine Heeds.bind ?_
  rintro r _ -
  refine Prog.heeds_bind (Prog.heeds_mono h fun r s hr ↦ ?_)
  exact fun _ ↦ hr

/-- The lookup of a step does not read the clock. -/
theorem heeds_checkOperationExecution {w name : String} {n : ℕ} (hstatus : P s (.getStatus w))
    (hselect : P s (.selectOperation w n)) :
    Heeds P (checkOperationExecution w n name) (fun s' _ ↦ s' = s) s := by
  rw [checkOperationExecution_eq]
  refine ((heeds_query hstatus).mono ?_).bind
  rintro _ status rfl
  refine (heeds_ofExcept fun _ _ ↦ ?_).bind
  refine ((heeds_query hselect).mono ?_).bind
  rintro _ row rfl
  exact heeds_ofExcept fun _ _ ↦ rfl

end

section

variable [SerdeJson]

/-- A statement that stores a deadline stores `v`. -/
def Stmt.Records (now v : ℤ) (reading : Option ℤ) : Stmt → Prop
  | .insertOperation _ _ row => row.functionName = "DBOS.sleep" →
      ReadAt now reading (row.output = (encodeValue v .portable).toOption)
  | .insertWorkflowStatus input => ReadAt now reading (input.delayUntilEpochMs = some v)
  | _ => True

omit [SerdeJson] in
/-- A statement that counts the recent starts counts them from `v` on. -/
def Stmt.CountsFrom (now v : ℤ) (reading : Option ℤ) : Stmt → Prop
  | .countRecent _ _ cutoff => ReadAt now reading (cutoff = v)
  | _ => True

/-- With every function that stores a deadline for this duration, the deadline is `v` when the first
reading of the clock is `now`. -/
structure Deadlines (now : ℤ) (d : Duration) (v : ℤ) : Prop where
  sleep : ∀ (ctx : WorkflowContext) stepId,
    Heeds (Stmt.Records now v) (ctx.sleep stepId d.asMillis) (fun _ _ ↦ True) none
  recv : ∀ (ctx : WorkflowContext) stepId (M : Type) [Serde M] topic,
    Heeds (Stmt.Records now v) (ctx.recv stepId M topic d.asMillis) (fun _ _ ↦ True) none
  getEvent : ∀ (ctx : WorkflowContext) stepId (V : Type) [Serde V] target key,
    Heeds (Stmt.Records now v) (ctx.getEvent stepId V target key d.asMillis) (fun _ _ ↦ True) none
  enqueue : ∀ inner queueName name input (opts : EnqueueOptions), opts.delay = some d.asMillis →
    Heeds (Stmt.Records now v) (enqueueWorkflow inner queueName name input opts)
      (fun _ _ ↦ True) none
  clientEnqueue : ∀ queueName name encoded (opts : EnqueueOptions),
    opts.delay = some d.asMillis →
    Heeds (Stmt.Records now v) (clientEnqueue queueName name encoded opts) (fun _ _ ↦ True) none

omit [SerdeJson] in
/-- With every dequeue under a limit of this period, the window starts at `v` when the first reading
of the clock is `now`. -/
def WindowStarts (now : ℤ) (period : Duration) (v : ℤ) : Prop :=
  ∀ (input : DequeueInput) limit, input.rateLimit = some (limit, period.asMillis) →
    Heeds (Stmt.CountsFrom now v) (dequeueWorkflows input) (fun _ _ ↦ True) none

variable {now v : ℤ} {d : Duration}

/-! ### The sleep that the waiting calls record -/

/-- A row under another name than `DBOS.sleep` stores no deadline. -/
theorem records_of_ne {reading : Option ℤ} {w : String} {n : ℕ} {row : OperationRow}
    (h : row.functionName ≠ "DBOS.sleep") :
    Stmt.Records now v reading (.insertOperation w n row) :=
  fun hname ↦ absurd hname h

/-- The row that is inserted for the deadline computed at `t`. -/
theorem records_deadline {w : String} {n : ℕ} {t : ℤ} {output : String}
    (h : encodeValue (addMillis t d.asMillis) .portable = .ok output) (ser : Option String) :
    Sends (Stmt.Records now (addMillis now d.asMillis) (some t))
      (recordOperationResult w n "DBOS.sleep" (some output) none none ser) := by
  refine (sends_ask _).bind fun t' ↦ Sends.bind (sends_execute fun _ ↦ ⟨t, rfl, ?_⟩) ?_
  · rintro rfl
    rw [h]
    rfl
  · rintro (e | _)
    · dsimp only
      split <;> exact sends_throw _
    · exact sends_pure _

/-- `record_sleep` stores the wrapped sum, and reads the clock in any case. -/
theorem heeds_recordSleep (w : String) (stepId : ℕ) :
    Heeds (Stmt.Records now (addMillis now d.asMillis)) (recordSleep w stepId d.asMillis)
      (fun s _ ↦ ∃ t, s = some t) none := by
  have hdeadline : Heeds (Stmt.Records now (addMillis now d.asMillis))
      (sleepDeadline w stepId d.asMillis) (fun s _ ↦ s = none ∨ ∃ t, s = some t) none := by
    refine ((heeds_checkOperationExecution trivial trivial).mono ?_).bind
    rintro _ (- | recorded) rfl
    · refine (heeds_ask fun t ↦ ?_).bind
      show Heeds _ _ _ (some t)
      refine (heeds_ofExcept fun output hout ↦ ?_).bind
      refine (heeds_of_sends ?_).mono fun _ _ h ↦ Or.inr ⟨t, h⟩
      refine (records_deadline hout _).attempt.bind ?_
      rintro (e | _)
      · -- another process was first, and its deadline is read back
        dsimp only
        split
        · rw [checkOperationExecution_eq]
          refine Sends.bind ?_ fun recorded ↦ ?_
          · exact (sends_query trivial).bind fun _ ↦ (sends_ofExcept _).bind fun _ ↦
              (sends_query trivial).bind fun _ ↦ sends_ofExcept _
          · cases recorded with
            | none => exact sends_throw _
            | some recorded => exact sends_ofExcept _
        · exact sends_throw _
      · exact sends_pure _
    · exact heeds_ofExcept fun _ _ ↦ Or.inl rfl
  refine (hdeadline.mono ?_).bind
  intro s deadline hs
  refine (heeds_ask fun t ↦ ?_).bind
  refine heeds_pure ?_
  obtain rfl | ⟨t', rfl⟩ := hs
  · exact ⟨t, rfl⟩
  · exact ⟨t', rfl⟩

theorem heeds_sleep (ctx : WorkflowContext) (stepId : ℕ) :
    Heeds (Stmt.Records now (addMillis now d.asMillis)) (ctx.sleep stepId d.asMillis)
      (fun _ _ ↦ True) none := by
  rw [WorkflowContext.sleep]
  split
  · exact heeds_throw _
  · exact (heeds_recordSleep _ _).mono fun _ _ _ ↦ trivial

theorem heeds_recv (ctx : WorkflowContext) (stepId : ℕ) (M : Type) [Serde M]
    (topic : Option String) :
    Heeds (Stmt.Records now (addMillis now d.asMillis)) (ctx.recv stepId M topic d.asMillis)
      (fun _ _ ↦ True) none := by
  rw [WorkflowContext.recv]
  split
  · exact heeds_throw _
  refine ((heeds_checkOperationExecution trivial trivial).mono ?_).bind
  rintro _ (- | recorded) rfl
  · refine (heeds_ask fun vacant ↦ ?_).bind
    show Heeds _ _ _ none
    cases vacant with
    | false => exact heeds_throw _
    | true =>
      refine ((heeds_recordSleep _ _).mono ?_).bind
      rintro _ _ ⟨t, rfl⟩
      refine (heeds_of_sends ?_).mono fun _ _ _ ↦ trivial
      refine (sends_ask _).bind fun polls ↦ Sends.bind ?_ fun _ ↦ Sends.bind ?_ fun consumed ↦
        sends_ofExcept _
      · induction polls with
        | zero => exact (sends_query trivial).bind fun _ ↦ sends_pure _
        | succ n ih =>
          refine (sends_query trivial).bind fun found ↦ ?_
          cases found with
          | true => exact sends_pure _
          | false => exact ih
      · exact Sends.transaction ((sends_query trivial).bind fun consumed ↦
          (sends_recordOperationResult (fun row hrow ↦ records_of_ne (by rw [hrow]; decide))
            _ _ _ _ trivial).bind fun _ ↦ sends_commitTx.bind fun _ ↦ sends_pure _)
  · exact heeds_ofExcept fun _ _ ↦ trivial

theorem heeds_getEvent (ctx : WorkflowContext) (stepId : ℕ) (V : Type) [Serde V]
    (target key : String) :
    Heeds (Stmt.Records now (addMillis now d.asMillis))
      (ctx.getEvent stepId V target key d.asMillis) (fun _ _ ↦ True) none := by
  rw [WorkflowContext.getEvent]
  split
  · exact heeds_throw _
  refine ((heeds_checkOperationExecution trivial trivial).mono ?_).bind
  rintro _ (- | recorded) rfl
  · refine ((heeds_recordSleep _ _).mono ?_).bind
    rintro _ _ ⟨t, rfl⟩
    refine (heeds_of_sends ?_).mono fun _ _ _ ↦ trivial
    refine (sends_ask _).bind fun polls ↦ Sends.bind ?_ fun found ↦
      (sends_recordOperationResult (fun row hrow ↦ records_of_ne (by rw [hrow]; decide))
        _ _ _ _ trivial).bind fun _ ↦ sends_ofExcept _
    induction polls with
    | zero => exact (sends_query trivial).bind fun _ ↦ sends_pure _
    | succ n ih =>
      refine Sends.bind ((sends_query trivial).bind fun _ ↦ sends_pure _) fun found ↦ ?_
      cases found with
      | some found => exact sends_pure _
      | none => exact ih
  · exact heeds_ofExcept fun _ _ ↦ trivial

/-! ### The delay of an enqueue -/

theorem records_enqueueInsert {t : ℤ} {input : InsertWorkflowInput}
    (h : input.delayUntilEpochMs = some (addMillis t d.asMillis)) (maxRetries : ℤ)
    (queueName : String) (deduplicationId : Option String) :
    Heeds (Stmt.Records now (addMillis now d.asMillis))
      (enqueueInsert input maxRetries queueName deduplicationId) (fun _ _ ↦ True) (some t) := by
  refine (heeds_of_sends (sends_enqueueInsert ⟨t, rfl, ?_⟩ trivial _ _ _)).mono fun _ _ _ ↦ trivial
  rintro rfl
  exact h

omit [SerdeJson] in
/-- An enqueue reads the clock before it makes up its owner id. -/
theorem heeds_stamped {α : Type} {P : Option ℤ → Stmt → Prop} {f : ℤ → String → DbosM α}
    {Q : Option ℤ → α → Prop} (h : ∀ t xid, Heeds P (f t xid) Q (some t)) :
    Heeds P (do f (← ask .now) (← ask .newUuid)) Q none :=
  (heeds_ask fun t ↦ (heeds_ask fun xid ↦ h t xid).bind).bind

theorem heeds_enqueueWorkflow (inner : DbosInner) (queueName name : String)
    (input : Option String) {opts : EnqueueOptions} (h : opts.delay = some d.asMillis) :
    Heeds (Stmt.Records now (addMillis now d.asMillis))
      (enqueueWorkflow inner queueName name input opts) (fun _ _ ↦ True) none := by
  rw [enqueueWorkflow]
  split
  · exact heeds_throw _
  dsimp only
  split
  · exact (heeds_pure (heeds_stamped fun t xid ↦
      records_enqueueInsert (by rw [h]; rfl) _ _ _)).bind
  · exact (heeds_ask fun id ↦ heeds_stamped fun t xid ↦
      records_enqueueInsert (by rw [h]; rfl) _ _ _).bind

theorem heeds_clientEnqueue (queueName name encoded : String) {opts : EnqueueOptions}
    (h : opts.delay = some d.asMillis) :
    Heeds (Stmt.Records now (addMillis now d.asMillis))
      (clientEnqueue queueName name encoded opts) (fun _ _ ↦ True) none := by
  rw [clientEnqueue]
  dsimp only
  split
  · exact (heeds_pure (heeds_stamped fun t xid ↦
      records_enqueueInsert (by rw [h]; rfl) _ _ _)).bind
  · exact (heeds_ask fun id ↦ heeds_stamped fun t xid ↦
      records_enqueueInsert (by rw [h]; rfl) _ _ _).bind

/-- The deadline stored is the wrapped sum, by all functions and by none another one. -/
theorem deadlines_iff : Deadlines now d v ↔ v = addMillis now d.asMillis := by
  constructor
  · intro h
    obtain ⟨t, ht, hv⟩ :=
      (h.clientEnqueue "" "" "" { workflowId := some "", delay := some d.asMillis } rfl now ""
        (.ok ())).1
    cases ht
    exact (Option.some.inj (hv rfl)).symm
  · rintro rfl
    exact ⟨heeds_sleep, heeds_recv, heeds_getEvent,
      fun inner queueName name input _ ↦ heeds_enqueueWorkflow inner queueName name input,
      fun queueName name encoded _ ↦ heeds_clientEnqueue queueName name encoded⟩

/-! ### The window of a rate limit -/

omit [SerdeJson] in
/-- The window starts at the wrapped difference, and nowhere else. -/
theorem windowStarts_iff : WindowStarts now d v ↔ v = subMillis now d.asMillis := by
  constructor
  · intro h
    have hrun := h ⟨"", "", "", none, 0, none, none, 100, some (0, d.asMillis)⟩ 0 rfl
    obtain ⟨t, ht, hv⟩ := (hrun (.ok ()) (.ok ()) now).1
    cases ht
    exact (hv rfl).symm
  · rintro rfl input limit hlimit
    have hbody : ∀ f : Option ℕ → DbosM (List DequeuedWorkflow), f none = pure [] →
        (∀ t numRecent, Sends (Stmt.CountsFrom now (subMillis now d.asMillis) (some t))
          (f (some numRecent))) →
        Heeds (Stmt.CountsFrom now (subMillis now d.asMillis)) (rateLimitGate input >>= f)
          (fun _ _ ↦ True) none := by
      intro f hnone hsome
      rw [rateLimitGate, hlimit]
      refine Heeds.bind ?_
      refine (heeds_ask fun t ↦ ?_).bind
      show Heeds _ _ _ (some t)
      have hcount : Stmt.CountsFrom now (subMillis now d.asMillis) (some t) (.countRecent
          input.queueName input.partitionKey (asI64 (t - asI64 d.asMillis))) := by
        refine ⟨t, rfl, ?_⟩
        rintro rfl
        rfl
      refine ((heeds_query hcount).mono ?_).bind
      rintro _ numRecent rfl
      refine heeds_pure ?_
      split
      · rw [hnone]
        exact heeds_pure trivial
      · exact (heeds_of_sends (hsome _ _)).mono fun _ _ _ ↦ trivial
    have hafter := fun t : ℤ ↦ sends_afterGate
      (P := Stmt.CountsFrom now (subMillis now d.asMillis) (some t)) (A := fun _ ↦ True)
      (fun _ _ _ _ _ ↦ trivial) (fun _ _ ↦ trivial) (fun _ _ _ _ _ ↦ trivial) input
    rw [dequeueWorkflows]
    refine Heeds.transaction ?_
    split
    · exact Heeds.bind fun _ _ _ ↦ hbody _ rfl hafter
    · exact hbody _ rfl hafter

/-- For a duration up to which the milliseconds from now on fit, every function stores the deadline
it should, without wrapping and not before that of a shorter duration; and for no other duration.
The window of a rate limit starts where it should exactly when the milliseconds of its period
fit. -/
theorem durations_iff (hnow : 0 ≤ now ∧ now ≤ i64Max) (d : Duration) :
    ((Deadlines now d (clampI64 (now + d.asMillis)) ∧ AddExact now d.asMillis ∧
        ∀ d' ≤ d, ∀ v, Deadlines now d' v → v ≤ clampI64 (now + d.asMillis)) ↔
      now + d.asMillis ≤ i64Max) ∧
    ((WindowStarts now d (clampI64 (now - d.asMillis)) ∧ SubExact now d.asMillis) ↔
      (d.asMillis : ℤ) ≤ i64Max) := by
  obtain ⟨hpos, hmax⟩ := hnow
  have hmin : i64Min ≤ now := by
    rw [i64Min]
    omega
  refine ⟨⟨fun h ↦ (addExact_iff hpos).1 h.2.1, fun hle ↦ ?_⟩,
    ⟨fun h ↦ (subExact_iff hpos hmax).1 h.2, fun hle ↦ ?_⟩⟩
  · have hexact := (addExact_iff hpos).2 hle
    rw [clampI64_of_fits (n := now + d.asMillis) ⟨by omega, hle⟩]
    refine ⟨deadlines_iff.2 hexact.addMillis_eq.symm, hexact, fun d' hd v hv ↦ ?_⟩
    have hms : (d'.asMillis : ℤ) ≤ d.asMillis := Int.ofNat_le.2 (Duration.asMillis_mono hd)
    rw [deadlines_iff.1 hv, ((addExact_iff hpos).2 (by omega)).addMillis_eq]
    omega
  · have hexact := (subExact_iff hpos hmax).2 hle
    have hfits : i64Min ≤ now - d.asMillis ∧ now - d.asMillis ≤ i64Max := by
      rw [i64Min]
      rw [i64Max] at *
      omega
    rw [clampI64_of_fits hfits]
    exact ⟨windowStarts_iff.2 hexact.subMillis_eq.symm, hexact⟩

end

section

local instance durationsJson : SerdeJson := JsonText.jsonText

def fiveSeconds : Duration := ⟨5, 0, by decide, by decide⟩

theorem durations_iff_fiveSeconds :
    Deadlines 1000 fiveSeconds 6000 ∧ WindowStarts 1000 fiveSeconds (-4000) := by
  obtain ⟨hdeadline, hwindow⟩ :=
    durations_iff (show (0 : ℤ) ≤ 1000 ∧ 1000 ≤ i64Max by decide) fiveSeconds
  have hlater : clampI64 (1000 + fiveSeconds.asMillis) = 6000 := by decide
  have hearlier : clampI64 (1000 - fiveSeconds.asMillis) = -4000 := by decide
  rw [hlater] at hdeadline
  rw [hearlier] at hwindow
  exact ⟨(hdeadline.2 (by decide)).1, (hwindow.2 (by decide)).1⟩

/-- The longest duration is `-1` as 64 bits: its deadline is over before it is stored, and earlier
than that of five seconds. -/
theorem deadlines_maximum :
    Deadlines 1000 Duration.maximum 999 ∧
      ¬ Deadlines 1000 Duration.maximum (clampI64 (1000 + Duration.maximum.asMillis)) ∧
      fiveSeconds ≤ Duration.maximum ∧ Deadlines 1000 fiveSeconds 6000 := by
  have hwraps : addMillis 1000 Duration.maximum.asMillis = 999 := by decide
  refine ⟨deadlines_iff.2 hwraps.symm, fun h ↦ ?_, Or.inl (by decide),
    deadlines_iff.2 (by decide)⟩
  have hclamp : clampI64 (1000 + Duration.maximum.asMillis) = i64Max := by decide
  rw [deadlines_iff, hclamp, hwraps] at h
  exact absurd h (by decide)

end

end Dbos

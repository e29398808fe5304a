import DbosTransact.Runtime.Cancel
import DbosTransact.Runtime.Streams

/-!
# Readers of a stream

A reader goes through the stream in rounds: it reads the entries from where it left off, and when it
sees no sentinel it asks for the status of the producer, which it takes for inactive when it is
neither `PENDING` nor `ENQUEUED`. What it has read is at every time an initial part of the stream
(`Caught`), so a reader that sees the sentinel has everything.

Between the two statements of the last round the producer may write and record its outcome; and a
producer with the status `DELAYED` has not even started. `readStream_complete` says that these are
the only ways to lose entries: a reader is complete when, whenever it finds the producer inactive,
the producer is at its end and everything visible was there in its last read. There are two other
exceptions: what is appended behind the sentinel is seen by readers that start there
(`streamLog_of_run`), and a reader that goes on behind the last offset of an `i32` begins again.
-/

namespace Dbos

open Txn

section

variable [SerdeJson] {V : Type} {w key : String} {start : ℤ}

/-- The operation reads the stream from `start` on, to its end. -/
inductive Operation.Reads (w key : String) (codec : Serde V) : ℤ → Operation V → Prop
  | readStream (start : ℤ) (rounds : ℕ) :
      Reads w key codec start (.readStream w key codec start false rounds)
  | readStreamAsync (rounds : ℕ) : Reads w key codec 0 (.readStreamAsync w key codec rounds)

/-- The values a reader has delivered when it says that the stream is at its end. -/
def OperationValue.delivered : OperationValue V → Option (List V)
  | read (some (values, true)) => some values
  | received (some (values, none)) => some values
  | _ => none

/-- The values are exactly those visible from `start` on. -/
def Delivered (codec : Serde V) (w key : String) (start : ℤ) (values : List V) (db : Db) : Prop :=
  decodeEntries V (visibleFrom db w key start) = .ok values

/-- The values are those of an initial part of the stream, which closes nowhere; what a stream that
has grown holds besides it starts at `current`. -/
def Caught (codec : Serde V) (w key : String) (start current : ℤ) (values : List V) (db : Db) :
    Prop :=
  ∃ pre, decodeEntries V pre = .ok values ∧ (∀ e ∈ pre, e.value ≠ streamClosedSentinel) ∧
    ∀ db', Grows w key db db' →
      Stmt.streamEntries db' w key start = pre ++ Stmt.streamEntries db' w key current

/-- The values are all entries there are, and the stream is not closed. -/
def ReadAll (codec : Serde V) (w key : String) (start : ℤ) (values : List V) (db : Db) : Prop :=
  decodeEntries V (Stmt.streamEntries db w key start) = .ok values ∧
    ∀ e ∈ Stmt.streamEntries db w key start, e.value ≠ streamClosedSentinel

/-- A reader that finds the producer inactive at `m` finds it at its end, and everything visible was
there when it read the stream last. -/
def TailRead (w key : String) (start : ℤ) (τ : DbTrace) (m : DbMoment) : Prop :=
  ∀ status ∈ m.db.statusOf w, status ≠ .pending → status ≠ .enqueued →
    status ≠ .delayed ∧ ∀ e ∈ τ.effects.getLast?, ∀ b ∈ e.snapshot,
      ∀ x ∈ visibleFrom m.db w key start, x ∈ Stmt.streamEntries b.db w key start

/-- A reader that finds the producer active at `m`, and goes on, has not read the last offset. -/
def CursorFits (w key : String) (start : ℤ) (τ : DbTrace) (m : DbMoment) : Prop :=
  ∀ status ∈ m.db.statusOf w, status = .pending ∨ status = .enqueued →
    ∀ e ∈ τ.effects.getLast?, ∀ b ∈ e.snapshot,
      ∀ x ∈ Stmt.streamEntries b.db w key start, (x.offset : ℤ) < i32Max

/-! ### One round -/

variable {codec : Serde V} {current : ℤ} {values vs : List V} {db db' : Db} {n : ℕ}

theorem caught_init (codec : Serde V) (db : Db) : Caught codec w key start start [] db :=
  ⟨[], rfl, by simp, fun _ _ ↦ rfl⟩

theorem Caught.mono (h : Caught codec w key start current values db) (hgrows : Grows w key db db') :
    Caught codec w key start current values db' := by
  obtain ⟨pre, hdecode, hopen, hpre⟩ := h
  exact ⟨pre, hdecode, hopen, fun db'' h'' ↦ hpre db'' (hgrows.trans h'')⟩

/-- A reader that sees the sentinel has everything that is ever visible. -/
theorem Caught.closed (h : Caught codec w key start current values db) (hdense : Dense w key n db)
    (hclosed : (beforeSentinel (Stmt.streamEntries db w key current)).2 = true)
    (hvs : decodeEntries V (beforeSentinel (Stmt.streamEntries db w key current)).1 = .ok vs)
    (hgrows : Grows w key db db') (hlog : 0 < start → ∃ n, Contiguous w key n db') :
    Delivered codec w key start (values ++ vs) db' := by
  obtain ⟨pre, hdecode, hopen, hpre⟩ := h
  rw [Delivered, visibleFrom_eq hlog, hpre db' hgrows, streamEntries_append hdense hgrows current,
    beforeSentinel_append hopen, beforeSentinel_append_of_closed hclosed]
  exact decodeEntries_append hdecode hvs

/-- A reader that sees no sentinel has all entries there are, and goes on after the last one. -/
theorem Caught.next (h : Caught codec w key start current values db) (hdense : Dense w key n db)
    (hopen : (beforeSentinel (Stmt.streamEntries db w key current)).2 = false)
    (hvs : decodeEntries V (beforeSentinel (Stmt.streamEntries db w key current)).1 = .ok vs) :
    ReadAll codec w key start (values ++ vs) db ∧
      Caught codec w key start
        (nextStart current (beforeSentinel (Stmt.streamEntries db w key current)).1)
        (values ++ vs) db := by
  obtain ⟨pre, hdecode, hpreOpen, hpre⟩ := h
  obtain ⟨hall, hnew⟩ := beforeSentinel_of_open hopen
  rw [hall] at hvs ⊢
  have hboth : ∀ e ∈ pre ++ Stmt.streamEntries db w key current,
      e.value ≠ streamClosedSentinel := List.forall_mem_append.2 ⟨hpreOpen, hnew⟩
  refine ⟨?_, pre ++ Stmt.streamEntries db w key current, decodeEntries_append hdecode hvs, hboth,
    fun db' hgrows ↦ ?_⟩
  · rw [ReadAll, hpre db (.refl w key db)]
    exact ⟨decodeEntries_append hdecode hvs, hboth⟩
  · rw [hpre db' hgrows, streamEntries_append hdense hgrows current, List.append_assoc]

theorem Caught.subset (h : Caught codec w key start current values db) :
    Stmt.streamEntries db w key current ⊆ Stmt.streamEntries db w key start := by
  obtain ⟨pre, -, -, hpre⟩ := h
  rw [hpre db (.refl w key db)]
  exact List.subset_append_right _ _

/-- A reader that has read everything that is visible has delivered it. -/
theorem ReadAll.delivered (h : ReadAll codec w key start values db) (hdense : Dense w key n db)
    (hgrows : Grows w key db db') (hlog : 0 < start → ∃ n, Contiguous w key n db')
    (htail : ∀ x ∈ visibleFrom db' w key start, x ∈ Stmt.streamEntries db w key start) :
    Delivered codec w key start values db' := by
  rw [visibleFrom_eq hlog] at htail
  rw [Delivered, visibleFrom_eq hlog]
  have hsorted := pairwise_streamEntries db' w key start
  rw [streamEntries_append hdense hgrows start] at hsorted htail ⊢
  rw [beforeSentinel_eq_of_subset hsorted h.2 htail]
  exact h.1

/-! ### One reader -/

variable {valid : DbMoment → (q : Ask) → q.Ans → Bool} {calls : ℕ → Invocation V}

/-- What may be assumed of the statements of a reader. -/
def ReaderSent (w key : String) (start : ℤ) (τ : DbTrace) (s : Stmt) (m : DbMoment) : Prop :=
  s = .getStatus w → TailRead w key start τ m ∧ CursorFits w key start τ m

/-- A reader and the sessions next to it. -/
abbrev readerSpec (valid : DbMoment → (q : Ask) → q.Ans → Bool) (w key : String) (start : ℤ)
    (calls : ℕ → Invocation V) : DbSpec :=
  streamSpec valid (0 < start) (ReaderSent w key start) w key calls

/-- What a reader that is done has delivered: what is visible in every later state, or what was
visible when it found the producer at its end. -/
def Finished (Γ : DbSpec) (codec : Serde V) (w key : String) (start : ℤ) (values : List V)
    (m : DbMoment) (τ : DbTrace) : Prop :=
  (∀ m', Γ.rely m m' → Delivered codec w key start values m'.db) ∨
    ∃ e ∈ τ.effects, ∃ b ∈ e.snapshot, (∃ status ∈ b.db.statusOf w, status.isTerminal = true) ∧
      Delivered codec w key start values b.db

theorem StreamKept.contiguous {disc : Prop} (h : StreamKept disc w key calls db) (hd : disc) :
    ∃ n, Contiguous w key n db := by
  obtain ⟨n, -, hn⟩ := h.dense
  exact ⟨n, hn hd⟩

variable {m₀ : DbMoment} {τ : DbTrace}

/-- The first statement of a round. -/
theorem wpM_readStreamEntries :
    wpM (readerSpec valid w key start calls) (readStreamEntries w key current)
      (fun r c m τ' ↦ c = .idle ∧ ∃ b, (readerSpec valid w key start calls).rely m₀ b ∧
        (readerSpec valid w key start calls).rely b m ∧
        r = beforeSentinel (Stmt.streamEntries b.db w key current) ∧
        ∃ e, τ'.effects.getLast? = some e ∧ e.snapshot = some b)
      (fun _ _ _ _ ↦ True) .idle m₀ τ := by
  refine wpM_bind (wpM_mono (wpM_read_sent ignoresReads_streamSpec
    (g := fun db ↦ Stmt.streamEntries db w key current) fun _ ↦ rfl) ?_ fun _ _ _ _ _ ↦ trivial)
  rintro entries c m τ' ⟨rfl, b, m₁, hb, -, hm₁, hm, rfl, rfl⟩
  refine wpM_pure fun m₂ hm₂ ↦ ⟨rfl, b, hb, ?_, rfl, ⟨m₁, some b, []⟩, by simp, rfl⟩
  exact (readerSpec valid w key start calls).rely_trans hm₁
    ((readerSpec valid w key start calls).rely_trans hm hm₂)

/-- A reader that finds the producer inactive has delivered what was visible then. -/
theorem finished_of_inactive {b b' m m' : DbMoment}
    (hkept : StreamKept (0 < start) w key calls b.db)
    (hb : (readerSpec valid w key start calls).rely b b')
    (hread : ReadAll codec w key start values b.db) {e : DbEffect}
    (he : τ.effects.getLast? = some e) (hsnap : e.snapshot = some b)
    (htail : TailRead w key start τ b') {status : WorkflowStatusType}
    (hstatus : b'.db.statusOf w = some status) (hpending : status ≠ .pending)
    (henqueued : status ≠ .enqueued) :
    Finished (readerSpec valid w key start calls) codec w key start values m'
      (τ.commit m (some (some b', []))) := by
  obtain ⟨hdelayed, htail⟩ := htail status hstatus hpending henqueued
  obtain ⟨n, hdense, -⟩ := hkept.dense
  refine Or.inr ⟨⟨m, some b', []⟩, by simp, b', rfl, ⟨status, hstatus, ?_⟩,
    hread.delivered hdense hb.2.1 (hb.2.2 hkept).contiguous (htail e he b hsnap)⟩
  cases status <;> first | rfl | contradiction

omit [SerdeJson] in
theorem active_of {status : WorkflowStatusType}
    (h : ¬(status ≠ .pending && status ≠ .enqueued) = true) :
    status = .pending ∨ status = .enqueued := by
  cases status <;> first | exact Or.inl rfl | exact Or.inr rfl | exact absurd rfl h

/-- The cursor of a reader that goes on. -/
theorem nextStart_of_active {b b' : DbMoment}
    (hcaught : Caught codec w key start current values b.db)
    {e : DbEffect} (he : τ.effects.getLast? = some e) (hsnap : e.snapshot = some b)
    (hfits : CursorFits w key start τ b') {status : WorkflowStatusType}
    (hstatus : b'.db.statusOf w = some status) (hactive : status = .pending ∨ status = .enqueued) :
    ((beforeSentinel (Stmt.streamEntries b.db w key current)).1.getLast?.elim current
        fun e ↦ asI32 ((e.offset : ℤ) + 1)) =
      nextStart current (beforeSentinel (Stmt.streamEntries b.db w key current)).1 :=
  nextStart_eq fun x hx ↦ hfits status hstatus hactive e he b hsnap x
    (hcaught.subset ((beforeSentinel_spec _).1.subset hx))

/-- A blocking reader: the induction is on the rounds it stays for, and carries what it has
caught. -/
theorem wpM_readStreamBlocking (rounds : ℕ) (hkept : StreamKept (0 < start) w key calls m₀.db)
    (hcaught : Caught codec w key start current values m₀.db) :
    wpM (readerSpec valid w key start calls)
    (readStreamBlocking V w key false rounds current values)
      (fun r _ m τ ↦ ∀ all, r = some (all, true) →
        Finished (readerSpec valid w key start calls) codec w key start all m τ)
      (fun _ _ _ _ ↦ True) .idle m₀ τ := by
  induction rounds generalizing current values m₀ τ with
  | zero => exact wpM_pure fun m _ all h ↦ by cases h
  | succ n ih =>
    rw [readStreamBlocking]
    refine wpM_bind (wpM_mono wpM_readStreamEntries ?_ fun _ _ _ _ _ ↦ trivial)
    rintro - c m τ' ⟨rfl, b, hb, hm, rfl, e, he, hsnap⟩
    have hcaught_b := hcaught.mono hb.2.1
    have hkept_b := hb.2.2 hkept
    obtain ⟨len, hdense, -⟩ := hkept_b.dense
    refine wpM_bind (wpM_ofExcept (fun vs m₁ hvs hm₁ ↦ ?_) fun _ _ _ _ ↦ trivial)
    have hbm₁ := (readerSpec valid w key start calls).rely_trans hm hm₁
    split
    · rename_i hclosed
      refine wpM_pure fun m₂ hm₂ all hall ↦ Or.inl fun m' hm' ↦ ?_
      cases hall
      have hlate := (readerSpec valid w key start calls).rely_trans hbm₁
        ((readerSpec valid w key start calls).rely_trans hm₂ hm')
      exact hcaught_b.closed hdense hclosed hvs hlate.2.1 (hlate.2.2 hkept_b).contiguous
    · rename_i hopen
      obtain ⟨hread, hnext⟩ := hcaught_b.next hdense (Bool.not_eq_true _ ▸ hopen) hvs
      rw [if_neg Bool.false_ne_true]
      refine wpM_bind (wpM_mono (wpM_read_sent ignoresReads_streamSpec
        (g := fun db ↦ db.statusOf w) fun _ ↦ rfl) ?_ fun _ _ _ _ _ ↦ trivial)
      rintro - c m₂ τ₂ ⟨rfl, b', m₃, hb', hsent, hm₃, hm₂, rfl, rfl⟩
      have hbb' := (readerSpec valid w key start calls).rely_trans hbm₁ hb'
      have hb'm₂ := (readerSpec valid w key start calls).rely_trans hm₃ hm₂
      rcases hstatus : b'.db.statusOf w with - | status
      · exact wpM_throw fun _ _ ↦ trivial
      dsimp only
      split
      · rename_i hinactive
        rw [Bool.and_eq_true, decide_eq_true_eq, decide_eq_true_eq] at hinactive
        refine wpM_pure fun m₄ _ all hall ↦ ?_
        cases hall
        exact finished_of_inactive hkept_b hbb' hread he hsnap (hsent.1 rfl).1 hstatus hinactive.1
          hinactive.2
      · rename_i hactive
        have hlate := (readerSpec valid w key start calls).rely_trans hbb' hb'm₂
        rw [nextStart_of_active hcaught_b he hsnap (hsent.1 rfl).2 hstatus (active_of hactive)]
        exact ih (hlate.2.2 hkept_b) (hnext.mono hlate.2.1)

/-- A reader with a channel, in the same way. -/
theorem wpM_readStreamAsync (rounds : ℕ) (hkept : StreamKept (0 < start) w key calls m₀.db)
    (hcaught : Caught codec w key start current values m₀.db) :
    wpM (readerSpec valid w key start calls) (readStreamAsync V w key rounds current values)
      (fun r _ m τ ↦ ∀ all, r = some (all, none) →
        Finished (readerSpec valid w key start calls) codec w key start all m τ)
      (fun _ _ _ _ ↦ True) .idle m₀ τ := by
  induction rounds generalizing current values m₀ τ with
  | zero => exact wpM_pure fun m _ all h ↦ by cases h
  | succ n ih =>
    rw [readStreamAsync]
    have herr : ∀ {values : List V} {e : DbosError} {c : DbConn} {m : DbMoment} {τ : DbTrace},
        wpM (readerSpec valid w key start calls) (pure (some (values, some e)))
          (fun r _ m τ ↦ ∀ all, r = some (all, none) →
            Finished (readerSpec valid w key start calls) codec w key start all m τ)
          (fun _ _ _ _ ↦ True) c m τ :=
      wpM_pure fun _ _ all hall ↦ by cases hall
    refine wpM_bind (wpM_attempt (wpM_mono wpM_readStreamEntries ?_ fun _ _ _ _ _ ↦ herr))
    rintro - c m τ' ⟨rfl, b, hb, hm, rfl, e, he, hsnap⟩
    have hcaught_b := hcaught.mono hb.2.1
    have hkept_b := hb.2.2 hkept
    obtain ⟨len, hdense, -⟩ := hkept_b.dense
    dsimp only
    split
    · exact herr
    rename_i hnone
    have hvs := decodeEntries_of_decodeWhile hnone
    split
    · rename_i hclosed
      refine wpM_pure fun m₂ hm₂ all hall ↦ Or.inl fun m' hm' ↦ ?_
      cases hall
      have hlate := (readerSpec valid w key start calls).rely_trans hm
        ((readerSpec valid w key start calls).rely_trans hm₂ hm')
      exact hcaught_b.closed hdense hclosed hvs hlate.2.1 (hlate.2.2 hkept_b).contiguous
    · rename_i hopen
      obtain ⟨hread, hnext⟩ := hcaught_b.next hdense (Bool.not_eq_true _ ▸ hopen) hvs
      refine wpM_bind (wpM_attempt (wpM_mono (wpM_read_sent ignoresReads_streamSpec
        (g := fun db ↦ db.statusOf w) fun _ ↦ rfl) ?_ fun _ _ _ _ _ ↦ herr))
      rintro - c m₂ τ₂ ⟨rfl, b', m₃, hb', hsent, hm₃, hm₂, rfl, rfl⟩
      have hbb' := (readerSpec valid w key start calls).rely_trans hm hb'
      have hb'm₂ := (readerSpec valid w key start calls).rely_trans hm₃ hm₂
      rcases hstatus : b'.db.statusOf w with - | status
      · exact herr
      dsimp only
      split
      · rename_i hinactive
        rw [Bool.and_eq_true, decide_eq_true_eq, decide_eq_true_eq] at hinactive
        refine wpM_pure fun m₄ _ all hall ↦ ?_
        cases hall
        exact finished_of_inactive hkept_b hbb' hread he hsnap (hsent.1 rfl).1 hstatus hinactive.1
          hinactive.2
      · rename_i hactive
        have hlate := (readerSpec valid w key start calls).rely_trans hbb' hb'm₂
        rw [nextStart_of_active hcaught_b he hsnap (hsent.1 rfl).2 hstatus (active_of hactive)]
        exact ih (hlate.2.2 hkept_b) (hnext.mono hlate.2.1)

/-- What a reader returns says what it has delivered. -/
def ReaderPost (Γ : DbSpec) (codec : Serde V) (w key : String) (start : ℤ) :
    DbPost (OperationResult V) := fun r _ m τ ↦
  ∀ v all, r.2 = .ok v → v.delivered = some all → Finished Γ codec w key start all m τ

theorem wp_reader_program (inner : DbosInner) {op : Operation V} (hop : op.Reads w key codec start)
    (hkept : StreamKept (0 < start) w key calls m₀.db) :
    wp server (readerSpec valid w key start calls) (op.program inner)
      (ReaderPost (readerSpec valid w key start calls) codec w key start) .idle m₀ τ := by
  refine wp_program ?_
  cases hop with
  | readStream start rounds =>
    refine wpM_map (wpM_mono (wpM_readStreamBlocking rounds hkept (caught_init codec _)) ?_ ?_)
    · rintro (_ | ⟨all, _ | _⟩) c m τ hfinished v all' hv hdelivered <;> cases hv <;>
        cases hdelivered
      exact hfinished all rfl
    · rintro e c m τ - v all hv
      cases hv
  | readStreamAsync rounds =>
    refine wpM_map (wpM_mono (wpM_readStreamAsync rounds hkept (caught_init codec _)) ?_ ?_)
    · rintro (_ | ⟨all, _ | _⟩) c m τ hfinished v all' hv hdelivered <;> cases hv <;>
        cases hdelivered
      exact hfinished all rfl
    · rintro e c m τ - v all hv
      cases hv

/-! ### The end of a producer -/

omit [SerdeJson] in
/-- A workflow that has come to an end stays at its end under every statement of the runtime but
resumption and deletion. -/
theorem Stmt.Writes.terminal {s : Stmt} {id : String} {old : WorkflowRow}
    {new : Option WorkflowRow} (h : s.Writes (.workflowStatus id) (some old) new) (hs : s.Runtime)
    (hold : old.status.isTerminal = true)
    (hresume : resumesWorkflow id ⟨.workflowStatus id, some old, new, s⟩ = false)
    (hdelete : deletesWorkflow id ⟨.workflowStatus id, some old, new, s⟩ = false) :
    ∃ r, new = some r ∧ r.status.isTerminal = true := by
  -- a condition that asks for a status that is not terminal is not satisfied
  have absurdStatus : ∀ {status : WorkflowStatusType}, status.isTerminal = false →
      old.status ≠ status := by
    rintro status hfalse rfl
    rw [hold] at hfalse
    cases hfalse
  cases h with
  | insertConflict input r => exact ⟨_, rfl, hold⟩
  | deadLetter w r hpending => exact (absurdStatus rfl hpending).elim
  | outcome w status output error now r haccepts =>
    have hout : status.isOutcome = true := hs
    refine ⟨_, rfl, ?_⟩
    show status.isTerminal = true
    cases status <;> first | rfl | cases hout
  | promote now w r hdue =>
    simp only [WorkflowRow.due, Bool.and_eq_true, decide_eq_true_eq] at hdue
    exact (absurdStatus rfl hdue.1).elim
  | clear w r hassigned =>
    simp only [WorkflowRow.assigned, Bool.and_eq_true, decide_eq_true_eq] at hassigned
    exact (absurdStatus rfl hassigned.2).elim
  | lock q version p mode limit w r _ => exact ⟨_, rfl, hold⟩
  | claim w version executorId now limited r henq => exact (absurdStatus rfl henq).elim
  | cancel ids now w r _ hcan => exact ⟨_, rfl, rfl⟩
  | resume ids q now w r _ _ => simp [resumesWorkflow] at hresume
  | delete ids k old _ => simp [deletesWorkflow] at hdelete
  | markForked w r => exact ⟨_, rfl, hold⟩
  | collect cutoff w old _ => simp [deletesWorkflow] at hdelete
  | collectCascade cutoff k old hk => exact (hk id rfl).elim

/-- The producer is not resumed, and writes to the stream only until its outcome is recorded. -/
structure OutcomeLast (w key : String) (h : List (Commit Db Key Row Stmt)) : Prop where
  resume : ∀ wr ∈ System.written h, resumesWorkflow w wr = false
  last : ∀ c ∈ h, ∀ wr ∈ c.writes, ∀ i, wr.key = .streams w key i →
    ∀ status ∈ c.moment.db.statusOf w, status.isTerminal = false

/-! ### Every run -/

/-- Whenever the reader `i` finds the producer inactive, it has read the stream to its end, and
whenever it goes on it has not read the last offset. -/
def NoLostTail (w key : String) (start : ℤ) (i : ℕ) (S : RuntimeSystem V) (l : RuntimeLabel V) :
    Prop :=
  ∀ s k, l = .issue i → S.sessions.lookup i = some s → s.prog = .sql (.getStatus w) k →
    TailRead w key start (S.traceOf i) S.moment ∧ CursorFits w key start (S.traceOf i) S.moment

/-- What was visible when the producer was at its end is all that is ever visible. -/
theorem visibleFrom_of_terminal {executor : ℕ → DbosInner} {db₀ : Db} {time : ℤ}
    {S : RuntimeSystem V}
    (h : Run (System.step server valid) (RuntimeStep executor) (System.init db₀ time) S)
    (hlast : OutcomeLast w key S.history)
    (hdelete : ∀ wr ∈ System.written S.history, deletesWorkflow w wr = false) {n : ℕ}
    {status : WorkflowStatusType}
    (hstatus : (System.stateAt server db₀ S.history n).statusOf w = some status)
    (hterminal : status.isTerminal = true) :
    visibleFrom S.moment.db w key start =
      visibleFrom (System.stateAt server db₀ S.history n) w key start := by
  obtain ⟨hC, hwrites⟩ := writes_of_run h
  have hended : ∀ m, n ≤ m → ∃ r, (System.stateAt server db₀ S.history m).workflow w = some r ∧
      r.status.isTerminal = true := by
    intro m hnm
    obtain ⟨r, hr, rfl⟩ := Option.map_eq_some_iff.1 hstatus
    refine hC.keeps hnm (k := .workflowStatus w)
      (P := fun row : Option WorkflowRow ↦ ∃ r, row = some r ∧ r.status.isTerminal = true)
      ⟨r, hr, hterminal⟩ ?_
    rintro - new s - hmem ⟨old, rfl, hold⟩
    obtain ⟨hlegal, hruntime⟩ := hwrites _ hmem
    exact Stmt.Writes.terminal hlegal hruntime hold (hlast.resume _ hmem) (hdelete _ hmem)
  -- so no later transaction writes to the stream
  have hsame : ∀ i, S.moment.db.entry w key i =
      (System.stateAt server db₀ S.history n).entry w key i := by
    intro i
    rcases le_total n S.history.length with hn | hn
    · rw [hC.shows_now.db, hC.now.1, System.stateAt_of_le db₀ S.history hn]
      refine store.look_apply_of_forall_ne (k := .streams w key i) fun wr hwr hk ↦ ?_
      obtain ⟨-, j, c, hnj, -, hc, hwr⟩ := System.exists_commit_of_written hwr
      obtain ⟨hxid, -, hshows, -⟩ := hC.commit hc
      obtain ⟨r, hr, hended⟩ := hended j hnj
      have hopen := hlast.last c (List.mem_of_getElem? hc) wr hwr i hk r.status
        (by rw [hshows.db, hxid, Db.statusOf, hr]; rfl)
      rw [hended] at hopen
      cases hopen
    · rw [hC.shows_now.db, hC.now.1, System.stateAt, System.stateAt, List.take_length,
        List.take_of_length_le hn]
  have hgrows : ∀ {db db' : Db}, (∀ i, db.entry w key i = db'.entry w key i) →
      Grows w key db db' := fun hentry i row hrow ↦ by rw [← hentry]; exact hrow
  rw [visibleFrom, visibleFrom, streamEntries_congr (hgrows hsame) (hgrows fun i ↦ (hsame i).symm)]

/-- The commits of the sessions next to a reader delete no workflow. -/
theorem not_deletes_of_guar {sent : DbTrace → Stmt → DbMoment → Prop} {disc : Prop} {e : DbEffect}
    (hguar : (streamSpec valid disc sent w key calls).guar τ e)
    (hlegal : ∀ wr ∈ e.writes, LegalWrite wr) : ∀ wr ∈ e.writes, deletesWorkflow w wr = false := by
  intro wr hwr
  rcases hguar with hkeeps | ⟨n, i, op, row, -, hwrites, -⟩
  · have hkeep := hkeeps wr hwr
    have hwrites := hlegal wr hwr
    obtain ⟨_ | _, old, _ | new, s⟩ := wr
    case workflowStatus.none id =>
      change s.Writes (.workflowStatus id) old none at hwrites
      cases hwrites with
      | delete ids k old _ => exact hkeep.elim
      | collect cutoff id old _ => exact hkeep.elim
      | collectCascade cutoff k old _ => exact hkeep.elim
    all_goals rfl
  · rw [hwrites] at hwr
    rcases List.mem_cons.1 hwr with rfl | hwr
    · rfl
    · rw [List.mem_singleton.1 hwr]
      rfl

/-- **Stream readers.** A producer starts with an empty stream, and is not resumed and writes no
more once its outcome is recorded. A reader next to it that says the stream is at its end has
delivered exactly what is visible from its first offset on, in this and every later state, if
whenever it found the producer inactive it had read the stream to its end, and whenever it went on
it had not read the last offset there is, and if it started at offset 0 or no insert was sent to the
stream once it was closed. -/
theorem readStream_complete {executor : ℕ → DbosInner} {ops : ℕ → Operation V} {db₀ : Db} {time : ℤ}
    {S : RuntimeSystem V} {i : ℕ} (hops : ∀ j, (ops j).OfBody w calls)
    (hreader : (ops i).Reads w key codec start) (hempty : ∀ j, db₀.entry w key j = none)
    (hnew : ∀ n, db₀.operation w n = none)
    (h : Run (System.step server valid) (fun S l ↦ Carries executor ops l ∧
      NoLostTail w key start i S l ∧ (0 < start → SendsWhileOpen w key S l))
      (System.init db₀ time) S)
    (hlast : OutcomeLast w key S.history)
    {s : Session Db Key Row Stmt Stmt.Res SqlError Ask Ask.Ans (OperationResult V)}
    {r : OperationResult V} {v : OperationValue V} (hs : S.sessions.lookup i = some s)
    (hprog : s.prog = .pure r) (hv : r.2 = .ok v) (hdelivered : v.delivered = some values) :
    Delivered codec w key start values S.moment.db := by
  let sent : ℕ → DbTrace → Stmt → DbMoment → Prop := fun j τ s m ↦
    j = i → ReaderSent w key start τ s m
  have hsent : sent i = ReaderSent w key start := by
    funext τ s m
    simp [sent]
  obtain ⟨hC, hsound, -, hkept⟩ := System.sound_of_invariant
    (fun j ↦ streamSpec valid (0 < start) (sent j) w key calls)
    (fun j r c m τ ↦ j = i →
      ReaderPost (readerSpec valid w key start calls) codec w key start r c m τ)
    (P := fun S ↦ StreamKept (0 < start) w key calls S.moment.db) (fun _ ↦ rfl) (fun _ ↦ trivial)
    (streamKept_of_empty hempty hnew)
    (fun S j p _ hkept hok ↦ by
      rw [hok.1 j p rfl]
      by_cases hj : j = i
      · subst hj
        rw [hsent]
        exact wp_mono (wp_reader_program (executor j) hreader hkept) fun _ _ _ _ hpost _ ↦ hpost
      · exact wp_mono (wp_stream_program (executor j) (hops j) hkept)
          fun _ _ _ _ _ heq ↦ absurd heq hj)
    (fun T j t st k _ _ hok ht hprog _ ↦ by
      refine ⟨fun hj hst ↦ ?_, fun hd row hst ↦ ?_⟩
      · subst hj hst
        exact hok.2.1 t k rfl ht hprog
      · subst hst
        exact hok.2.2 hd j t row k rfl ht hprog)
    (fun S l S' _ _ hkept _ _ hadv ↦ (hkept.advances hadv).1)
    (fun S l S' _ hkept _ _ hs hadv _ ↦
      ⟨(System.steps_of_step hs).before, (hkept.advances hadv).2, fun _ ↦ (hkept.advances hadv).1⟩)
        h
  rcases hsound.returned hs hprog rfl v values hv hdelivered with hall | ⟨e, he, b, hb, hend, hall⟩
  · exact hall S.moment ((readerSpec valid w key start calls).rely_refl _)
  · -- the producer was at its end, and what was visible then is all there is
    obtain ⟨c, hc, -, rfl⟩ := System.mem_effects_traceOf.1 he
    obtain ⟨n, hn⟩ := List.mem_iff_getElem?.1 hc
    obtain ⟨-, -, -, -, hsnap⟩ := hC.commit hn
    obtain ⟨-, hshows⟩ := hsnap b hb
    obtain ⟨status, hstatus, hterminal⟩ := hend
    have hrun : Run (System.step server valid) (RuntimeStep executor) (System.init db₀ time) S :=
      h.mono fun S l hok j p hl ↦ ⟨ops j, hok.1 j p hl⟩
    have hdelete : ∀ wr ∈ System.written S.history, deletesWorkflow w wr = false := by
      intro wr hwr
      obtain ⟨c', hc', hwr'⟩ := List.mem_flatMap.1 hwr
      obtain ⟨τ, -, -, hguar⟩ := hsound.guar c' hc'
      exact not_deletes_of_guar hguar
        (fun x hx ↦ hC.legal x (List.mem_flatMap.2 ⟨c', hc', hx⟩)) wr hwr'
    rw [hshows.db] at hstatus hall
    rw [Delivered, visibleFrom_of_terminal hrun hlast hdelete hstatus hterminal]
    exact hall

end

/-! ### A reader between two statements -/

section

local instance readerJson : SerdeJson := JsonText.jsonText

/-- The sessions of the runs: the queue of `w`, a write of its body, its outcome, and a reader. -/
def producerAndReader : ℕ → Operation ℤ
  | 0 => .call (.pollQueue ⟨"q", "a", "v", none, 0, none, none, 100, none⟩)
  | 1 => .durable streamContext false 0 (writeAndClose 0)
  | 2 => .call (.complete "w" .portable (.ok "1"))
  | _ => .readStream "w" "k" inferInstance 0 false 2

/-- Session `i` of the runs is started. -/
def startOne (i : ℕ) : List (RuntimeLabel ℤ) :=
  [.spawn i ((producerAndReader i).program (anyName "a"))]

/-- The producer is taken from its queue. -/
def producerStarts : List (RuntimeLabel ℤ) :=
  startOne 0 ++ commandOne 0 ++ sendOne 0 ++ answerOne 0 5 ++ sendOne 0 ++ commandOne 0 ++
    commandOne 0 ++ answerOne 0 5

/-- The body writes its value, and its outcome is recorded. -/
def producerEnds : List (RuntimeLabel ℤ) :=
  startOne 1 ++ sendOne 1 ++ sendOne 1 ++ commandOne 1 ++ sendOne 1 ++ appendRow 1 ++
    startOne 2 ++ answerOne 2 7 ++ sendOne 2

/-- The reader looks at the stream before the value is written and again after it. -/
def readTwice : List (RuntimeLabel ℤ) :=
  producerStarts ++ startOne 3 ++ sendOne 3 ++ sendOne 3 ++ producerEnds ++ sendOne 3 ++ sendOne 3

/-- The value is written between the two statements of the reader's only round. -/
def readBefore : List (RuntimeLabel ℤ) :=
  producerStarts ++ startOne 3 ++ sendOne 3 ++ producerEnds ++ sendOne 3

/-- Whether the producer is active at `m`, or at its end with everything visible read. -/
def tailRead (w key : String) (start : ℤ) (τ : DbTrace) (m : DbMoment) : Bool :=
  (m.db.statusOf w).all fun status ↦ status = .pending || status = .enqueued ||
    (status ≠ .delayed && τ.effects.getLast?.all fun e ↦ e.snapshot.all fun b ↦
      (visibleFrom m.db w key start).all fun x ↦ x ∈ Stmt.streamEntries b.db w key start)

/-- Whether the last offset is not among what was read, if the producer is active at `m`. -/
def cursorFits (w key : String) (start : ℤ) (τ : DbTrace) (m : DbMoment) : Bool :=
  (m.db.statusOf w).all fun status ↦ (status ≠ .pending && status ≠ .enqueued) ||
    τ.effects.getLast?.all fun e ↦ e.snapshot.all fun b ↦
      (Stmt.streamEntries b.db w key start).all fun x ↦ (x.offset : ℤ) < i32Max

theorem cursorFits_spec {w key : String} {start : ℤ} {τ : DbTrace} {m : DbMoment}
    (h : cursorFits w key start τ m = true) : CursorFits w key start τ m := by
  intro status hstatus hactive e he b hb x hx
  have hfalse : (status ≠ .pending && status ≠ .enqueued) = false := by
    rcases hactive with rfl | rfl <;> rfl
  rw [cursorFits, Option.mem_def.1 hstatus, Option.all_some, hfalse, Bool.false_or,
    Option.mem_def.1 he, Option.all_some, Option.mem_def.1 hb, Option.all_some,
    List.all_eq_true] at h
  exact of_decide_eq_true (h x hx)

theorem tailRead_spec {w key : String} {start : ℤ} {τ : DbTrace} {m : DbMoment}
    (h : tailRead w key start τ m = true) : TailRead w key start τ m := by
  intro status hstatus hpending henqueued
  rw [tailRead, Option.mem_def.1 hstatus, Option.all_some] at h
  simp only [hpending, henqueued, decide_false, Bool.false_or, Bool.and_eq_true,
    decide_eq_true_eq] at h
  refine ⟨h.1, fun e he b hb x hx ↦ ?_⟩
  rw [Option.mem_def.1 he, Option.all_some, Option.mem_def.1 hb, Option.all_some,
    List.all_eq_true] at h
  exact of_decide_eq_true (h.2 x hx)

/-- Whether a label keeps reader `i` from asking for the status of the producer too early. -/
def noLostTail (w key : String) (start : ℤ) (i : ℕ) (S : RuntimeSystem ℤ) :
    RuntimeLabel ℤ → Bool
  | .issue j =>
    match S.sessions.lookup j with
    | some ⟨.sql (.getStatus w') _, _, _⟩ =>
      j ≠ i || w' ≠ w || tailRead w key start (S.traceOf i) S.moment &&
        cursorFits w key start (S.traceOf i) S.moment
    | _ => true
  | _ => true

theorem noLostTail_spec {w key : String} {start : ℤ} {i : ℕ} {S : RuntimeSystem ℤ}
    {l : RuntimeLabel ℤ} (h : noLostTail w key start i S l = true) :
    NoLostTail w key start i S l := by
  rintro ⟨p, c, b⟩ k rfl hs hprog
  subst hprog
  simp only [noLostTail, hs, ne_eq, not_true_eq_false, decide_false, Bool.false_or,
    Bool.and_eq_true] at h
  exact ⟨tailRead_spec h.1, cursorFits_spec h.2⟩

/-- Whether the reader of a session is done and has delivered the values. -/
def hasDelivered (values : List ℤ)
    (s : Session Db Key Row Stmt Stmt.Res SqlError Ask Ask.Ans (OperationResult ℤ)) : Bool :=
  match s.prog with
  | .pure (_, .ok v) => v.delivered = some values
  | _ => false

theorem exists_of_hasDelivered {values : List ℤ}
    {s : Session Db Key Row Stmt Stmt.Res SqlError Ask Ask.Ans (OperationResult ℤ)}
    (h : hasDelivered values s = true) :
    ∃ r v, s.prog = .pure r ∧ r.2 = .ok v ∧ v.delivered = some values := by
  obtain ⟨p, c, b⟩ := s
  cases p with
  | pure r =>
    obtain ⟨op, e | v⟩ := r
    · cases h
    · exact ⟨(op, .ok v), v, rfl, rfl, of_decide_eq_true h⟩
  | _ => cases h

/-- Whether the producer writes to the stream only until its outcome is recorded. -/
def outcomeLast (w key : String) (h : List (Commit Db Key Row Stmt)) : Bool :=
  (System.written h).all (fun wr ↦ !resumesWorkflow w wr) &&
    h.all fun c ↦ c.writes.all fun wr ↦
      match wr.key with
      | .streams w' key' _ => !(w' = w && key' = key) ||
        (c.moment.db.statusOf w).all fun status ↦ !status.isTerminal
      | _ => true

theorem outcomeLast_spec {w key : String} {h : List (Commit Db Key Row Stmt)}
    (hlast : outcomeLast w key h = true) : OutcomeLast w key h := by
  rw [outcomeLast, Bool.and_eq_true, List.all_eq_true, List.all_eq_true] at hlast
  refine ⟨fun wr hwr ↦ by simpa using hlast.1 wr hwr, fun c hc wr hwr i hk status hstatus ↦ ?_⟩
  have hwrite := List.all_eq_true.1 (hlast.2 c hc) wr hwr
  simpa [hk, Option.mem_def.1 hstatus] using hwrite

theorem carries_producerAndReader {ls : List (RuntimeLabel ℤ)}
    (h : ∀ e ∈ ls.filterMap spawnedOperation,
      e.2 = (producerAndReader e.1).program (anyName "a")) :
    ∀ l ∈ ls, Carries (fun _ ↦ anyName "a") producerAndReader l := by
  rintro l hl i p rfl
  exact h (i, p) (List.mem_filterMap.2 ⟨_, hl, rfl⟩)

theorem ofBody_producerAndReader : ∀ i, (producerAndReader i).OfBody "w" writeAndClose
  | 0 => Or.inl rfl
  | 1 => Or.inr ⟨streamContext, false, 0, writeAndClose 0, rfl, rfl, fun _ ↦ rfl⟩
  | 2 => Or.inl rfl
  | _ + 3 => Or.inl rfl

theorem readStream_complete_readTwice : ∃ (S : RuntimeSystem ℤ) (values : List ℤ),
    exec (System.step server fun _ _ _ ↦ true) (System.init oneWaiting 0) readTwice = some S ∧
    values = [5] ∧ Delivered inferInstance "w" "k" 0 values S.moment.db := by
  have hrun : (exec (fun S l ↦ if noLostTail "w" "k" 0 3 S l then
      System.step server (fun _ _ _ ↦ true) S l else none) (System.init oneWaiting 0)
      readTwice).any (fun S ↦ outcomeLast "w" "k" S.history &&
        (S.sessions.lookup 3).any (hasDelivered [5])) = true := by
    decide +kernel
  obtain ⟨S, hS, hfacts⟩ := (Option.any_eq_true _ _).1 hrun
  rw [Bool.and_eq_true] at hfacts
  obtain ⟨s, hs, hok⟩ := (Option.any_eq_true _ _).1 hfacts.2
  obtain ⟨r, v, hprog, hv, hdelivered⟩ := exists_of_hasDelivered hok
  have hspawned : ∀ e ∈ readTwice.filterMap spawnedOperation,
      e.2 = (producerAndReader e.1).program (anyName "a") :=
    List.forall_mem_cons.2 ⟨rfl, List.forall_mem_cons.2 ⟨rfl, List.forall_mem_cons.2 ⟨rfl,
      List.forall_mem_singleton.2 rfl⟩⟩⟩
  have hreach : Run (System.step server fun _ _ _ ↦ true)
      (fun S l ↦ Carries (fun _ ↦ anyName "a") producerAndReader l ∧ NoLostTail "w" "k" 0 3 S l ∧
        (0 < (0 : ℤ) → SendsWhileOpen "w" "k" S l)) (System.init oneWaiting 0) S :=
    Run.of_exec_checked hS fun S l hl hcheck ↦ ⟨carries_producerAndReader hspawned l hl,
      noLostTail_spec hcheck, fun hpos ↦ absurd hpos (lt_irrefl 0)⟩
  exact ⟨S, [5], exec_of_checked hS, rfl, readStream_complete ofBody_producerAndReader
    (.readStream 0 2) (fun _ ↦ rfl) (fun _ ↦ rfl) hreach (outcomeLast_spec hfacts.1) hs hprog hv
    hdelivered⟩

/-- The producer writes its value and ends between the two statements of a round: the reader says
that the stream is at its end, and has not delivered the value. -/
theorem stream_tail_lost : ∃ (S : RuntimeSystem ℤ) (s : Session Db Key Row Stmt Stmt.Res SqlError
      Ask Ask.Ans (OperationResult ℤ)) (r : OperationResult ℤ) (v : OperationValue ℤ),
    Run (System.step server fun _ _ _ ↦ true)
      (fun _ l ↦ Carries (fun _ ↦ anyName "a") producerAndReader l) (System.init oneWaiting 0) S ∧
    (∀ i, (producerAndReader i).OfBody "w" writeAndClose) ∧
    (producerAndReader 3).Reads "w" "k" inferInstance 0 ∧ OutcomeLast "w" "k" S.history ∧
    S.sessions.lookup 3 = some s ∧ s.prog = .pure r ∧ r.2 = .ok v ∧ v.delivered = some [] ∧
    ¬Delivered inferInstance "w" "k" 0 ([] : List ℤ) S.moment.db := by
  have hrun : (exec (System.step server fun _ _ _ ↦ true) (System.init oneWaiting 0)
      readBefore).any (fun S ↦ outcomeLast "w" "k" S.history &&
        (S.sessions.lookup 3).any (hasDelivered []) &&
        (match decodeEntries ℤ (visibleFrom S.moment.db "w" "k" 0) with
          | .ok values => values = [5]
          | .error _ => false)) = true := by
    decide +kernel
  obtain ⟨S, hS, hfacts⟩ := (Option.any_eq_true _ _).1 hrun
  simp only [Bool.and_eq_true] at hfacts
  obtain ⟨⟨hlast, hreader⟩, hvisible⟩ := hfacts
  obtain ⟨s, hs, hok⟩ := (Option.any_eq_true _ _).1 hreader
  obtain ⟨r, v, hprog, hv, hdelivered⟩ := exists_of_hasDelivered hok
  have hspawned : ∀ e ∈ readBefore.filterMap spawnedOperation,
      e.2 = (producerAndReader e.1).program (anyName "a") :=
    List.forall_mem_cons.2 ⟨rfl, List.forall_mem_cons.2 ⟨rfl, List.forall_mem_cons.2 ⟨rfl,
      List.forall_mem_singleton.2 rfl⟩⟩⟩
  refine ⟨S, s, r, v, Run.of_exec hS fun _ ↦ carries_producerAndReader hspawned,
    ofBody_producerAndReader, .readStream 0 2, outcomeLast_spec hlast, hs, hprog, hv, hdelivered,
    fun hall ↦ ?_⟩
  rw [show decodeEntries ℤ (visibleFrom S.moment.db "w" "k" 0) = .ok [] from hall] at hvisible
  exact absurd hvisible (by decide)

end

end Dbos

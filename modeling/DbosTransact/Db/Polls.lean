import DbosTransact.Db.Streams
import DbosTransact.Foundation.Answers
import DbosTransact.JsonText
import DbosTransact.Serialize.Values

/-!
# The two stream readers, poll by poll

`read_stream_blocking` collects the values of a stream and returns them at its end, and the task of
`read_stream_async` sends them one by one. Both go round the same loop: read the rows from the
cursor on, decode them, move the cursor behind the last one, and look at the status of the producer.
`Watch` is what the rounds find in the database, and `ReaderState` how far a reader is.

The cursor is an `i32`. `e.offset + 1` wraps at the last offset an `INTEGER` has, and the next round
then starts at the lowest one: the reader goes through the stream a second time (`Overruns`). The
rounds are those of the programs (`serve_readStreamBlocking`, `serve_readStreamAsync`).

The two loops make the same moves, whatever they find (`blocking_eq_async`), and `followed_of_after`
is the invariant on the cursor: it stands behind what was delivered, and before what was not.
-/

namespace Dbos

open Txn

/-- What one round of a reader finds. -/
structure Poll where
  /-- The rows of the stream, in the order of their offsets. -/
  log : List StreamEntry
  sorted : log.Pairwise fun a b ↦ a.offset < b.offset
  /-- An offset is an `INTEGER`. -/
  fits : ∀ e ∈ log, (e.offset : ℤ) ≤ i32Max
  /-- The error of the driver when the rows are read, if there is one. -/
  failure : Option SqlError
  /-- What `get_status` gets after that. -/
  status : Except SqlError (Option WorkflowStatusType)

/-- What a reader finds round by round: rows are only added at the end of the stream. -/
structure Watch where
  poll : ℕ → Poll
  grows : ∀ n, (poll n).log <+: (poll (n + 1)).log

/-- How far a reader is: the cursor with the values so far, the values when the stream is over, or
the values before an error. -/
inductive ReaderState (T : Type)
  | running (current : ℤ) (values : List T)
  | closed (values : List T)
  | failed (values : List T) (e : DbosError)

namespace ReaderState

variable {T : Type}

/-- The values delivered so far. -/
def values : ReaderState T → List T
  | running _ vs => vs
  | closed vs => vs
  | failed vs _ => vs

/-- What is left of a reading when an error takes the values with it. -/
def forget : ReaderState T → ReaderState T
  | failed _ e => failed [] e
  | r => r

/-- One more round, unless the reader has returned. -/
def andThen (r : ReaderState T) (round : ℤ → List T → ReaderState T) : ReaderState T :=
  match r with
  | running current vs => round current vs
  | r => r

theorem forget_andThen (r : ReaderState T) (f : ℤ → List T → ReaderState T) :
    (r.andThen f).forget = r.forget.andThen fun current vs ↦ (f current vs).forget := by
  cases r <;> rfl

theorem forget_eq_closed {r : ReaderState T} {vs : List T} :
    r.forget = .closed vs ↔ r = .closed vs := by
  cases r <;> simp [forget]

theorem forget_eq_failed {r : ReaderState T} {e : DbosError} :
    r.forget = .failed [] e ↔ ∃ vs, r = .failed vs e := by
  cases r <;> simp [forget]

end ReaderState

namespace Poll

variable (p : Poll)

/-- `read_stream_entries`. -/
def entries (fromOffset : ℤ) : Except DbosError (List StreamEntry × Bool) :=
  match p.failure with
  | some e => .error (.ofSql e)
  | none => .ok (beforeSentinel (p.log.filter fun e ↦ fromOffset ≤ (e.offset : ℤ)))

/-- The cursor behind the last entry. -/
def advance (current : ℤ) (entries : List StreamEntry) : ℤ :=
  entries.getLast?.elim current fun e ↦ asI32 ((e.offset : ℤ) + 1)

variable [SerdeJson] (T : Type) [Serde T] (w : String)

/-- A round of `read_stream_blocking`. An error drops the values. -/
def blocking (current : ℤ) (values : List T) : ReaderState T :=
  match p.entries current with
  | .error e => .failed [] e
  | .ok (entries, closed) =>
    match decodeEntries T entries with
    | .error e => .failed [] e
    | .ok vs =>
      if closed then .closed (values ++ vs)
      else
        match p.status with
        | .error e => .failed [] (.ofSql e)
        | .ok none => .failed [] (.nonExistentWorkflow w)
        | .ok (some status) =>
          if status ≠ .pending && status ≠ .enqueued then .closed (values ++ vs)
          else .running (advance current entries) (values ++ vs)

/-- A round of `read_stream_async`: `values` have been sent. -/
def async (current : ℤ) (values : List T) : ReaderState T :=
  match p.entries current with
  | .error e => .failed values e
  | .ok (entries, closed) =>
    match (decodeWhile T entries).2 with
    | some e => .failed (values ++ (decodeWhile T entries).1) e
    | none =>
      if closed then .closed (values ++ (decodeWhile T entries).1)
      else
        match p.status with
        | .error e => .failed (values ++ (decodeWhile T entries).1) (.ofSql e)
        | .ok none => .failed (values ++ (decodeWhile T entries).1) (.nonExistentWorkflow w)
        | .ok (some status) =>
          if status ≠ .pending && status ≠ .enqueued then
            .closed (values ++ (decodeWhile T entries).1)
          else .running (advance current entries) (values ++ (decodeWhile T entries).1)

end Poll

namespace Watch

variable {T : Type} (W : Watch)

/-- A reader after `k` rounds from round `n` on. -/
def after (round : Poll → ℤ → List T → ReaderState T) : ℕ → ℕ → ReaderState T → ReaderState T
  | _, 0, r => r
  | n, k + 1, r => after round (n + 1) k (r.andThen (round (W.poll n)))

variable [SerdeJson] (T) [Serde T] (w : String)

/-- `read_stream_blocking` from offset 0 on, after `n` rounds. -/
def blocking (n : ℕ) : ReaderState T := W.after (fun p ↦ p.blocking T w) 0 n (.running 0 [])

/-- `read_stream_async` after `n` rounds. -/
def async (n : ℕ) : ReaderState T := W.after (fun p ↦ p.async T w) 0 n (.running 0 [])

end Watch

section

variable [SerdeJson] {T : Type} [Serde T] {w : String}

/-! ### The two loops make the same moves -/

theorem decodeEntries_eq (l : List StreamEntry) : decodeEntries T l =
    match (decodeWhile T l).2 with
    | none => .ok (decodeWhile T l).1
    | some e => .error e := by
  induction l with
  | nil => rfl
  | cons a l ih =>
    rw [decodeEntries, decodeWhile]
    cases decodeValue T (some a.value) a.serialization with
    | error e => rfl
    | ok v =>
      show (decodeEntries T l).bind (fun vs ↦ .ok (v :: vs)) = _
      rw [ih]
      dsimp only
      cases (decodeWhile T l).2 <;> rfl

/-- A round of the one is a round of the other, up to the values that an error drops. -/
theorem Poll.blocking_eq_async (p : Poll) (current : ℤ) (values : List T) :
    p.blocking T w current values = (p.async T w current values).forget := by
  unfold Poll.blocking Poll.async
  cases p.entries current with
  | error e => rfl
  | ok r =>
    obtain ⟨entries, closed⟩ := r
    dsimp only
    rw [decodeEntries_eq]
    cases (decodeWhile T entries).2 with
    | some e => rfl
    | none =>
      dsimp only
      cases closed with
      | true => rfl
      | false =>
        rcases p.status with e | (- | status)
        · rfl
        · rfl
        · dsimp only
          rw [if_neg Bool.false_ne_true]
          split <;> rfl

namespace Watch

variable {W : Watch} {round : Poll → ℤ → List T → ReaderState T}

omit [SerdeJson] [Serde T] in
/-- The last round comes last. -/
theorem after_succ (n k : ℕ) (r : ReaderState T) :
    W.after round n (k + 1) r = (W.after round n k r).andThen (round (W.poll (n + k))) := by
  induction k generalizing n r with
  | zero => rfl
  | succ k ih =>
    rw [after, ih, after, show n + 1 + k = n + (k + 1) by omega]

omit [SerdeJson] [Serde T] in
/-- A reader that has returned makes no more rounds. -/
theorem after_of_andThen {r : ReaderState T} (h : ∀ f, r.andThen f = r) (n k : ℕ) :
    W.after round n k r = r := by
  induction k generalizing n with
  | zero => rfl
  | succ k ih => rw [after, h, ih]

theorem async_succ (n : ℕ) :
    W.async T w (n + 1) = (W.async T w n).andThen ((W.poll n).async T w) := by
  rw [async, after_succ, Nat.zero_add]
  rfl

theorem blocking_succ (n : ℕ) :
    W.blocking T w (n + 1) = (W.blocking T w n).andThen ((W.poll n).blocking T w) := by
  rw [blocking, after_succ, Nat.zero_add]
  rfl

/-- Both readers are equally far after every round. -/
theorem blocking_eq_async (n : ℕ) : W.blocking T w n = (W.async T w n).forget := by
  induction n with
  | zero => rfl
  | succ n ih =>
    rw [blocking_succ, async_succ, ih, ReaderState.forget_andThen]
    congr 1
    funext current vs
    exact Poll.blocking_eq_async ..

end Watch

/-! ### What was delivered -/

/-- The values are those of the first entries of the stream before the sentinel, of each of them
once and in their order. -/
def Follows (log : List StreamEntry) (vs : List T) : Prop :=
  ∃ first, first <+: (beforeSentinel log).1 ∧ decodeEntries T first = .ok vs

/-- All entries of the log were delivered, none of them closes the stream, and the cursor stands
behind the last one. -/
structure Behind (log : List StreamEntry) (current : ℤ) (vs : List T) : Prop where
  isOpen : ∀ e ∈ log, e.value ≠ streamClosedSentinel
  decoded : decodeEntries T log = .ok vs
  cursor : current = Poll.advance 0 log

/-- A round after which a reader goes on. -/
def Poll.GoesOn (p : Poll) : Prop :=
  p.failure = none ∧ (p.status = .ok (some .pending) ∨ p.status = .ok (some .enqueued))

/-- The values up to the first entry that does not decode are those of the entries before it. -/
theorem decodeWhile_prefix (l : List StreamEntry) :
    ∃ first, first <+: l ∧ decodeEntries T first = .ok (decodeWhile T l).1 := by
  induction l with
  | nil => exact ⟨[], List.prefix_rfl, rfl⟩
  | cons a l ih =>
    rw [decodeWhile]
    cases hv : decodeValue T (some a.value) a.serialization with
    | error e => exact ⟨[], List.nil_prefix, rfl⟩
    | ok v =>
      obtain ⟨first, hfirst, hdecode⟩ := ih
      refine ⟨a :: first, (List.prefix_cons_inj a).2 hfirst, ?_⟩
      rw [decodeEntries, hv, hdecode]
      rfl

/-- Below the last offset, the rows from the cursor on are those that were not delivered. -/
theorem Behind.filter_eq {log more : List StreamEntry} {current : ℤ} {vs : List T}
    (h : Behind log current vs) (hsorted : (log ++ more).Pairwise fun a b ↦ a.offset < b.offset)
    (hfits : ∀ e ∈ log, (e.offset : ℤ) < i32Max) :
    (log ++ more).filter (fun e ↦ current ≤ (e.offset : ℤ)) = more := by
  obtain ⟨hlog, -, hcross⟩ := List.pairwise_append.1 hsorted
  rcases hlast : log.getLast? with - | last
  · -- nothing was delivered, and the cursor stands at the start
    rw [List.getLast?_eq_none_iff.1 hlast, h.cursor, List.getLast?_eq_none_iff.1 hlast]
    refine List.filter_eq_self.2 fun e _ ↦ ?_
    rw [decide_eq_true_eq]
    exact Int.natCast_nonneg _
  obtain ⟨front, hfront⟩ := List.getLast?_eq_some_iff.1 hlast
  have hmem : last ∈ log := by
    rw [hfront]
    exact List.mem_append_right _ List.mem_cons_self
  have hcursor : current = (last.offset : ℤ) + 1 := by
    have hlt := hfits last hmem
    rw [h.cursor, Poll.advance, hlast, Option.elim_some]
    exact asI32_of_bounds (by rw [i32Min]; omega) (by omega)
  have hold : log.filter (fun e ↦ current ≤ (e.offset : ℤ)) = [] := by
    refine List.filter_eq_nil_iff.2 fun e he ↦ ?_
    have hle : e.offset ≤ last.offset := by
      rw [hfront] at hlog he
      rcases List.mem_append.1 he with he | he
      · exact ((List.pairwise_append.1 hlog).2.2 e he last List.mem_cons_self).le
      · rw [List.mem_singleton.1 he]
    rw [decide_eq_true_eq]
    omega
  have hnew : more.filter (fun e ↦ current ≤ (e.offset : ℤ)) = more := by
    refine List.filter_eq_self.2 fun e he ↦ ?_
    have hlt := hcross last hmem e he
    rw [decide_eq_true_eq]
    omega
  rw [List.filter_append, hold, hnew, List.nil_append]

/-- Rows that were all delivered are followed by those of the next read. -/
theorem Behind.entries_eq {log : List StreamEntry} {current : ℤ} {vs : List T} {p : Poll}
    (h : Behind log current vs) (hlog : log <+: p.log) (hok : p.failure = none)
    (hlast : ∀ e ∈ log, (e.offset : ℤ) ≠ i32Max) :
    ∃ more, p.log = log ++ more ∧ p.entries current = .ok (beforeSentinel more) := by
  obtain ⟨more, hmore⟩ := hlog
  refine ⟨more, hmore.symm, ?_⟩
  rw [Poll.entries, hok]
  dsimp only
  rw [← hmore, h.filter_eq (hmore ▸ p.sorted) fun e he ↦ ?_]
  have hle := p.fits e (hmore ▸ List.mem_append_left _ he)
  exact lt_of_le_of_ne hle (hlast e he)

/-- The cursor behind more rows. -/
theorem Behind.advance_eq {log : List StreamEntry} {current : ℤ} {vs : List T}
    (h : Behind log current vs) (more : List StreamEntry) :
    Poll.advance current more = Poll.advance 0 (log ++ more) := by
  rw [Poll.advance, Poll.advance, List.getLast?_append]
  cases more.getLast? with
  | some e => rfl
  | none => exact h.cursor

/-- **Step.** A round that starts behind what was delivered delivers what comes next. -/
theorem Poll.async_step {p : Poll} {log : List StreamEntry} {current : ℤ} {vs : List T}
    (h : Behind log current vs) (hlog : log <+: p.log)
    (hlast : p.failure = none → ∀ e ∈ log, (e.offset : ℤ) ≠ i32Max) :
    Follows p.log (p.async T w current vs).values ∧
      ∀ current' vs', p.async T w current vs = .running current' vs' →
        p.GoesOn ∧ Behind p.log current' vs' := by
  cases hfailure : p.failure with
  | some e =>
    have hasync : p.async T w current vs = .failed vs (.ofSql e) := by
      simp only [async, entries, hfailure]
    rw [hasync]
    refine ⟨?_, by simp⟩
    obtain ⟨more, hmore⟩ := hlog
    refine ⟨log, ?_, h.decoded⟩
    rw [← hmore, beforeSentinel_append h.isOpen]
    exact List.prefix_append ..
  | none =>
    obtain ⟨more, hmore, hentries⟩ := h.entries_eq hlog hfailure (hlast hfailure)
    obtain ⟨first, hfirst, hdecode⟩ := decodeWhile_prefix (T := T) (beforeSentinel more).1
    have hfollows : Follows p.log (vs ++ (decodeWhile T (beforeSentinel more).1).1) := by
      refine ⟨log ++ first, ?_, decodeEntries_append h.decoded hdecode⟩
      rw [hmore, beforeSentinel_append h.isOpen]
      exact (List.prefix_append_right_inj log).2 hfirst
    unfold async
    rw [hentries]
    dsimp only
    split
    · exact ⟨hfollows, by simp⟩
    rename_i hdecodes
    split
    · exact ⟨hfollows, by simp⟩
    rename_i hopen
    split
    · exact ⟨hfollows, by simp⟩
    · exact ⟨hfollows, by simp⟩
    rename_i status hstatus
    split
    · exact ⟨hfollows, by simp⟩
    rename_i hactive
    refine ⟨hfollows, ?_⟩
    rintro _ _ ⟨⟩
    obtain ⟨hall, hmoreOpen⟩ := beforeSentinel_of_open (Bool.not_eq_true _ ▸ hopen)
    refine ⟨⟨hfailure, ?_⟩, ?_, ?_, ?_⟩
    · rw [hstatus]
      cases status <;> simp_all
    · rw [hmore]
      exact List.forall_mem_append.2 ⟨h.isOpen, hmoreOpen⟩
    · rw [hmore]
      have hvalues := decodeEntries_of_decodeWhile hdecodes
      rw [hall] at hvalues ⊢
      exact decodeEntries_append h.decoded hvalues
    · rw [hall, h.advance_eq, hmore]

/-! ### Runs -/

theorem Follows.mono {log log' : List StreamEntry} {vs : List T} (h : Follows log vs)
    (hlog : log <+: log') : Follows log' vs := by
  obtain ⟨first, hfirst, hdecode⟩ := h
  obtain ⟨more, rfl⟩ := hlog
  refine ⟨first, ?_, hdecode⟩
  cases hclosed : (beforeSentinel log).2 with
  | true => rwa [beforeSentinel_append_of_closed hclosed]
  | false =>
    obtain ⟨hall, hopen⟩ := beforeSentinel_of_open hclosed
    rw [beforeSentinel_append hopen]
    exact (hall ▸ hfirst).trans (List.prefix_append ..)

theorem length_of_decodeEntries {l : List StreamEntry} {vs : List T}
    (h : decodeEntries T l = .ok vs) : vs.length = l.length := by
  rw [decodeEntries_eq] at h
  induction l generalizing vs with
  | nil =>
    cases h
    rfl
  | cons a l ih =>
    rw [decodeWhile] at h
    cases hv : decodeValue T (some a.value) a.serialization with
    | error e =>
      rw [hv] at h
      cases h
    | ok v =>
      rw [hv] at h
      dsimp only at h
      cases hrest : (decodeWhile T l).2 with
      | some e =>
        rw [hrest] at h
        cases h
      | none =>
        rw [hrest] at h
        cases h
        rw [List.length_cons, List.length_cons, ih (by rw [hrest])]

/-- Where all entries decode, the first ones do, and those after them. -/
theorem decodes_of_append {l l' : List StreamEntry} {vs : List T}
    (h : decodeEntries T (l ++ l') = .ok vs) :
    (∃ vs, decodeEntries T l = .ok vs) ∧ ∃ vs, decodeEntries T l' = .ok vs := by
  induction l generalizing vs with
  | nil => exact ⟨⟨[], rfl⟩, vs, h⟩
  | cons a l ih =>
    rw [List.cons_append, decodeEntries] at h
    rw [decodeEntries]
    cases hv : decodeValue T (some a.value) a.serialization with
    | error e =>
      rw [hv] at h
      cases h
    | ok v =>
      cases hrest : decodeEntries T (l ++ l') with
      | error e =>
        rw [hv, hrest] at h
        cases h
      | ok rest =>
        obtain ⟨⟨vs, hvs⟩, hafter⟩ := ih hrest
        exact ⟨⟨v :: vs, by rw [hvs]; rfl⟩, hafter⟩

namespace Watch

variable {W : Watch}

/-- The rows that were there in the round before. -/
def seen (W : Watch) : ℕ → List StreamEntry
  | 0 => []
  | n + 1 => (W.poll n).log

omit [SerdeJson] in
theorem seen_prefix (W : Watch) (n : ℕ) : W.seen n <+: (W.poll n).log := by
  cases n with
  | zero => exact List.nil_prefix
  | succ n => exact W.grows n

/-- After round `n` a reader has delivered the row with the last offset there is and goes on, and
the rows can be read once more. -/
structure Overruns (T : Type) [Serde T] (W : Watch) (n : ℕ) : Prop where
  goesOn : ∀ k ≤ n, (W.poll k).GoesOn
  isOpen : ∀ e ∈ (W.poll n).log, e.value ≠ streamClosedSentinel
  decodes : ∃ vs, decodeEntries T (W.poll n).log = .ok vs
  last : ∃ e ∈ (W.poll n).log, (e.offset : ℤ) = i32Max
  again : (W.poll (n + 1)).failure = none

/-- A reader that still runs before the last offset is reached has not seen it. -/
theorem ne_last {n : ℕ} (hnone : ∀ m < n, ¬ Overruns T W m)
    (hgoes : ∀ k < n, (W.poll k).GoesOn) {current : ℤ} {vs : List T}
    (h : Behind (W.seen n) current vs) (hok : (W.poll n).failure = none) :
    ∀ e ∈ W.seen n, (e.offset : ℤ) ≠ i32Max := by
  cases n with
  | zero => exact fun e he ↦ by cases he
  | succ m =>
    intro e he hlast
    exact hnone m (Nat.lt_succ_self m) ⟨fun k hk ↦ hgoes k (Nat.lt_succ_of_le hk), h.isOpen,
      ⟨vs, h.decoded⟩, ⟨e, he, hlast⟩, hok⟩

/-- **Run.** As long as there is no overrun, the channel gets the stream from its start, and a
reader that still runs has delivered what was there in its last round. -/
theorem followed_of_after {n : ℕ} (hnone : ∀ m < n, ¬ Overruns T W m) :
    Follows (W.seen n) (W.async T w n).values ∧
      ∀ current vs, W.async T w n = .running current vs →
        (∀ k < n, (W.poll k).GoesOn) ∧ Behind (W.seen n) current vs := by
  induction n with
  | zero =>
    refine ⟨⟨[], List.nil_prefix, rfl⟩, ?_⟩
    rintro _ _ ⟨⟩
    exact ⟨fun k hk ↦ absurd hk (Nat.not_lt_zero k), fun e he ↦ (by cases he), rfl, rfl⟩
  | succ n ih =>
    obtain ⟨hfollows, hrunning⟩ := ih fun m hm ↦ hnone m (Nat.lt_succ_of_lt hm)
    rw [async_succ]
    cases hn : W.async T w n with
    | running current vs =>
      obtain ⟨hgoes, hbehind⟩ := hrunning current vs hn
      obtain ⟨hnext, hstep⟩ := Poll.async_step (w := w) hbehind (W.seen_prefix n)
        (ne_last (fun m hm ↦ hnone m (Nat.lt_succ_of_lt hm)) hgoes hbehind)
      refine ⟨hnext, fun current' vs' h ↦ ?_⟩
      obtain ⟨hgo, hbehind'⟩ := hstep current' vs' h
      refine ⟨fun k hk ↦ ?_, hbehind'⟩
      obtain hlt | rfl := Nat.lt_succ_iff_lt_or_eq.1 hk
      · exact hgoes k hlt
      · exact hgo
    | closed vs =>
      rw [hn] at hfollows
      exact ⟨hfollows.mono (W.seen_prefix n), fun _ _ h ↦ by cases h⟩
    | failed vs e =>
      rw [hn] at hfollows
      exact ⟨hfollows.mono (W.seen_prefix n), fun _ _ h ↦ by cases h⟩

/-- The blocking reader loses its values with an error, and has them otherwise. -/
theorem followed_blocking {n : ℕ} (h : Follows (W.seen n) (W.async T w n).values) :
    Follows (W.seen n) (W.blocking T w n).values := by
  rw [blocking_eq_async]
  cases hn : W.async T w n with
  | running current vs => rwa [hn] at h
  | closed vs => rwa [hn] at h
  | failed vs e => exact ⟨[], List.nil_prefix, rfl⟩

end Watch

/-! ### The overrun -/

omit [SerdeJson] in
/-- A row with the last offset there is comes last. -/
theorem Poll.eq_nil_of_last {p : Poll} {log more : List StreamEntry} (h : p.log = log ++ more)
    {e : StreamEntry} (he : e ∈ log) (hlast : (e.offset : ℤ) = i32Max) : more = [] := by
  refine List.eq_nil_iff_forall_not_mem.2 fun e' he' ↦ ?_
  have hsorted := p.sorted
  rw [h] at hsorted
  have hlt := (List.pairwise_append.1 hsorted).2.2 e he e' he'
  have hle := p.fits e' (h ▸ List.mem_append_right _ he')
  omega

/-- Behind that row the cursor wraps. -/
theorem Behind.cursor_of_last {p : Poll} {current : ℤ} {vs : List T}
    (h : Behind p.log current vs) {e : StreamEntry} (he : e ∈ p.log)
    (hlast : (e.offset : ℤ) = i32Max) : current = i32Min := by
  obtain ⟨before, after, hsplit⟩ := List.append_of_mem he
  have hnil : after = [] :=
    Poll.eq_nil_of_last (show p.log = (before ++ [e]) ++ after by rw [hsplit]; simp) (by simp) hlast
  have hend : p.log.getLast? = some e := by
    rw [hsplit, hnil, List.getLast?_append]
    rfl
  rw [h.cursor, Poll.advance, hend, Option.elim_some, hlast]
  decide

/-- A reader that finds an active producer and rows that decode goes on. -/
theorem Poll.exists_running {p : Poll} {log : List StreamEntry} {current : ℤ} {vs all : List T}
    (h : Behind log current vs) (hlog : log <+: p.log)
    (hlast : ∀ e ∈ log, (e.offset : ℤ) ≠ i32Max) (hgo : p.GoesOn)
    (hopen : ∀ e ∈ p.log, e.value ≠ streamClosedSentinel)
    (hdecodes : decodeEntries T p.log = .ok all) :
    ∃ current' vs', p.async T w current vs = .running current' vs' := by
  obtain ⟨more, hmore, hentries⟩ := h.entries_eq hlog hgo.1 hlast
  have hmoreOpen : beforeSentinel more = (more, false) := by
    have happend : beforeSentinel (more ++ []) = _ := beforeSentinel_append fun e he ↦
      hopen e (hmore ▸ List.mem_append_right _ he)
    rwa [List.append_nil, show beforeSentinel [] = ([], false) from rfl, List.append_nil] at happend
  have hnone : (decodeWhile T more).2 = none := by
    rw [hmore] at hdecodes
    obtain ⟨vs', hvs'⟩ := (decodes_of_append hdecodes).2
    rw [decodeEntries_eq] at hvs'
    cases hrest : (decodeWhile T more).2 with
    | none => rfl
    | some e =>
      rw [hrest] at hvs'
      cases hvs'
  unfold async
  rw [hentries, hmoreOpen]
  dsimp only
  rw [hnone]
  dsimp only
  rw [if_neg Bool.false_ne_true]
  obtain hstatus | hstatus := hgo.2
  · rw [hstatus]
    exact ⟨_, _, rfl⟩
  · rw [hstatus]
    exact ⟨_, _, rfl⟩

/-- A round that starts at the lowest offset delivers all rows once more. -/
theorem Poll.async_again {p : Poll} {vs vs' : List T} (hok : p.failure = none)
    (hopen : ∀ e ∈ p.log, e.value ≠ streamClosedSentinel)
    (hdecodes : decodeEntries T p.log = .ok vs') :
    (p.async T w i32Min vs).values = vs ++ vs' := by
  have hall : p.log.filter (fun e ↦ i32Min ≤ (e.offset : ℤ)) = p.log :=
    List.filter_eq_self.2 fun e _ ↦ by
      rw [decide_eq_true_eq, i32Min]
      omega
  have hlog : beforeSentinel p.log = (p.log, false) := by
    have happend : beforeSentinel (p.log ++ []) = _ := beforeSentinel_append hopen
    rwa [List.append_nil, show beforeSentinel [] = ([], false) from rfl, List.append_nil] at happend
  have hentries : p.entries i32Min = .ok (p.log, false) := by
    rw [entries, hok]
    dsimp only
    rw [hall, hlog]
  rw [decodeEntries_eq] at hdecodes
  unfold async
  rw [hentries]
  dsimp only
  cases hnone : (decodeWhile T p.log).2 with
  | some e =>
    rw [hnone] at hdecodes
    cases hdecodes
  | none =>
    rw [hnone] at hdecodes
    cases hdecodes
    dsimp only
    rw [if_neg Bool.false_ne_true]
    rcases p.status with e | (- | status)
    · rfl
    · rfl
    · dsimp only
      split <;> rfl

/-- The readers deliver the stream from its start, each entry once, in order, and nothing at or
after the sentinel; and they come to the same end, up to the values that the blocking one loses
with an error. -/
structure ReadersAgree (T : Type) [Serde T] (w : String) (W : Watch) : Prop where
  blocking : ∀ n, Follows (W.seen n) (W.blocking T w n).values
  async : ∀ n, Follows (W.seen n) (W.async T w n).values
  closes : ∀ n vs, W.blocking T w n = .closed vs ↔ W.async T w n = .closed vs
  fails : ∀ n e, W.blocking T w n = .failed [] e ↔ ∃ vs, W.async T w n = .failed vs e

namespace Watch

variable {W : Watch}

omit [SerdeJson] in
theorem log_prefix (W : Watch) {k n : ℕ} (h : k ≤ n) : (W.poll k).log <+: (W.poll n).log := by
  induction n, h using Nat.le_induction with
  | base => exact List.prefix_rfl
  | succ n _ ih => exact ih.trans (W.grows n)

/-- Up to the first overrun the readers go on. -/
theorem Overruns.running {n : ℕ} (h : Overruns T W n) (hfirst : ∀ m < n, ¬ Overruns T W m) {k : ℕ}
    (hk : k ≤ n + 1) : ∃ current vs, W.async T w k = .running current vs ∧
      Behind (W.seen k) current vs := by
  induction k with
  | zero => exact ⟨0, [], rfl, fun e he ↦ (by cases he), rfl, rfl⟩
  | succ k ih =>
    obtain ⟨current, vs, hrunning, hbehind⟩ := ih (by omega)
    have hlast := ne_last (fun m hm ↦ hfirst m (by omega)) (fun j hj ↦ h.goesOn j (by omega))
      hbehind (h.goesOn k (by omega)).1
    have hprefix := W.log_prefix (show k ≤ n by omega)
    obtain ⟨all, hall⟩ := h.decodes
    obtain ⟨more, hmore⟩ := hprefix
    obtain ⟨⟨vs', hvs'⟩, -⟩ := decodes_of_append (hmore ▸ hall)
    obtain ⟨current', vs'', hnext⟩ := Poll.exists_running (w := w) hbehind (W.seen_prefix k) hlast
      (h.goesOn k (by omega)) (fun e he ↦ h.isOpen e (hmore ▸ List.mem_append_left _ he)) hvs'
    refine ⟨current', vs'', ?_, ?_⟩
    · rw [async_succ, hrunning]
      exact hnext
    · exact ((Poll.async_step hbehind (W.seen_prefix k) fun _ ↦ hlast).2 _ _ hnext).2

/-- After the first overrun the channel gets the whole stream again. -/
theorem Overruns.not_follows {n : ℕ} (h : Overruns T W n) (hfirst : ∀ m < n, ¬ Overruns T W m) :
    ¬ Follows (W.seen (n + 2)) (W.async T w (n + 2)).values := by
  obtain ⟨current, vs, hrunning, hbehind⟩ := h.running (w := w) hfirst le_rfl
  obtain ⟨e, he, hlast⟩ := h.last
  obtain ⟨more, hmore⟩ := W.grows n
  have hsame : (W.poll (n + 1)).log = (W.poll n).log := by
    rw [← hmore, Poll.eq_nil_of_last hmore.symm he hlast, List.append_nil]
  have hagain : (W.async T w (n + 2)).values = vs ++ vs := by
    rw [async_succ, hrunning, Behind.cursor_of_last hbehind he hlast]
    exact Poll.async_again h.again (hsame ▸ h.isOpen) (hsame ▸ hbehind.decoded)
  rintro ⟨first, hfirst, hdecode⟩
  have hlength : first.length ≤ (W.poll n).log.length :=
    hsame ▸ (hfirst.trans (beforeSentinel_spec _).1).length_le
  have hvalues := length_of_decodeEntries hdecode
  have hall : vs.length = (W.poll n).log.length := length_of_decodeEntries hbehind.decoded
  have hpos := List.length_pos_of_mem he
  rw [hagain, List.length_append] at hvalues
  omega

/-- Both readers do what they should exactly when there is no overrun. -/
theorem readersAgree_iff (T : Type) [Serde T] (w : String) (W : Watch) :
    ReadersAgree T w W ↔ ∀ n, ¬ Overruns T W n := by
  constructor
  · intro hagree
    by_contra hover
    simp only [not_forall, not_not] at hover
    classical
    exact (Nat.find_spec hover).not_follows (fun m hm ↦ Nat.find_min hover hm)
      (hagree.async (Nat.find hover + 2))
  · intro hnone
    have hasync : ∀ n, Follows (W.seen n) (W.async T w n).values := fun n ↦
      (followed_of_after fun m _ ↦ hnone m).1
    refine ⟨fun n ↦ followed_blocking (hasync n), hasync, fun n vs ↦ ?_, fun n e ↦ ?_⟩
    · rw [blocking_eq_async, ReaderState.forget_eq_closed]
    · rw [blocking_eq_async, ReaderState.forget_eq_failed]

/-! ### The programs of `Db/Operations` -/

/-- The database of the watch, at round `n`: the look at the status ends the round. -/
def reply (W : Watch) (n : ℕ) : (s : Stmt) → Except SqlError s.Res × ℕ
  | .selectStreamEntries _ _ fromOffset =>
    ((match (W.poll n).failure with
      | some e => .error e
      | none => .ok ((W.poll n).log.filter fun e ↦ fromOffset ≤ (e.offset : ℤ))), n)
  | .getStatus _ => ((W.poll n).status, n + 1)
  | _ => (.error ⟨none, ""⟩, n)

end Watch

omit [SerdeJson] in
/-- That is what the statement selects, when the rows of the log are the rows of the stream. -/
theorem streamEntries_eq_filter (db : Db) (w key : String) (fromOffset : ℤ) :
    Stmt.streamEntries db w key fromOffset =
      (Stmt.streamEntries db w key 0).filter fun e ↦ fromOffset ≤ (e.offset : ℤ) := by
  refine eq_of_mem_iff (pairwise_streamEntries ..) ((pairwise_streamEntries ..).filter _) fun e ↦ ?_
  rw [List.mem_filter, mem_streamEntries, mem_streamEntries, decide_eq_true_eq]
  constructor
  · rintro ⟨row, hrow, heq, hle⟩
    exact ⟨⟨row, hrow, heq, Int.natCast_nonneg _⟩, hle⟩
  · rintro ⟨⟨row, hrow, heq, -⟩, hle⟩
    exact ⟨row, hrow, heq, hle⟩

/-- The program ends with `r` when its statements are answered from round `n` on, and `n'` is the
round then. -/
def Served {α : Type} (W : Watch) (m : DbosM α) (n : ℕ) (r : Except DbosError α) (n' : ℕ) : Prop :=
  m.run.serve W.reply n = some (r, n')

section

variable {W : Watch} {α β : Type} {n n' n'' : ℕ}

omit [SerdeJson]

theorem served_ofExcept (r : Except DbosError α) : Served W (ofExcept r) n r n := rfl

theorem served_pure (a : α) : Served W (pure a) n (.ok a) n := rfl

theorem served_throw (e : DbosError) : Served W (throw e : DbosM α) n (.error e) n := rfl

theorem Served.bind {m : DbosM β} {f : β → DbosM α} {b : β} {r : Except DbosError α}
    (hm : Served W m n (.ok b) n') (hf : Served W (f b) n' r n'') :
    Served W (m >>= f) n r n'' :=
  (Prog.serve_bind _ _).trans (Option.bind_eq_some_iff.2 ⟨_, hm, hf⟩)

theorem Served.then {m : DbosM β} {f : β → DbosM α} {b : β} {r : Except DbosError α}
    (hm : Served W m n (.ok b) n') (hf : ∃ n'', Served W (f b) n' r n'') :
    ∃ n'', Served W (m >>= f) n r n'' := by
  obtain ⟨n'', hf⟩ := hf
  exact ⟨n'', hm.bind hf⟩

theorem Served.bind_error {m : DbosM β} (f : β → DbosM α) {e : DbosError}
    (hm : Served W m n (.error e) n') : Served W (m >>= f) n (.error e) n' :=
  (Prog.serve_bind _ _).trans (Option.bind_eq_some_iff.2 ⟨_, hm, rfl⟩)

theorem Served.attempt {m : DbosM α} {r : Except DbosError α} (hm : Served W m n r n') :
    Served W (attempt m) n (.ok r) n' :=
  (Prog.serve_bind _ _).trans (Option.bind_eq_some_iff.2 ⟨_, hm, rfl⟩)

theorem served_query (s : Stmt) :
    Served W (query s) n ((W.reply n s).1.mapError .ofSql) (W.reply n s).2 := by
  show (Prog.sql s fun r ↦ _).serve W.reply n = _
  rw [Prog.serve]
  cases (W.reply n s).1 <;> rfl

theorem served_readStreamEntries (w key : String) (current : ℤ) :
    Served W (readStreamEntries w key current) n ((W.poll n).entries current) n := by
  have hquery := served_query (W := W) (n := n) (.selectStreamEntries w key current)
  rw [Poll.entries]
  cases hfailure : (W.poll n).failure with
  | some e =>
    simp only [Watch.reply, hfailure] at hquery
    exact hquery.bind_error _
  | none =>
    simp only [Watch.reply, hfailure] at hquery
    exact hquery.bind (served_pure _)

end

namespace ReaderState

/-- What `read_stream_blocking` returns; nothing as long as it runs. -/
def returned : ReaderState T → Except DbosError (Option (List T × Bool))
  | running _ _ => .ok none
  | closed vs => .ok (some (vs, true))
  | failed _ e => .error e

/-- What `read_stream_async` has sent when it closes its channel. -/
def sent : ReaderState T → Option (List T × Option DbosError)
  | running _ _ => none
  | closed vs => some (vs, none)
  | failed vs e => some (vs, some e)

end ReaderState

section

variable {W : Watch}

/-- The program `read_stream_blocking`. -/
theorem serve_readStreamBlocking (key : String) (rounds n : ℕ) (current : ℤ) (values : List T) :
    ∃ n', Served W (readStreamBlocking T w key false rounds current values) n
      (W.after (fun p ↦ p.blocking T w) n rounds (.running current values)).returned n' := by
  induction rounds generalizing n current values with
  | zero => exact ⟨n, served_pure _⟩
  | succ k ih =>
    rw [readStreamBlocking]
    show ∃ n', Served W _ n
      (W.after _ (n + 1) k ((W.poll n).blocking T w current values)).returned n'
    have hread := served_readStreamEntries (W := W) (n := n) w key current
    have hstatus := served_query (W := W) (n := n) (.getStatus w)
    unfold Poll.blocking
    cases hentries : (W.poll n).entries current with
    | error e =>
      rw [hentries] at hread
      rw [Watch.after_of_andThen fun _ ↦ rfl]
      exact ⟨_, hread.bind_error _⟩
    | ok r =>
      rw [hentries] at hread
      obtain ⟨entries, closed⟩ := r
      refine hread.then ?_
      dsimp only
      cases decodeEntries T entries with
      | error e =>
        rw [Watch.after_of_andThen fun _ ↦ rfl]
        exact ⟨_, (served_ofExcept _).bind_error _⟩
      | ok vs =>
        refine (served_ofExcept _).then ?_
        cases closed with
        | true =>
          rw [Watch.after_of_andThen fun _ ↦ rfl]
          exact ⟨_, served_pure _⟩
        | false =>
          rw [if_neg Bool.false_ne_true, if_neg Bool.false_ne_true]
          have hreply : (W.reply n (.getStatus w)).1 = (W.poll n).status := rfl
          rw [hreply] at hstatus
          rcases hfound : (W.poll n).status with e | (- | status)
          · rw [hfound] at hstatus
            rw [Watch.after_of_andThen fun _ ↦ rfl]
            exact ⟨_, hstatus.bind_error _⟩
          · rw [hfound] at hstatus
            rw [Watch.after_of_andThen fun _ ↦ rfl]
            exact ⟨_, hstatus.bind (served_throw _)⟩
          · rw [hfound] at hstatus
            refine hstatus.then ?_
            dsimp only
            split
            · rw [Watch.after_of_andThen fun _ ↦ rfl]
              exact ⟨_, served_pure _⟩
            · exact ih ..

/-- The program `read_stream_async`, in the same way. -/
theorem serve_readStreamAsync (key : String) (rounds n : ℕ) (current : ℤ) (values : List T) :
    ∃ n', Served W (readStreamAsync T w key rounds current values) n
      (.ok (W.after (fun p ↦ p.async T w) n rounds (.running current values)).sent) n' := by
  induction rounds generalizing n current values with
  | zero => exact ⟨n, served_pure _⟩
  | succ k ih =>
    rw [readStreamAsync]
    show ∃ n', Served W _ n
      (.ok (W.after _ (n + 1) k ((W.poll n).async T w current values)).sent) n'
    have hread := (served_readStreamEntries (W := W) (n := n) w key current).attempt
    have hstatus := (served_query (W := W) (n := n) (.getStatus w)).attempt
    unfold Poll.async
    refine hread.then ?_
    cases hentries : (W.poll n).entries current with
    | error e =>
      rw [Watch.after_of_andThen fun _ ↦ rfl]
      exact ⟨_, served_pure _⟩
    | ok r =>
      obtain ⟨entries, closed⟩ := r
      dsimp only
      cases (decodeWhile T entries).2 with
      | some e =>
        rw [Watch.after_of_andThen fun _ ↦ rfl]
        exact ⟨_, served_pure _⟩
      | none =>
        dsimp only
        cases closed with
        | true =>
          rw [Watch.after_of_andThen fun _ ↦ rfl]
          exact ⟨_, served_pure _⟩
        | false =>
          rw [if_neg Bool.false_ne_true, if_neg Bool.false_ne_true]
          refine hstatus.then ?_
          rw [show (W.reply n (.getStatus w)).1 = (W.poll n).status from rfl]
          rcases (W.poll n).status with e | (- | status)
          · rw [Watch.after_of_andThen fun _ ↦ rfl]
            exact ⟨_, served_pure _⟩
          · rw [Watch.after_of_andThen fun _ ↦ rfl]
            exact ⟨_, served_pure _⟩
          · dsimp only [Except.mapError]
            split
            · rw [Watch.after_of_andThen fun _ ↦ rfl]
              exact ⟨_, served_pure _⟩
            · exact ih ..

end

end

section

local instance pollsJson : SerdeJson := JsonText.jsonText

/-- A stream with one row, at the last offset there is, whose producer works on. -/
def lastOffsetPoll : Poll where
  log := [⟨"5", 2147483647, some Format.portable.name⟩]
  sorted := List.pairwise_singleton _ _
  fits := by decide
  failure := none
  status := .ok (some .pending)

def lastOffsetWatch : Watch where
  poll _ := lastOffsetPoll
  grows _ := List.prefix_rfl

/-- The readers deliver the only row twice in two rounds. -/
theorem lastOffsetWatch_repeats :
    (lastOffsetWatch.seen 2).length = 1 ∧
      (lastOffsetWatch.async Json "w" 2).values.length = 2 ∧
      (lastOffsetWatch.blocking Json "w" 2).values.length = 2 ∧
      ¬ ReadersAgree Json "w" lastOffsetWatch := by
  have hdecode : decodeEntries Json lastOffsetPoll.log = .ok [.number (.int 5)] := by
    rfl
  have hover : Watch.Overruns Json lastOffsetWatch 0 :=
    ⟨fun _ _ ↦ ⟨rfl, Or.inl rfl⟩, by decide, ⟨_, hdecode⟩, by decide, rfl⟩
  refine ⟨rfl, by decide +kernel, by decide +kernel, fun h ↦ ?_⟩
  exact hover.not_follows (fun m hm ↦ absurd hm (Nat.not_lt_zero m)) (h.async 2)

end

end Dbos

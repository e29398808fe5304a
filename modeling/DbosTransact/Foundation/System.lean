import DbosTransact.Foundation.Logic
import DbosTransact.Foundation.Run

/-!
# What every run of a system keeps

The invariants of `System` that hold whatever programs are run, and the lift of the session logic
to a system.

* `Locked`: the rows two open transactions have written are different, and the rows an open
  transaction has replaced are still the committed ones. This is what row locks are for.
* `Consistent`: the history is a chain of transactions leading from the initial to the present
  database, every snapshot still in use shows the state after some number of those commits, and
  every committed repeatable-read transaction was decided on such a state.
* `Sound`: if every spawned program meets its specification on its own, every commit meets the
  guarantee and every session is still meeting its specification.
-/

namespace Txn

variable {Db Key : Type} {Row : Key → Type} {Stmt : Type} {Res : Stmt → Type}
variable {Err Plan Ask : Type} {Ans : Ask → Type} {ρ : Type}

namespace System

variable {E : Engine Db Key Row Stmt Res Err Plan}
variable {valid : Moment Db → (q : Ask) → Ans q → Bool}
variable {S S' : System Db Key Row Stmt Res Err Ask Ans ρ} {a : Option (Answer Db Ask Ans)}

theorem mem_others {i : ℕ} {o : Write Key Row Stmt} :
    o ∈ S.others i ↔ ∃ j t, j ≠ i ∧ S.sessions.lookup j = some t ∧ o ∈ t.conn.writes := by
  constructor
  · intro h
    obtain ⟨⟨j, t⟩, hjt, ho⟩ := List.mem_flatMap.1 h
    obtain ⟨hmem, hne⟩ := List.mem_filter.1 hjt
    exact ⟨j, t, by simpa using hne, Table.mem_rows_iff.1 hmem, ho⟩
  · rintro ⟨j, t, hne, hjt, ho⟩
    exact List.mem_flatMap.2 ⟨(j, t),
      List.mem_filter.2 ⟨Table.mem_rows_iff.2 hjt, by simpa using hne⟩, ho⟩

@[simp] theorem sessions_update (i : ℕ) (s : Session Db Key Row Stmt Res Err Ask Ans ρ)
    (c : Committed Db Key Row Stmt) (a : Option (Answer Db Ask Ans)) :
    (S.update E i s c a).sessions = S.sessions.insert i s := by
  cases c <;> rfl

@[simp] theorem moment_update (i : ℕ) (s : Session Db Key Row Stmt Res Err Ask Ans ρ)
    (c : Committed Db Key Row Stmt) (a : Option (Answer Db Ask Ans)) :
    (S.update E i s c a).moment = S.moment.advance E c := by
  cases c <;> rfl

@[simp] theorem answers_update (i : ℕ) (s : Session Db Key Row Stmt Res Err Ask Ans ρ)
    (c : Committed Db Key Row Stmt) (a : Option (Answer Db Ask Ans)) :
    (S.update E i s c a).answers = S.answers ++ a.toList.map (i, ·) := by
  cases c <;> rfl

/-- The commits a step adds to the history. -/
theorem history_update (i : ℕ) (s : Session Db Key Row Stmt Res Err Ask Ans ρ)
    (c : Committed Db Key Row Stmt) (a : Option (Answer Db Ask Ans)) :
    (S.update E i s c a).history = S.history ++ (S.moment.effects c).map fun e ↦ ⟨e, i⟩ := by
  cases c with
  | none => simp [update]
  | some t => rfl

/-- Everything one step of a system can be. -/
inductive Steps (E : Engine Db Key Row Stmt Res Err Plan)
    (valid : Moment Db → (q : Ask) → Ans q → Bool)
    (S : System Db Key Row Stmt Res Err Ask Ans ρ) :
    Label Stmt Res Err Plan Ask Ans ρ → System Db Key Row Stmt Res Err Ask Ans ρ → Prop
  | tick (d : ℕ) :
      Steps E valid S (.tick d) { S with moment := { S.moment with time := S.moment.time + d } }
  | crash (i : ℕ) : Steps E valid S (.crash i) { S with sessions := S.sessions.erase i }
  | spawn {i : ℕ} {p : Prog Stmt Res Err Ask Ans ρ} : S.sessions.lookup i = none →
      (∀ c ∈ S.history, c.session ≠ i) → (∀ a ∈ S.answers, a.1 ≠ i) →
      Steps E valid S (.spawn i p) (S.update E i (Session.resume p .idle) none none)
  | session {l : Label Stmt Res Err Plan Ask Ans ρ} {i : ℕ}
      {s s' : Session Db Key Row Stmt Res Err Ask Ans ρ} {c : Committed Db Key Row Stmt}
      {a : Option (Answer Db Ask Ans)} :
      (∀ p, l ≠ .spawn i p) → (∀ j, j ≠ i → l.concerns j = false) →
      S.sessions.lookup i = some s →
      (∀ st k, s.prog = .sql st k → s.issued = none → l = .issue i) →
      Session.Step E valid (l.faults i = true) (S.others i) S.moment s s' c a →
      Steps E valid S l (S.update E i s' c a)

theorem steps_of_step {l : Label Stmt Res Err Plan Ask Ans ρ} (h : S.step E valid l = some S') :
    Steps E valid S l S' := by
  cases l with
  | spawn i p =>
    simp only [step] at h
    split at h
    · rename_i hfree
      cases h
      simp only [unused, Bool.and_eq_true, Option.isNone_iff_eq_none, List.all_eq_true,
        bne_iff_ne] at hfree
      exact .spawn hfree.1.1 hfree.1.2 hfree.2
    · cases h
  | issue i =>
    simp only [step, Option.bind_eq_bind, Option.bind_eq_some_iff] at h
    obtain ⟨s, hs, s', hs', heq⟩ := h
    cases heq
    exact .session (by simp) (fun _ hj ↦ decide_eq_false hj.symm) hs (fun _ _ _ _ ↦ rfl)
      (.issue hs')
  | finish i plan =>
    simp only [step, Option.bind_eq_bind, Option.bind_eq_some_iff] at h
    obtain ⟨s, hs, ⟨s', c⟩, hs', heq⟩ := h
    cases heq
    refine .session (by simp) (fun _ hj ↦ decide_eq_false hj.symm) hs (fun st k hst hn ↦ ?_)
      (.finish plan none (by simp) hs')
    simp [Session.finish, hst, hn] at hs'
  | fail i e =>
    simp only [step, Option.bind_eq_bind, Option.bind_eq_some_iff] at h
    obtain ⟨s, hs, s', hs', heq⟩ := h
    cases heq
    refine .session (by simp) (fun _ hj ↦ decide_eq_false hj.symm) hs (fun st k hst hn ↦ ?_)
      (.fail e (by simp [Label.faults]) hs')
    simp [Session.fail, hst, hn] at hs'
  | lost i plan e =>
    simp only [step, Option.bind_eq_bind, Option.bind_eq_some_iff] at h
    obtain ⟨s, hs, ⟨s', c⟩, hs', heq⟩ := h
    cases heq
    refine .session (by simp) (fun _ hj ↦ decide_eq_false hj.symm) hs (fun st k hst hn ↦ ?_)
      (.finish plan (some e) (by simp [Label.faults]) hs')
    simp [Session.finish, hst, hn] at hs'
  | answer i o =>
    simp only [step, Option.bind_eq_bind, Option.bind_eq_some_iff] at h
    obtain ⟨s, hs, ⟨s', a⟩, hs', heq⟩ := h
    cases heq
    refine .session (by simp) (fun _ hj ↦ decide_eq_false hj.symm) hs (fun st k hst hn ↦ ?_)
      (.answer o hs')
    simp [Session.answer, hst, hn] at hs'
  | crash i =>
    simp only [step, Option.bind_eq_bind, Option.bind_eq_some_iff] at h
    obtain ⟨s, hs, heq⟩ := h
    cases heq
    exact .crash i
  | tick d =>
    cases h
    exact .tick d

theorem Steps.before {l : Label Stmt Res Err Plan Ask Ans ρ} (h : Steps E valid S l S') :
    S.moment.Before S'.moment := by
  cases h with
  | tick d => exact ⟨Int.le_add_of_nonneg_right (Int.natCast_nonneg d), le_rfl, fun _ ↦ rfl⟩
  | crash i => exact .refl _
  | spawn hnone hnew hunasked => exact .refl _
  | session hl _ hs _ hstep =>
    rw [moment_update]
    exact Moment.before_advance E _ _

/-- A step commits one transaction, or it commits none and may get an answer. -/
theorem adds_of_step {l : Label Stmt Res Err Plan Ask Ans ρ} (h : S.step E valid l = some S') :
    (S'.history = S.history ∧ ∃ as, S'.answers = S.answers ++ as ∧
        ∀ a ∈ as, a.2.moment = S.moment) ∨
      ∃ c, S'.history = S.history ++ [c] ∧ S'.answers = S.answers := by
  have nothing : ∃ as, S.answers = S.answers ++ as ∧ ∀ a ∈ as, a.2.moment = S.moment :=
    ⟨[], by simp, by simp⟩
  cases steps_of_step h with
  | tick d => exact Or.inl ⟨rfl, nothing⟩
  | crash i => exact Or.inl ⟨rfl, nothing⟩
  | spawn hnone hnew hunasked => exact Or.inl ⟨rfl, by simp [update]⟩
  | @session _ i s s' c a hl _ hs hsent hstep =>
    cases c with
    | none =>
      refine Or.inl ⟨by simp [history_update], a.toList.map (i, ·), rfl, fun b hb ↦ ?_⟩
      obtain ⟨b', hb', rfl⟩ := List.mem_map.1 hb
      exact hstep.answered b' (Option.mem_toList.1 hb')
    | some t =>
      refine Or.inr ⟨⟨⟨S.moment, t.1, t.2⟩, i⟩, rfl, ?_⟩
      rw [show a = none from hstep.quiet rfl]
      simp [update]

theorem history_of_step {l : Label Stmt Res Err Plan Ask Ans ρ} (h : S.step E valid l = some S') :
    S'.history = S.history ∨ ∃ c, S'.history = S.history ++ [c] :=
  (adds_of_step h).imp And.left fun ⟨c, hc⟩ ↦ ⟨c, hc.1⟩

/-- A step of session `i` after which it has not committed anything yet leaves the database as it
is. -/
theorem db_of_step_of_forall_ne {l : Label Stmt Res Err Plan Ask Ans ρ} {i : ℕ}
    (h : S.step E valid l = some S') (hl : l.concerns i = true)
    (hnone : ∀ c ∈ S'.history, c.session ≠ i) : S'.moment.db = S.moment.db := by
  cases steps_of_step h with
  | tick d => cases hl
  | crash j => rfl
  | spawn _ _ _ => rfl
  | @session _ j s s' c a _ hother _ _ _ =>
    cases c with
    | none => simp
    | some t =>
      exfalso
      refine hnone ⟨⟨S.moment, t.1, t.2⟩, j⟩ (by simp [history_update]) ?_
      by_contra hne
      rw [hother i (Ne.symm hne)] at hl
      cases hl

/-! ### Row locks -/

/-- The lock discipline. -/
structure Locked (E : Engine Db Key Row Stmt Res Err Plan)
    (S : System Db Key Row Stmt Res Err Ask Ans ρ) : Prop where
  chain : ∀ {i s}, S.sessions.lookup i = some s → E.Chain S.moment.db s.conn.writes
  legal : ∀ {i s}, S.sessions.lookup i = some s → ∀ w ∈ s.conn.writes, E.legal w
  disjoint : ∀ {i j s t}, i ≠ j → S.sessions.lookup i = some s → S.sessions.lookup j = some t →
    ∀ w ∈ s.conn.writes, ∀ o ∈ t.conn.writes, w.key ≠ o.key

theorem locked_init (db : Db) (time : ℤ) :
    Locked E (init db time : System Db Key Row Stmt Res Err Ask Ans ρ) :=
  ⟨fun h ↦ by simp [init] at h, fun h ↦ by simp [init] at h, fun _ h ↦ by simp [init] at h⟩

/-- The rows another session holds are untouched by what session `i` writes. -/
theorem Locked.look_apply (hL : Locked E S) {i j : ℕ}
    {s t : Session Db Key Row Stmt Res Err Ask Ans ρ} (hij : i ≠ j)
    (hs : S.sessions.lookup i = some s) (ht : S.sessions.lookup j = some t)
    {ws : List (Write Key Row Stmt)} (hws : ∀ w ∈ ws, ∀ o ∈ S.others i, w.key ≠ o.key)
    {o : Write Key Row Stmt} (ho : o ∈ t.conn.writes) :
    E.look (E.apply S.moment.db (s.conn.writes ++ ws)) o.key = E.look S.moment.db o.key := by
  refine E.look_apply_of_forall_ne fun w hw ↦ ?_
  rcases List.mem_append.1 hw with hw | hw
  · exact hL.disjoint hij hs ht w hw o ho
  · exact hws w hw o (mem_others.2 ⟨j, t, hij.symm, ht, ho⟩)

/-- Replacing a session by one that holds no rows, without a commit, keeps the lock discipline. -/
theorem Locked.insert_released (hL : Locked E S) (i : ℕ)
    {s' : Session Db Key Row Stmt Res Err Ask Ans ρ} (hs' : s'.conn.writes = []) :
    Locked E (S.update E i s' none a) := by
  constructor
  · intro j t ht
    rw [sessions_update] at ht
    by_cases hj : j = i
    · subst hj
      rw [AList.lookup_insert] at ht
      cases ht
      rw [hs']
      trivial
    · rw [AList.lookup_insert_ne hj] at ht
      exact hL.chain ht
  · intro j t ht
    rw [sessions_update] at ht
    by_cases hj : j = i
    · subst hj
      rw [AList.lookup_insert] at ht
      cases ht
      simp [hs']
    · rw [AList.lookup_insert_ne hj] at ht
      exact hL.legal ht
  · intro j k t u hjk ht hu w hw o ho
    rw [sessions_update] at ht hu
    by_cases hj : j = i
    · subst hj
      rw [AList.lookup_insert] at ht
      cases ht
      rw [hs'] at hw
      cases hw
    · rw [AList.lookup_insert_ne hj] at ht
      by_cases hk : k = i
      · subst hk
        rw [AList.lookup_insert] at hu
        cases hu
        rw [hs'] at ho
        cases ho
      · rw [AList.lookup_insert_ne hk] at hu
        exact hL.disjoint hjk ht hu w hw o ho

/-- A session that writes more rows, none of them held by another, keeps the lock discipline. -/
theorem Locked.insert_extended (hL : Locked E S) {i : ℕ}
    {s s' : Session Db Key Row Stmt Res Err Ask Ans ρ} (hs : S.sessions.lookup i = some s)
    {ws : List (Write Key Row Stmt)}
    (hws : Session.Writable E (S.others i) (E.apply S.moment.db s.conn.writes) ws)
    (hs' : s'.conn.writes = s.conn.writes ++ ws) : Locked E (S.update E i s' none a) := by
  -- no row of the extended session is held by another one
  have hfree : ∀ {j t}, j ≠ i → S.sessions.lookup j = some t →
      ∀ w ∈ s'.conn.writes, ∀ o ∈ t.conn.writes, w.key ≠ o.key := by
    intro j t hj ht w hw o ho
    rw [hs'] at hw
    rcases List.mem_append.1 hw with hw | hw
    · exact hL.disjoint hj.symm hs ht w hw o ho
    · exact hws.free w hw o (mem_others.2 ⟨j, t, hj, ht, ho⟩)
  constructor
  · intro j t ht
    rw [sessions_update] at ht
    by_cases hj : j = i
    · subst hj
      rw [AList.lookup_insert] at ht
      cases ht
      rw [hs']
      exact E.chain_append.2 ⟨hL.chain hs, hws.chain⟩
    · rw [AList.lookup_insert_ne hj] at ht
      exact hL.chain ht
  · intro j t ht
    rw [sessions_update] at ht
    by_cases hj : j = i
    · subst hj
      rw [AList.lookup_insert] at ht
      cases ht
      rw [hs']
      exact fun w hw ↦ (List.mem_append.1 hw).elim (hL.legal hs w) (hws.legal w)
    · rw [AList.lookup_insert_ne hj] at ht
      exact hL.legal ht
  · intro j k t u hjk ht hu w hw o ho
    rw [sessions_update] at ht hu
    by_cases hj : j = i
    · subst hj
      rw [AList.lookup_insert] at ht
      cases ht
      rw [AList.lookup_insert_ne (Ne.symm hjk)] at hu
      exact hfree (Ne.symm hjk) hu w hw o ho
    · rw [AList.lookup_insert_ne hj] at ht
      by_cases hk : k = i
      · subst hk
        rw [AList.lookup_insert] at hu
        cases hu
        exact (hfree hj ht o ho w hw).symm
      · rw [AList.lookup_insert_ne hk] at hu
        exact hL.disjoint hjk ht hu w hw o ho

/-- A commit of the rows held keeps the lock discipline of the other sessions. -/
theorem Locked.insert_committed (hL : Locked E S) {i : ℕ}
    {s s' : Session Db Key Row Stmt Res Err Ask Ans ρ} (hs : S.sessions.lookup i = some s)
    {ws : List (Write Key Row Stmt)} (hws : ∀ w ∈ ws, ∀ o ∈ S.others i, w.key ≠ o.key)
    (hs' : s'.conn.writes = []) (snap : Option (Moment Db)) :
    Locked E (S.update E i s' (some (snap, s.conn.writes ++ ws)) a) := by
  have hreleased : Locked E (S.update E i s' none a) := hL.insert_released i hs'
  refine ⟨fun {j t} ht ↦ ?_, fun {j t} ht ↦ ?_, fun {j k t u} hjk ht hu ↦ ?_⟩
  · rw [sessions_update] at ht
    rw [moment_update, Moment.advance_some]
    by_cases hj : j = i
    · subst hj
      rw [AList.lookup_insert] at ht
      cases ht
      rw [hs']
      trivial
    · rw [AList.lookup_insert_ne hj] at ht
      exact (hL.chain ht).congr _ fun o ho ↦ hL.look_apply (Ne.symm hj) hs ht hws ho
  · rw [sessions_update] at ht
    exact hreleased.legal (by rwa [sessions_update])
  · rw [sessions_update] at ht hu
    exact hreleased.disjoint hjk (by rwa [sessions_update]) (by rwa [sessions_update])

theorem Locked.step (hL : Locked E S) {l : Label Stmt Res Err Plan Ask Ans ρ}
    (h : S.step E valid l = some S') : Locked E S' := by
  cases steps_of_step h with
  | tick d => exact ⟨hL.chain, hL.legal, hL.disjoint⟩
  | crash i =>
    have herase :
        ∀ {j t}, (S.sessions.erase i).lookup j = some t → S.sessions.lookup j = some t := by
      intro j t ht
      by_cases hj : j = i
      · subst hj
        rw [AList.lookup_erase] at ht
        cases ht
      · rwa [AList.lookup_erase_ne hj] at ht
    exact ⟨fun ht ↦ hL.chain (herase ht), fun ht ↦ hL.legal (herase ht),
      fun hjk ht hu ↦ hL.disjoint hjk (herase ht) (herase hu)⟩
  | spawn hnone hnew hunasked => exact hL.insert_released _ rfl
  | session hl _ hs _ hstep =>
    cases hstep.moves with
    | extend ws hws hs' => exact hL.insert_extended hs hws hs'
    | release hs' => exact hL.insert_released _ hs'
    | commit snap ws all hall hws hs' hsnap =>
      subst hall
      exact hL.insert_committed hs hws.free hs' snap

/-- What a session commits is a chain of legal writes from the committed state. -/
theorem Locked.committed (hL : Locked E S) {i : ℕ}
    {s s' : Session Db Key Row Stmt Res Err Ask Ans ρ} (hs : S.sessions.lookup i = some s)
    {c : Committed Db Key Row Stmt} {faulty : Prop}
    (h : Session.Step E valid faulty (S.others i) S.moment s s' c a) :
    ∀ t ∈ c, E.Chain S.moment.db t.2 ∧ ∀ w ∈ t.2, E.legal w := by
  intro t ht
  cases h.moves with
  | extend ws hws hs' => cases ht
  | release hs' => cases ht
  | commit snap ws all hall hws hs' hsnap =>
    cases ht
    rw [hall]
    exact ⟨E.chain_append.2 ⟨hL.chain hs, hws.chain⟩,
      fun w hw ↦ (List.mem_append.1 hw).elim (hL.legal hs w) (hws.legal w)⟩

/-! ### The history -/

/-- The writes of a history, in order. -/
def written (h : List (Commit Db Key Row Stmt)) : List (Write Key Row Stmt) :=
  h.flatMap fun c ↦ c.writes

@[simp] theorem written_nil : written ([] : List (Commit Db Key Row Stmt)) = [] := rfl

@[simp] theorem written_append (h h' : List (Commit Db Key Row Stmt)) :
    written (h ++ h') = written h ++ written h' :=
  List.flatMap_append ..

@[simp] theorem written_singleton (c : Commit Db Key Row Stmt) : written [c] = c.writes := by
  simp [written]

/-- The committed state after the first `n` transactions of a history. -/
def stateAt (E : Engine Db Key Row Stmt Res Err Plan) (db₀ : Db)
    (h : List (Commit Db Key Row Stmt)) (n : ℕ) : Db :=
  E.apply db₀ (written (h.take n))

theorem stateAt_append (db₀ : Db) {h h' : List (Commit Db Key Row Stmt)} {n : ℕ}
    (hn : n ≤ h.length) : stateAt E db₀ (h ++ h') n = stateAt E db₀ h n := by
  rw [stateAt, stateAt, List.take_append_of_le_length hn]

theorem stateAt_succ (db₀ : Db) {h : List (Commit Db Key Row Stmt)} {n : ℕ}
    {c : Commit Db Key Row Stmt} (hc : h[n]? = some c) :
    stateAt E db₀ h (n + 1) = E.apply (stateAt E db₀ h n) c.writes := by
  rw [stateAt, List.take_add_one, hc, written_append, E.apply_append]
  simp [stateAt]

/-- A later state is an earlier one after the transactions between them. -/
theorem stateAt_of_le (db₀ : Db) (h : List (Commit Db Key Row Stmt)) {n m : ℕ} (hnm : n ≤ m) :
    stateAt E db₀ h m = E.apply (stateAt E db₀ h n) (written ((h.take m).drop n)) := by
  have hsplit : h.take m = h.take n ++ (h.take m).drop n := by
    conv_lhs => rw [← List.take_append_drop n (h.take m), List.take_take, min_eq_left hnm]
  rw [stateAt, stateAt, hsplit, written_append, E.apply_append, ← hsplit]

/-- `b` shows the state after some number of the commits made so far, and was taken after them. -/
structure Shows (E : Engine Db Key Row Stmt Res Err Plan) (db₀ : Db)
    (h : List (Commit Db Key Row Stmt)) (b : Moment Db) : Prop where
  bound : b.xid ≤ h.length
  db : b.db = stateAt E db₀ h b.xid
  past : ∀ c ∈ h.take b.xid, c.moment.time ≤ b.time

theorem Shows.append {db₀ : Db} {h : List (Commit Db Key Row Stmt)} {b : Moment Db}
    (hb : Shows E db₀ h b) (h' : List (Commit Db Key Row Stmt)) : Shows E db₀ (h ++ h') b where
  bound := hb.bound.trans (by simp)
  db := by rw [hb.db, stateAt_append db₀ hb.bound]
  past := by
    rw [List.take_append_of_le_length hb.bound]
    exact hb.past

/-- The history leads from `db₀` to the present state, and every snapshot shows one of the states
on the way. -/
structure Consistent (E : Engine Db Key Row Stmt Res Err Plan) (db₀ : Db)
    (S : System Db Key Row Stmt Res Err Ask Ans ρ) : Prop where
  locked : Locked E S
  chain : E.Chain db₀ (written S.history)
  legal : ∀ w ∈ written S.history, E.legal w
  now : S.moment.xid = S.history.length ∧ S.moment.db = E.apply db₀ (written S.history)
  snapshot : ∀ {i : ℕ} {s : Session Db Key Row Stmt Res Err Ask Ans ρ} {b : Moment Db},
    S.sessions.lookup i = some s → b ∈ s.snapshots →
    b.Before S.moment ∧ Shows E db₀ S.history b
  commit : ∀ {n : ℕ} {c : Commit Db Key Row Stmt}, S.history[n]? = some c →
    c.moment.xid = n ∧ c.moment.Before S.moment ∧ Shows E db₀ S.history c.moment ∧
    E.Chain c.moment.db c.writes ∧ ∀ b ∈ c.snapshot, b.Before c.moment ∧ Shows E db₀ S.history b

theorem consistent_init (db : Db) (time : ℤ) :
    Consistent E db (init db time : System Db Key Row Stmt Res Err Ask Ans ρ) where
  locked := locked_init db time
  chain := trivial
  legal := by simp [init]
  now := ⟨rfl, rfl⟩
  snapshot h := by simp [init] at h
  commit h := by simp [init] at h

theorem Consistent.shows_now {db₀ : Db} (hC : Consistent E db₀ S) :
    Shows E db₀ S.history S.moment where
  bound := hC.now.1.le
  db := by rw [hC.now.2, stateAt, hC.now.1, List.take_length]
  past := by
    intro c hc
    obtain ⟨n, hn⟩ := List.mem_iff_getElem?.1 (List.mem_of_mem_take hc)
    exact (hC.commit hn).2.1.1

/-- The state before a commit. -/
theorem Consistent.before {db₀ : Db} (hC : Consistent E db₀ S) {n : ℕ} {c : Commit Db Key Row Stmt}
    (hc : S.history[n]? = some c) : c.moment.db = stateAt E db₀ S.history n := by
  obtain ⟨hxid, -, hshows, -, -⟩ := hC.commit hc
  rw [hshows.db, hxid]

/-- The transactions between two states are a chain from the earlier one. -/
theorem Consistent.chain_between {db₀ : Db} (hC : Consistent E db₀ S) {n m : ℕ} (hnm : n ≤ m) :
    E.Chain (stateAt E db₀ S.history n) (written ((S.history.take m).drop n)) := by
  have hall : written S.history = written (S.history.take n) ++
      (written ((S.history.take m).drop n) ++ written (S.history.drop m)) := by
    rw [← written_append, ← written_append]
    refine congrArg written ?_
    conv_lhs => rw [← List.take_append_drop m S.history,
      ← List.take_append_drop n (S.history.take m), List.take_take, min_eq_left hnm]
    rw [List.append_assoc]
  have hchain := hC.chain
  rw [hall, E.chain_append, E.chain_append] at hchain
  exact hchain.2.1

/-- A write between two states is a write of the history, of a transaction committed between them.
-/
theorem exists_commit_of_written {h : List (Commit Db Key Row Stmt)} {n m : ℕ}
    {w : Write Key Row Stmt} (hw : w ∈ written ((h.take m).drop n)) :
    w ∈ written h ∧ ∃ j c, n ≤ j ∧ j < m ∧ h[j]? = some c ∧ w ∈ c.writes := by
  obtain ⟨c, hc, hw⟩ := List.mem_flatMap.1 hw
  refine ⟨List.mem_flatMap.2 ⟨c, List.mem_of_mem_take (List.mem_of_mem_drop hc), hw⟩, ?_⟩
  obtain ⟨j, hj⟩ := List.mem_iff_getElem?.1 hc
  rw [List.getElem?_drop] at hj
  have hjm : n + j < m := by
    by_contra hle
    rw [List.getElem?_eq_none (by rw [List.length_take]; omega)] at hj
    cases hj
  rw [List.getElem?_take_of_lt hjm] at hj
  exact ⟨n + j, c, Nat.le_add_right n j, hjm, hj, hw⟩

/-- What the row of a key satisfies in one state it satisfies in a later one, when every write
between the two keeps it. -/
theorem Consistent.keeps {db₀ : Db} (hC : Consistent E db₀ S) {n m : ℕ} (hnm : n ≤ m) {k : Key}
    {P : Option (Row k) → Prop} (hP : P (E.look (stateAt E db₀ S.history n) k))
    (hkeep : ∀ old new s, ⟨k, old, new, s⟩ ∈ written ((S.history.take m).drop n) →
      ⟨k, old, new, s⟩ ∈ written S.history → P old → P new) :
    P (E.look (stateAt E db₀ S.history m) k) := by
  rw [stateAt_of_le db₀ S.history hnm]
  exact (hC.chain_between hnm).keeps hP fun old new s hw ↦
    hkeep old new s hw (exists_commit_of_written hw).1

theorem Consistent.update {db₀ : Db} (hC : Consistent E db₀ S) {i : ℕ}
    {s' : Session Db Key Row Stmt Res Err Ask Ans ρ} {c : Committed Db Key Row Stmt}
    (hL : Locked E (S.update E i s' c a))
    (hchain : ∀ t ∈ c, E.Chain S.moment.db t.2 ∧ ∀ w ∈ t.2, E.legal w)
    (hsnap : ∀ b ∈ s'.snapshots, b.Before S.moment ∧ Shows E db₀ S.history b)
    (hcommit : ∀ t ∈ c, ∀ b ∈ t.1, b.Before S.moment ∧ Shows E db₀ S.history b) :
    Consistent E db₀ (S.update E i s' c a) where
  locked := hL
  chain := by
    rw [history_update, written_append, E.chain_append]
    refine ⟨hC.chain, ?_⟩
    cases c with
    | none => trivial
    | some t =>
      rw [← hC.now.2]
      simpa using (hchain t rfl).1
  legal := by
    intro w hw
    rw [history_update, written_append] at hw
    rcases List.mem_append.1 hw with hw | hw
    · exact hC.legal w hw
    · cases c with
      | none => simp at hw
      | some t =>
        rw [Moment.effects_some, List.map_singleton, written_singleton] at hw
        exact (hchain t rfl).2 w hw
  now := by
    rw [history_update, moment_update]
    cases c with
    | none => simpa using hC.now
    | some t =>
      refine ⟨by simp [Moment.after, hC.now.1], ?_⟩
      simp [Moment.after, hC.now.2, E.apply_append]
  snapshot := by
    intro j t b ht hb
    rw [sessions_update] at ht
    rw [moment_update, history_update]
    have hold : b.Before S.moment ∧ Shows E db₀ S.history b := by
      by_cases hj : j = i
      · subst hj
        rw [AList.lookup_insert] at ht
        cases ht
        exact hsnap b hb
      · rw [AList.lookup_insert_ne hj] at ht
        exact hC.snapshot ht hb
    exact ⟨hold.1.trans (Moment.before_advance E _ _), hold.2.append _⟩
  commit := by
    intro n d hd
    rw [history_update] at hd ⊢
    rw [moment_update]
    by_cases hn : n < S.history.length
    · rw [List.getElem?_append_left hn] at hd
      obtain ⟨hxid, hbefore, hshows, hch, hsn⟩ := hC.commit hd
      exact ⟨hxid, hbefore.trans (Moment.before_advance E _ _), hshows.append _, hch,
        fun b hb ↦ ⟨(hsn b hb).1, (hsn b hb).2.append _⟩⟩
    · rw [List.getElem?_append_right (by omega)] at hd
      cases c with
      | none => simp at hd
      | some t =>
        rw [Moment.effects_some, List.map_singleton, List.getElem?_singleton] at hd
        split at hd
        · cases hd
          refine ⟨by rw [hC.now.1]; omega, Moment.before_advance E _ _, hC.shows_now.append _,
            (hchain t rfl).1, fun b hb ↦ ?_⟩
          exact ⟨(hcommit t rfl b hb).1, (hcommit t rfl b hb).2.append _⟩
        · cases hd

theorem Consistent.step {db₀ : Db} (hC : Consistent E db₀ S)
    {l : Label Stmt Res Err Plan Ask Ans ρ} (h : S.step E valid l = some S') :
    Consistent E db₀ S' := by
  have hL := hC.locked.step h
  cases steps_of_step h with
  | tick d =>
    have hbefore : S.moment.Before { S.moment with time := S.moment.time + d } :=
      ⟨Int.le_add_of_nonneg_right (Int.natCast_nonneg d), le_rfl, fun _ ↦ rfl⟩
    refine ⟨hL, hC.chain, hC.legal, hC.now, fun hs hb ↦ ?_, fun hd ↦ ?_⟩
    · obtain ⟨h₁, h₂⟩ := hC.snapshot hs hb
      exact ⟨h₁.trans hbefore, h₂⟩
    · obtain ⟨h₁, h₂, h₃⟩ := hC.commit hd
      exact ⟨h₁, h₂.trans hbefore, h₃⟩
  | crash i =>
    refine ⟨hL, hC.chain, hC.legal, hC.now, fun {j t b} ht hb ↦ ?_, hC.commit⟩
    have hj : j ≠ i := by
      rintro rfl
      simp at ht
    rw [AList.lookup_erase_ne hj] at ht
    exact hC.snapshot ht hb
  | spawn hnone hnew hunasked =>
    exact hC.update hL (by simp) (by simp [Session.snapshots, Session.resume, Conn.snapshots])
      (by simp)
  | session hl _ hs _ hstep =>
    have hsnap : ∀ b ∈ _, b.Before S.moment ∧ Shows E db₀ S.history b := fun b hb ↦ by
      rcases hstep.mem_snapshots hb with hb | rfl
      · exact hC.snapshot hs hb
      · exact ⟨.refl _, hC.shows_now⟩
    refine hC.update hL (hC.locked.committed hs hstep) hsnap fun t ht b hb ↦ ?_
    cases hstep.moves with
    | extend ws hws hs' => cases ht
    | release hs' => cases ht
    | commit snap ws all hall hws hs' hold =>
      cases ht
      exact hC.snapshot hs (hold b hb)

/-- Every reachable state of a system is consistent. -/
theorem consistent_of_run {db : Db} {time : ℤ}
    {ok : System Db Key Row Stmt Res Err Ask Ans ρ → Label Stmt Res Err Plan Ask Ans ρ → Prop}
    (h : Run (step E valid) ok (init db time) S) : Consistent E db S :=
  h.invariant (consistent_init db time) fun _ _ _ hC _ hs ↦ hC.step hs

/-- Every state a run passes through is one that its history leads to. -/
theorem run_to_from {db : Db} {S₀ : System Db Key Row Stmt Res Err Ask Ans ρ}
    {ok : System Db Key Row Stmt Res Err Ask Ans ρ → Label Stmt Res Err Plan Ask Ans ρ → Prop}
    (h₀ : Consistent E db S₀) (h : Run (step E valid) ok S₀ S) :
    Shows E db S.history S₀.moment ∧
      Run (step E valid) (fun S₁ l ↦ ok S₁ l ∧ ∀ S₂, S₁.step E valid l = some S₂ →
        Shows E db S.history S₂.moment) S₀ S := by
  induction h with
  | refl => exact ⟨h₀.shows_now, .refl⟩
  | @tail S S' l hrun hl hs ih =>
    have hgrow : ∀ b, Shows E db S.history b → Shows E db S'.history b := by
      intro b hb
      rcases history_of_step hs with hsame | ⟨c, hmore⟩
      · rw [hsame]
        exact hb
      · rw [hmore]
        exact hb.append _
    have hlast : ∀ S₂, S.step E valid l = some S₂ → Shows E db S'.history S₂.moment := by
      intro S₂ hS₂
      obtain rfl : S' = S₂ := Option.some.inj (hs.symm.trans hS₂)
      exact ((hrun.invariant h₀ fun _ _ _ hC _ hs ↦ hC.step hs).step hs).shows_now
    refine ⟨hgrow _ ih.1, (ih.2.mono ?_).tail ⟨hl, hlast⟩ hs⟩
    exact fun S₁ l hok ↦ ⟨hok.1, fun S₂ hS₂ ↦ hgrow _ (hok.2 S₂ hS₂)⟩

theorem run_to {db : Db} {time : ℤ}
    {ok : System Db Key Row Stmt Res Err Ask Ans ρ → Label Stmt Res Err Plan Ask Ans ρ → Prop}
    (h : Run (step E valid) ok (init db time) S) :
    Run (step E valid) (fun S₁ l ↦ ok S₁ l ∧ ∀ S₂, S₁.step E valid l = some S₂ →
      Shows E db S.history S₂.moment) (init db time) S :=
  (run_to_from (consistent_init db time) h).2

/-- An answer is given after the commits made so far. -/
theorem answers_xid_le {db : Db} {time : ℤ}
    {ok : System Db Key Row Stmt Res Err Ask Ans ρ → Label Stmt Res Err Plan Ask Ans ρ → Prop}
    (h : Run (step E valid) ok (init db time) S) :
    ∀ a ∈ S.answers, a.2.moment.xid ≤ S.history.length := by
  induction h with
  | refl => simp [init]
  | @tail S S' l hrun hl hs ih =>
    have hnow := (consistent_of_run hrun).now.1
    rcases adds_of_step hs with ⟨hsame, as, has, hmoment⟩ | ⟨c, hmore, hanswers⟩
    · rw [hsame, has]
      refine fun a ha ↦ (List.mem_append.1 ha).elim (ih a) fun ha ↦ ?_
      rw [hmoment a ha, hnow]
    · rw [hmore, hanswers, List.length_append]
      exact fun a ha ↦ (ih a ha).trans (Nat.le_add_right _ _)

/-- A run passes through a state after each of its commits, with the answers given up to then. -/
theorem exists_state_at {db : Db} {time : ℤ}
    {ok : System Db Key Row Stmt Res Err Ask Ans ρ → Label Stmt Res Err Plan Ask Ans ρ → Prop}
    (h : Run (step E valid) ok (init db time) S) {n : ℕ} (hn : n ≤ S.history.length) :
    ∃ S₁, Run (step E valid) ok (init db time) S₁ ∧ S₁.history = S.history.take n ∧
      S₁.answers = S.answers.filter fun a ↦ a.2.moment.xid ≤ n := by
  have whole : ∀ {S : System Db Key Row Stmt Res Err Ask Ans ρ},
      Run (step E valid) ok (init db time) S → S.history.length ≤ n →
      S.history = S.history.take n ∧
        S.answers = S.answers.filter fun a ↦ a.2.moment.xid ≤ n := by
    intro S hrun hle
    refine ⟨(List.take_of_length_le hle).symm, (List.filter_eq_self.2 fun a ha ↦ ?_).symm⟩
    exact decide_eq_true ((answers_xid_le hrun a ha).trans hle)
  induction h with
  | refl => exact ⟨_, .refl, whole .refl (Nat.zero_le n)⟩
  | @tail S S' l hrun hl hs ih =>
    have hnow := (consistent_of_run hrun).now.1
    rcases Nat.lt_or_ge n S'.history.length with hlt | hge
    · rcases adds_of_step hs with ⟨hsame, as, has, hmoment⟩ | ⟨c, hmore, hanswers⟩
      · rw [hsame] at hlt hn ⊢
        obtain ⟨S₁, h₁, hhist, hans⟩ := ih hn
        refine ⟨S₁, h₁, hhist, ?_⟩
        have hlate : as.filter (fun a ↦ a.2.moment.xid ≤ n) = [] := by
          refine List.filter_eq_nil_iff.2 fun a ha ↦ ?_
          rw [hmoment a ha, hnow]
          simpa using hlt
        rw [hans, has, List.filter_append, hlate, List.append_nil]
      · rw [hmore, List.length_append, List.length_singleton] at hlt
        have hle : n ≤ S.history.length := Nat.lt_succ_iff.1 hlt
        obtain ⟨S₁, h₁, hhist, hans⟩ := ih hle
        exact ⟨S₁, h₁, by rw [hhist, hmore, List.take_append_of_le_length hle],
          by rw [hans, hanswers]⟩
    · exact ⟨S', hrun.tail hl hs, whole (hrun.tail hl hs) hge⟩

/-! ### Programs that meet their specification -/

/-- What session `i` has done so far. -/
def traceOf (S : System Db Key Row Stmt Res Err Ask Ans ρ) (i : ℕ) :
    Trace Db Key Row Stmt Ask Ans where
  effects := (S.history.filter fun c ↦ c.session = i).map fun c ↦ c.toEffect
  answers := (S.answers.filter fun a ↦ a.1 = i).map Prod.snd

theorem mem_effects_traceOf {i : ℕ} {e : Effect Db Key Row Stmt} :
    e ∈ (S.traceOf i).effects ↔ ∃ c ∈ S.history, c.session = i ∧ c.toEffect = e := by
  simp [traceOf, and_assoc]

theorem mem_answers_traceOf {i : ℕ} {b : Answer Db Ask Ans} :
    b ∈ (S.traceOf i).answers ↔ (i, b) ∈ S.answers := by
  simp [traceOf]

theorem traceOf_update_self (i : ℕ) (s' : Session Db Key Row Stmt Res Err Ask Ans ρ)
    (c : Committed Db Key Row Stmt) (a : Option (Answer Db Ask Ans)) :
    (S.update E i s' c a).traceOf i = (S.traceOf i).step S.moment c a := by
  rw [traceOf, history_update, answers_update, traceOf]
  cases c <;> cases a <;> simp [Trace.step, Trace.commit, Trace.note]

theorem traceOf_update_of_ne {i j : ℕ} (hj : j ≠ i)
    (s' : Session Db Key Row Stmt Res Err Ask Ans ρ) (c : Committed Db Key Row Stmt)
    (a : Option (Answer Db Ask Ans)) : (S.update E i s' c a).traceOf j = S.traceOf j := by
  rw [traceOf, history_update, answers_update, traceOf]
  cases c <;> cases a <;> simp [hj.symm]

/-- A step of another session, or none at all, adds nothing to a trace. -/
theorem traceOf_prefix_step (τ : Trace Db Key Row Stmt Ask Ans) (m : Moment Db)
    (c : Committed Db Key Row Stmt) (a : Option (Answer Db Ask Ans)) :
    τ.effects <+: (τ.step m c a).effects ∧ τ.answers <+: (τ.step m c a).answers := by
  cases a <;> simp [Trace.step]

variable {Γ : ℕ → Spec Db Key Row Stmt Ask Ans} {Q : ℕ → Post Db Key Row Stmt Ask Ans ρ}

/-- Session `i` goes by `Γ i`: all commits meet the guarantee, all answers were allowed, and all
sessions are still meeting their specification. -/
structure Sound (E : Engine Db Key Row Stmt Res Err Plan) (Γ : ℕ → Spec Db Key Row Stmt Ask Ans)
    (Q : ℕ → Post Db Key Row Stmt Ask Ans ρ) (S : System Db Key Row Stmt Res Err Ask Ans ρ) :
    Prop where
  sat : ∀ {i s}, S.sessions.lookup i = some s → s.Sat E (Γ i) (Q i) S.moment (S.traceOf i)
  guar : ∀ c ∈ S.history, ∃ τ : Trace Db Key Row Stmt Ask Ans,
    τ.effects ++ [c.toEffect] <+: (S.traceOf c.session).effects ∧
      τ.answers <+: (S.traceOf c.session).answers ∧ (Γ c.session).guar τ c.toEffect
  may : ∀ a ∈ S.answers, ∃ τ : Trace Db Key Row Stmt Ask Ans,
    τ.effects <+: (S.traceOf a.1).effects ∧
      τ.answers ++ [a.2] <+: (S.traceOf a.1).answers ∧ (Γ a.1).may τ a.2

theorem sound_init (db : Db) (time : ℤ) :
    Sound E Γ Q (init db time : System Db Key Row Stmt Res Err Ask Ans ρ) :=
  ⟨fun h ↦ by simp [init] at h, fun c h ↦ by simp [init] at h, fun a h ↦ by simp [init] at h⟩

theorem traceOf_prefix_update (i j : ℕ) (s' : Session Db Key Row Stmt Res Err Ask Ans ρ)
    (c : Committed Db Key Row Stmt) (a : Option (Answer Db Ask Ans)) :
    (S.traceOf j).effects <+: ((S.update E i s' c a).traceOf j).effects ∧
      (S.traceOf j).answers <+: ((S.update E i s' c a).traceOf j).answers := by
  by_cases hj : j = i
  · subst hj
    rw [traceOf_update_self]
    exact traceOf_prefix_step _ _ _ _
  · rw [traceOf_update_of_ne hj]
    exact ⟨List.prefix_rfl, List.prefix_rfl⟩

theorem Sound.update (hS : Sound E Γ Q S) {i : ℕ}
    {s' : Session Db Key Row Stmt Res Err Ask Ans ρ} {c : Committed Db Key Row Stmt}
    (henv : ∀ j t, j ≠ i → S.sessions.lookup j = some t →
      (Γ j).rely S.moment (S.moment.advance E c))
    (hguar : ∀ t ∈ c, (Γ i).guar (S.traceOf i) ⟨S.moment, t.1, t.2⟩)
    (hmay : ∀ b ∈ a, (Γ i).may (S.traceOf i) b)
    (hsat : s'.Sat E (Γ i) (Q i) (S.moment.advance E c) ((S.traceOf i).step S.moment c a)) :
    Sound E Γ Q (S.update E i s' c a) := by
  refine ⟨fun {j t} ht ↦ ?_, fun d hd ↦ ?_, fun b hb ↦ ?_⟩
  · rw [sessions_update] at ht
    rw [moment_update]
    by_cases hj : j = i
    · subst hj
      rw [AList.lookup_insert] at ht
      cases ht
      rwa [traceOf_update_self]
    · rw [AList.lookup_insert_ne hj] at ht
      rw [traceOf_update_of_ne hj]
      exact (hS.sat ht).env (henv j t hj ht)
  · rw [history_update] at hd
    rcases List.mem_append.1 hd with hd | hd
    · obtain ⟨τ, heff, hans, hguar⟩ := hS.guar d hd
      have hextends := traceOf_prefix_update (E := E) (S := S) i d.session s' c a
      exact ⟨τ, heff.trans hextends.1, hans.trans hextends.2, hguar⟩
    · cases c with
      | none => simp at hd
      | some t =>
        rw [Moment.effects_some, List.map_singleton, List.mem_singleton] at hd
        subst hd
        refine ⟨S.traceOf i, ?_, ?_, hguar t rfl⟩
        · rw [traceOf_update_self]
          cases a <;> simp [Trace.step]
        · rw [traceOf_update_self]
          exact (traceOf_prefix_step _ _ _ _).2
  · rw [answers_update] at hb
    rcases List.mem_append.1 hb with hb | hb
    · obtain ⟨τ, heff, hans, hmay⟩ := hS.may b hb
      have hextends := traceOf_prefix_update (E := E) (S := S) i b.1 s' c a
      exact ⟨τ, heff.trans hextends.1, hans.trans hextends.2, hmay⟩
    · cases a with
      | none => simp at hb
      | some b' =>
        simp only [Option.toList_some, List.map_singleton, List.mem_singleton] at hb
        subst hb
        refine ⟨S.traceOf i, ?_, ?_, hmay b' rfl⟩
        · rw [traceOf_update_self]
          exact (traceOf_prefix_step _ _ _ _).1
        · rw [traceOf_update_self]
          simp [Trace.step]

/-- One step of a system: the program a `spawn` starts has to meet its specification, a session
whose requests fail has to allow it, and the other sessions have to allow the step. -/
theorem Sound.step (hL : Locked E S) (hS : Sound E Γ Q S) (hvalid : ∀ i, (Γ i).valid = valid)
    {l : Label Stmt Res Err Plan Ask Ans ρ} (hfault : ∀ i, l.faults i = true → (Γ i).faulty)
    (henv : ∀ i, l.concerns i = false → (Γ i).rely S.moment S'.moment)
    (hspawn : ∀ i p, l = .spawn i p → wp E (Γ i) p (Q i) .idle S.moment {})
    (hissue : ∀ i s st k, l = .issue i → S.sessions.lookup i = some s → s.prog = .sql st k →
      s.issued = none → (Γ i).issue (S.traceOf i) st S.moment)
    (h : S.step E valid l = some S') : Sound E Γ Q S' := by
  cases steps_of_step h with
  | tick d => exact ⟨fun hs ↦ (hS.sat hs).env (henv _ rfl), hS.guar, hS.may⟩
  | crash i =>
    refine ⟨fun {j t} ht ↦ ?_, hS.guar, hS.may⟩
    have hj : j ≠ i := by
      rintro rfl
      simp at ht
    rw [AList.lookup_erase_ne hj] at ht
    exact hS.sat ht
  | @spawn i p hnone hnew hunasked =>
    refine hS.update (fun j t _ _ ↦ (Γ j).rely_refl _) (by simp) (by simp) ?_
    have hnil : S.traceOf i = {} := by
      have heff : S.history.filter (fun c ↦ c.session = i) = [] := by
        simpa [List.filter_eq_nil_iff] using hnew
      have hans : S.answers.filter (fun a ↦ a.1 = i) = [] := by
        simpa [List.filter_eq_nil_iff] using hunasked
      rw [traceOf, heff, hans]
      rfl
    rw [hnil, Trace.step_none, Trace.commit_none]
    exact hspawn i p rfl
  | @session l i s s' c a hl hother hs hsent hstep =>
    have hown : Session.Step E (Γ i).valid (Γ i).faulty (S.others i) S.moment s s' c a := by
      rw [hvalid i]
      exact hstep.mono (hfault i)
    obtain ⟨hpay, hmay, hsat⟩ := (hS.sat hs).step hown
      (fun st k hst hn ↦ hissue i s st k (hsent st k hst hn) hs hst hn)
      fun t ht ↦ (hL.committed hs hstep t ht).1
    refine hS.update (fun j t hj ht ↦ ?_) hpay hmay hsat
    have hrely := henv j (hother j hj)
    rwa [moment_update] at hrely

/-- A session that has returned has met its postcondition. -/
theorem Sound.returned (hS : Sound E Γ Q S) {i : ℕ}
    {s : Session Db Key Row Stmt Res Err Ask Ans ρ} (hs : S.sessions.lookup i = some s) {a : ρ}
    (ha : s.prog = .pure a) : Q i a s.conn S.moment (S.traceOf i) := by
  have hsat := hS.sat hs
  obtain ⟨p, conn, issued⟩ := s
  subst ha
  cases issued with
  | none => exact hsat S.moment ((Γ i).rely_refl _)
  | some b => exact hsat.elim

/-- Every reachable state is sound when only programs that meet their specification are spawned,
every session puts up with anything the others do, and a request fails only in sessions that allow
for it. -/
theorem sound_of_run_faults (hΓ : ∀ i m m', m.Before m' → (Γ i).rely m m')
    (hvalid : ∀ i, (Γ i).valid = valid) {db : Db} {time : ℤ}
    {ok : System Db Key Row Stmt Res Err Ask Ans ρ → Label Stmt Res Err Plan Ask Ans ρ → Prop}
    (hfault : ∀ S l i, ok S l → l.faults i = true → (Γ i).faulty)
    (hok : ∀ S i p, ok S (.spawn i p) → ∀ m, wp E (Γ i) p (Q i) .idle m {})
    (h : Run (System.step E valid) ok (init db time) S)
    (hissue : ∀ i τ st m, (Γ i).issue τ st m := by exact fun _ _ _ _ ↦ trivial) :
    Sound E Γ Q S := by
  have hboth : Locked E S ∧ Sound E Γ Q S := by
    refine h.invariant (P := fun S ↦ Locked E S ∧ Sound E Γ Q S)
      ⟨locked_init db time, sound_init db time⟩ fun S l S' hS hl hs ↦ ?_
    refine ⟨hS.1.step hs, hS.2.step hS.1 hvalid (fun i ↦ hfault S l i hl)
      (fun i _ ↦ hΓ i _ _ (steps_of_step hs).before) (fun i p hp ↦ ?_)
      (fun i _ st _ _ _ _ _ ↦ hissue i _ st _) hs⟩
    subst hp
    exact hok S i p hl S.moment
  exact hboth.2

/-- The same for sessions that all allow for faults. -/
theorem sound_of_run (hΓ : ∀ i m m', m.Before m' → (Γ i).rely m m')
    (hvalid : ∀ i, (Γ i).valid = valid) (hfaulty : ∀ i, (Γ i).faulty) {db : Db} {time : ℤ}
    {ok : System Db Key Row Stmt Res Err Ask Ans ρ → Label Stmt Res Err Plan Ask Ans ρ → Prop}
    (hok : ∀ S i p, ok S (.spawn i p) → ∀ m, wp E (Γ i) p (Q i) .idle m {})
    (h : Run (System.step E valid) ok (init db time) S)
    (hissue : ∀ i τ st m, (Γ i).issue τ st m := by exact fun _ _ _ _ ↦ trivial) : Sound E Γ Q S :=
  sound_of_run_faults hΓ hvalid (fun _ _ i _ _ ↦ hfaulty i) hok h hissue

/-- What a session commits was written by statements of its program, and what it was answered are
questions of its program. -/
theorem all_of_run {P : ℕ → Stmt → Prop} {A : ℕ → Ask → Prop} {db : Db} {time : ℤ}
    {ok : System Db Key Row Stmt Res Err Ask Ans ρ → Label Stmt Res Err Plan Ask Ans ρ → Prop}
    (hok : ∀ S i p, ok S (.spawn i p) → p.All (P i) (A i))
    (h : Run (System.step E valid) ok (init db time) S) :
    (∀ c ∈ S.history, ∀ w ∈ c.writes, P c.session w.stmt) ∧ ∀ a ∈ S.answers, A a.1 a.2.ask := by
  let Γ : ℕ → Spec Db Key Row Stmt Ask Ans := fun i ↦
    { rely := Moment.Before
      rely_refl := Moment.Before.refl
      rely_trans := Moment.Before.trans
      valid := valid
      guar := fun _ e ↦ ∀ w ∈ e.writes, P i w.stmt
      may := fun _ a ↦ A i a.ask }
  have hsound : Sound E Γ (fun _ _ _ _ _ ↦ True) S :=
    sound_of_run (fun _ _ _ ↦ id) (fun _ ↦ rfl) (fun _ ↦ trivial)
      (fun S i p hp m ↦ wp_of_all (hok S i p hp) (fun _ _ he ↦ he) (fun _ _ ha ↦ ha) (by simp)) h
  refine ⟨fun c hc ↦ ?_, fun a ha ↦ ?_⟩
  · obtain ⟨τ, -, -, hguar⟩ := hsound.guar c hc
    exact hguar
  · obtain ⟨τ, -, -, hmay⟩ := hsound.may a ha
    exact hmay

/-! ### Systems that keep an invariant -/

/-- What a step does to the shared state: nothing, or it commits a transaction of a session, which
meets the guarantee of that session, or it gives a session an answer it may get. -/
inductive Advances (E : Engine Db Key Row Stmt Res Err Plan)
    (Γ : ℕ → Spec Db Key Row Stmt Ask Ans) (S S' : System Db Key Row Stmt Res Err Ask Ans ρ) : Prop
  | quiet : S'.moment.db = S.moment.db → S'.history = S.history → S'.answers = S.answers →
      Advances E Γ S S'
  | commit (c : Commit Db Key Row Stmt) : c.moment = S.moment → E.Chain S.moment.db c.writes →
      (∀ w ∈ c.writes, E.legal w) → (Γ c.session).guar (S.traceOf c.session) c.toEffect →
      S'.moment = S.moment.after E c.writes → S'.history = S.history ++ [c] →
      S'.answers = S.answers → Advances E Γ S S'
  | answer (i : ℕ) (b : Answer Db Ask Ans) : S'.moment.db = S.moment.db → S'.history = S.history →
      S'.answers = S.answers ++ [(i, b)] → (Γ i).may (S.traceOf i) b → Advances E Γ S S'

/-- A system of sessions that meet their specifications moves by commits that meet theirs. -/
theorem Sound.advances (hL : Locked E S) (hS : Sound E Γ Q S) (hvalid : ∀ i, (Γ i).valid = valid)
    {l : Label Stmt Res Err Plan Ask Ans ρ} (hfault : ∀ i, l.faults i = true → (Γ i).faulty)
    (hissue : ∀ i s st k, l = .issue i → S.sessions.lookup i = some s → s.prog = .sql st k →
      s.issued = none → (Γ i).issue (S.traceOf i) st S.moment)
    (h : S.step E valid l = some S') : Advances E Γ S S' := by
  cases steps_of_step h with
  | tick d => exact .quiet rfl rfl rfl
  | crash i => exact .quiet rfl rfl rfl
  | spawn hnone hnew hunasked => exact .quiet (by simp) (by simp [history_update]) (by simp)
  | @session l i s s' c a hl hother hs hsent hstep =>
    have hown : Session.Step E (Γ i).valid (Γ i).faulty (S.others i) S.moment s s' c a := by
      rw [hvalid i]
      exact hstep.mono (hfault i)
    have hlegal := hL.committed hs hstep
    obtain ⟨hpay, hmay, -⟩ := (hS.sat hs).step hown
      (fun st k hst hn ↦ hissue i s st k (hsent st k hst hn) hs hst hn) fun t ht ↦ (hlegal t ht).1
    have hone : c = none ∨ a = none := by
      cases hstep with
      | issue _ => exact Or.inl rfl
      | finish _ _ _ _ => exact Or.inr rfl
      | fail _ _ _ => exact Or.inl rfl
      | answer _ _ => exact Or.inl rfl
    rcases c with - | t
    · rcases a with - | b
      · exact .quiet (by simp) (by simp [history_update]) (by simp)
      · exact .answer i b (by simp) (by simp [history_update]) (by simp) (hmay b rfl)
    · obtain rfl : a = none := hone.resolve_left (Option.some_ne_none t)
      exact .commit ⟨⟨S.moment, t.1, t.2⟩, i⟩ rfl (hlegal t rfl).1 (hlegal t rfl).2 (hpay t rfl)
        (by simp) (by simp [history_update]) (by simp)

/-- Every commit met its guarantee, and every answer was allowed, in the trace its session had at
that time. -/
structure Logged (Γ : ℕ → Spec Db Key Row Stmt Ask Ans)
    (S : System Db Key Row Stmt Res Err Ask Ans ρ) : Prop where
  guar : ∀ {n c}, S.history[n]? = some c → ∃ τ : Trace Db Key Row Stmt Ask Ans,
    τ.effects = ((S.history.take n).filter fun d ↦ d.session = c.session).map (fun d ↦ d.toEffect) ∧
      τ.answers <+: (S.traceOf c.session).answers ∧ (Γ c.session).guar τ c.toEffect
  may : ∀ {n a}, S.answers[n]? = some a → ∃ τ : Trace Db Key Row Stmt Ask Ans,
    τ.effects <+: (S.traceOf a.1).effects ∧
      τ.answers = ((S.answers.take n).filter fun b ↦ b.1 = a.1).map Prod.snd ∧ (Γ a.1).may τ a.2

theorem logged_init (db : Db) (time : ℤ) :
    Logged Γ (init db time : System Db Key Row Stmt Res Err Ask Ans ρ) :=
  ⟨fun h ↦ by simp [init] at h, fun h ↦ by simp [init] at h⟩

private theorem getElem?_concat {α : Type*} {l : List α} {n : ℕ} {x y : α}
    (h : (l ++ [x])[n]? = some y) :
    (l[n]? = some y ∧ (l ++ [x]).take n = l.take n) ∨ (y = x ∧ (l ++ [x]).take n = l) := by
  rcases lt_or_ge n l.length with hn | hn
  · rw [List.getElem?_append_left hn] at h
    exact Or.inl ⟨h, List.take_append_of_le_length hn.le⟩
  · rw [List.getElem?_append_right hn, List.getElem?_singleton] at h
    split at h
    · rename_i hzero
      obtain rfl : n = l.length := by omega
      exact Or.inr ⟨(Option.some.inj h).symm, List.take_left⟩
    · cases h

theorem Logged.advances (h : Logged Γ S) (hadv : Advances E Γ S S') : Logged Γ S' := by
  -- the traces only grow
  have hmono : S.history <+: S'.history → S.answers <+: S'.answers → ∀ i,
      (S.traceOf i).effects <+: (S'.traceOf i).effects ∧
        (S.traceOf i).answers <+: (S'.traceOf i).answers :=
    fun hhist hans i ↦ ⟨(hhist.filter _).map _, (hans.filter _).map _⟩
  cases hadv with
  | quiet hdb hhist hans =>
    have hsame : ∀ i, S'.traceOf i = S.traceOf i := fun i ↦ by rw [traceOf, hhist, hans, traceOf]
    constructor
    · rw [hhist]
      intro n c hc
      rw [hsame]
      exact h.guar hc
    · rw [hans]
      intro n a ha
      rw [hsame]
      exact h.may ha
  | commit d hd hchain hlegal hguar hmoment hhist hans =>
    have hgrow := hmono (by rw [hhist]; exact List.prefix_append _ _) (hans ▸ List.prefix_rfl)
    refine ⟨fun {n c} hc ↦ ?_, fun {n a} ha ↦ ?_⟩
    · rw [hhist] at hc ⊢
      rcases getElem?_concat hc with ⟨hc, htake⟩ | ⟨rfl, htake⟩
      · obtain ⟨τ, heff, hans', hguar'⟩ := h.guar hc
        exact ⟨τ, by rw [heff, htake], hans'.trans (hgrow _).2, hguar'⟩
      · exact ⟨S.traceOf c.session, by rw [htake, traceOf], (hgrow _).2, hguar⟩
    · rw [hans] at ha ⊢
      obtain ⟨τ, heff, hans', hmay⟩ := h.may ha
      exact ⟨τ, heff.trans (hgrow _).1, hans', hmay⟩
  | answer i b hdb hhist hans hmay =>
    have hgrow := hmono (hhist ▸ List.prefix_rfl) (by rw [hans]; exact List.prefix_append _ _)
    refine ⟨fun {n c} hc ↦ ?_, fun {n a} ha ↦ ?_⟩
    · rw [hhist] at hc ⊢
      obtain ⟨τ, heff, hans', hguar'⟩ := h.guar hc
      exact ⟨τ, heff, hans'.trans (hgrow _).2, hguar'⟩
    · rw [hans] at ha ⊢
      rcases getElem?_concat ha with ⟨ha, htake⟩ | ⟨rfl, htake⟩
      · obtain ⟨τ, heff, hans', hmay'⟩ := h.may ha
        exact ⟨τ, heff.trans (hgrow _).1, by rw [hans', htake], hmay'⟩
      · exact ⟨S.traceOf i, (hgrow _).1, by rw [htake, traceOf], hmay⟩

variable (Γ Q) in
/-- Rely and guarantee over a run from any state. The invariant is kept by every step whose commit
meets the guarantee of its session; programs are started where the invariant holds; and a step
between two states with the invariant is one the other sessions rely on. -/
theorem sound_from (hvalid : ∀ i, (Γ i).valid = valid)
    {db : Db} {S₀ : System Db Key Row Stmt Res Err Ask Ans ρ}
    {P : System Db Key Row Stmt Res Err Ask Ans ρ → Prop}
    {ok : System Db Key Row Stmt Res Err Ask Ans ρ → Label Stmt Res Err Plan Ask Ans ρ → Prop}
    (hfault : ∀ S l i, ok S l → l.faults i = true → (Γ i).faulty)
    (h₀ : Consistent E db S₀ ∧ Sound E Γ Q S₀ ∧ Logged Γ S₀ ∧ P S₀)
    (hspawn : ∀ S i p, Consistent E db S → P S → ok S (.spawn i p) → S.unused i = true →
      wp E (Γ i) p (Q i) .idle S.moment {})
    (hissue : ∀ S i s st k, Consistent E db S → P S → ok S (.issue i) →
      S.sessions.lookup i = some s → s.prog = .sql st k → s.issued = none →
      (Γ i).issue (S.traceOf i) st S.moment)
    (hstep : ∀ S l S', Consistent E db S → Sound E Γ Q S → P S → ok S l →
      S.step E valid l = some S' → Advances E Γ S S' → P S')
    (hrely : ∀ S l S', Consistent E db S → P S → P S' → ok S l →
      S.step E valid l = some S' → Advances E Γ S S' →
      ∀ i, l.concerns i = false → (Γ i).rely S.moment S'.moment)
    (h : Run (System.step E valid) ok S₀ S) :
    Consistent E db S ∧ Sound E Γ Q S ∧ Logged Γ S ∧ P S := by
  refine h.invariant (P := fun S ↦ Consistent E db S ∧ Sound E Γ Q S ∧ Logged Γ S ∧ P S) h₀
    fun S l S' ⟨hC, hS, hlog, hI⟩ hl hs ↦ ?_
  have hsent : ∀ i s st k, l = .issue i → S.sessions.lookup i = some s → s.prog = .sql st k →
      s.issued = none → (Γ i).issue (S.traceOf i) st S.moment := by
    rintro i s st k rfl hlook hprog hidle
    exact hissue S i s st k hC hI hl hlook hprog hidle
  have hadv : Advances E Γ S S' := hS.advances hC.locked hvalid (fun i ↦ hfault S l i hl) hsent hs
  have hI' : P S' := hstep S l S' hC hS hI hl hs hadv
  refine ⟨hC.step hs, hS.step hC.locked hvalid (fun i ↦ hfault S l i hl)
    (hrely S l S' hC hI hI' hl hs hadv) (fun i p hp ↦ ?_) hsent hs,
    hlog.advances hadv, hI'⟩
  subst hp
  refine hspawn S i p hC hI hl ?_
  by_contra hused
  simp [step, hused] at hs

variable (Γ Q) in
/-- Rely and guarantee over a run from the start. -/
theorem sound_of_invariant (hvalid : ∀ i, (Γ i).valid = valid) (hfaulty : ∀ i, (Γ i).faulty)
    {db : Db} {time : ℤ} {P : System Db Key Row Stmt Res Err Ask Ans ρ → Prop}
    {ok : System Db Key Row Stmt Res Err Ask Ans ρ → Label Stmt Res Err Plan Ask Ans ρ → Prop}
    (h₀ : P (init db time))
    (hspawn : ∀ S i p, Consistent E db S → P S → ok S (.spawn i p) →
      wp E (Γ i) p (Q i) .idle S.moment {})
    (hissue : ∀ S i s st k, Consistent E db S → P S → ok S (.issue i) →
      S.sessions.lookup i = some s → s.prog = .sql st k → s.issued = none →
      (Γ i).issue (S.traceOf i) st S.moment)
    (hstep : ∀ S l S', Consistent E db S → Sound E Γ Q S → P S → ok S l →
      S.step E valid l = some S' → Advances E Γ S S' → P S')
    (hrely : ∀ S l S', Consistent E db S → P S → P S' → ok S l →
      S.step E valid l = some S' → Advances E Γ S S' → ∀ i, (Γ i).rely S.moment S'.moment)
    (h : Run (System.step E valid) ok (init db time) S) :
    Consistent E db S ∧ Sound E Γ Q S ∧ Logged Γ S ∧ P S :=
  sound_from Γ Q hvalid (fun _ _ i _ _ ↦ hfaulty i)
    ⟨consistent_init db time, sound_init db time, logged_init db time, h₀⟩
    (fun S i p hC hP hl _ ↦ hspawn S i p hC hP hl) hissue hstep
    (fun S l S' hC hP hP' hl hs hadv i _ ↦ hrely S l S' hC hP hP' hl hs hadv i) h

/-- Every reachable state is sound, and every statement may be assumed to be sent in a state of the
history. -/
theorem sound_of_run_shown (hΓ : ∀ i m m', m.Before m' → (Γ i).rely m m')
    (hvalid : ∀ i, (Γ i).valid = valid) (hfaulty : ∀ i, (Γ i).faulty) {db : Db} {time : ℤ}
    {ok : System Db Key Row Stmt Res Err Ask Ans ρ → Label Stmt Res Err Plan Ask Ans ρ → Prop}
    (hok : ∀ S i p, ok S (.spawn i p) → ∀ m, wp E (Γ i) p (Q i) .idle m {})
    (h : Run (System.step E valid) ok (init db time) S)
    (hissue : ∀ i τ st m, Shows E db S.history m → (Γ i).issue τ st m) :
    Consistent E db S ∧ Sound E Γ Q S ∧ Logged Γ S := by
  obtain ⟨hC, hS, hlog, -⟩ := sound_of_invariant Γ Q hvalid hfaulty (P := fun _ ↦ True) trivial
    (fun S i p _ _ hl ↦ hok S i p hl.1 S.moment)
    (fun S₁ i s st k _ _ hl hs hprog hidle ↦ by
      -- to send a statement leaves the committed state as it is
      have hsent : S₁.step E valid (.issue i) =
          some (S₁.update E i { s with conn := s.conn.pin S₁.moment, issued := some S₁.moment }
            none none) := by
        simp [step, hs, Session.issue, hprog, hidle]
      have hshows := hl.2 _ hsent
      rw [moment_update] at hshows
      exact hissue i _ st _ hshows)
    (fun _ _ _ _ _ _ _ _ _ ↦ trivial)
    (fun _ _ _ _ _ _ _ hs _ i ↦ hΓ i _ _ (steps_of_step hs).before) (run_to h)
  exact ⟨hC, hS, hlog⟩

/-- Every reachable state is sound, and every statement may be assumed to be sent in a state of the
history that is as the session found it when it was started: what holds of session `i` then, `R i`,
holds of all later states. -/
theorem sound_of_run_since {R : ℕ → Moment Db → Prop}
    (hΓ : ∀ i m m', m.Before m' → (Γ i).rely m m') (hvalid : ∀ i, (Γ i).valid = valid)
    (hfaulty : ∀ i, (Γ i).faulty) {db : Db} {time : ℤ}
    {ok : System Db Key Row Stmt Res Err Ask Ans ρ → Label Stmt Res Err Plan Ask Ans ρ → Prop}
    (hok : ∀ S i p, ok S (.spawn i p) → R i S.moment ∧ ∀ m, wp E (Γ i) p (Q i) .idle m {})
    (h : Run (System.step E valid) ok (init db time) S)
    (hR : ∀ i m m', Shows E db S.history m → Shows E db S.history m' → m.Before m' → R i m → R i m')
    (hissue : ∀ i τ st m, Shows E db S.history m → R i m → (Γ i).issue τ st m) :
    Consistent E db S ∧ Sound E Γ Q S ∧ Logged Γ S := by
  obtain ⟨hfirst, hrun⟩ := run_to_from (consistent_init db time) h
  obtain ⟨hC, hS, hlog, -⟩ := sound_of_invariant Γ Q hvalid hfaulty
    (P := fun S₁ ↦ Shows E db S.history S₁.moment ∧
      ∀ i, (S₁.sessions.lookup i).isSome = true → R i S₁.moment)
    ⟨hfirst, fun i hi ↦ by cases hi⟩
    (fun S₁ i p _ _ hl ↦ (hok S₁ i p hl.1).2 S₁.moment)
    (fun S₁ i s st k _ hP _ hs _ _ ↦ hissue i _ st _ hP.1 (hP.2 i (by rw [hs]; rfl)))
    (fun S₁ l S₂ _ _ hP hl hs _ ↦ by
      have hshows := hl.2 S₂ hs
      have hbefore := (steps_of_step hs).before
      refine ⟨hshows, fun i hi ↦ ?_⟩
      -- a session that is there was there before, or has just been started
      have hkeeps : (S₁.sessions.lookup i).isSome = true → R i S₂.moment := fun hi ↦
        hR i _ _ hP.1 hshows hbefore (hP.2 i hi)
      have hinsert : ∀ {j : ℕ} {s' : Session Db Key Row Stmt Res Err Ask Ans ρ}, i ≠ j →
          ((S₁.sessions.insert j s').lookup i).isSome = true → R i S₂.moment := fun hne hi ↦ by
        rw [AList.lookup_insert_ne hne] at hi
        exact hkeeps hi
      cases steps_of_step hs with
      | tick d => exact hkeeps hi
      | crash j =>
        by_cases hj : i = j
        · subst hj
          simp at hi
        · rw [AList.lookup_erase_ne hj] at hi
          exact hkeeps hi
      | @spawn j p hnone _ _ =>
        by_cases hj : i = j
        · subst hj
          exact hR i _ _ hP.1 hshows hbefore (hok S₁ i p hl.1).1
        · rw [sessions_update] at hi
          exact hinsert hj hi
      | @session _ j s s' c a _ _ hlookup _ _ =>
        by_cases hj : i = j
        · subst hj
          exact hkeeps (by rw [hlookup]; rfl)
        · rw [sessions_update] at hi
          exact hinsert hj hi)
    (fun _ _ _ _ _ _ _ hs _ i ↦ hΓ i _ _ (steps_of_step hs).before) hrun
  exact ⟨hC, hS, hlog⟩

/-- A session that goes by `Γ₀`, among sessions of which nothing is asked. -/
private def lone (valid : Moment Db → (q : Ask) → Ans q → Bool)
    (Γ₀ : Spec Db Key Row Stmt Ask Ans) (i j : ℕ) : Spec Db Key Row Stmt Ask Ans :=
  if j = i then Γ₀ else Spec.free valid

/-- Rely and guarantee for one session that a run from a reachable state starts, next to others that
do anything. All states of that run satisfy `P`, and the session relies on the steps of the others.
-/
theorem sound_session_beside (Γ₀ : Spec Db Key Row Stmt Ask Ans)
    (Q₀ : Post Db Key Row Stmt Ask Ans ρ) {i : ℕ} (hvalid : Γ₀.valid = valid)
    {db : Db} {time : ℤ} {S₀ : System Db Key Row Stmt Res Err Ask Ans ρ}
    {P : System Db Key Row Stmt Res Err Ask Ans ρ → Prop}
    {ok₀ ok : System Db Key Row Stmt Res Err Ask Ans ρ → Label Stmt Res Err Plan Ask Ans ρ → Prop}
    (hfault : ∀ S l, ok S l → l.faults i = true → Γ₀.faulty)
    (h₀ : Run (System.step E valid) ok₀ (init db time) S₀) (hnew : S₀.unused i = true) (hP : P S₀)
    (hspawn : ∀ S p, P S → ok S (.spawn i p) → S.unused i = true →
      wp E Γ₀ p Q₀ .idle S.moment {})
    (hstep : ∀ S l S', P S → ok S l → S.step E valid l = some S' → P S')
    (hrely : ∀ S l S', P S → P S' → ok S l → S.step E valid l = some S' → l.concerns i = false →
      Γ₀.rely S.moment S'.moment)
    (h : Run (System.step E valid) ok S₀ S)
    (hissue : ∀ S τ st, P S → Γ₀.issue τ st S.moment := by exact fun _ _ _ _ ↦ trivial) :
    Consistent E db S ∧ P S ∧ ∃ Γ Q, Γ i = Γ₀ ∧ Q i = Q₀ ∧ Sound E Γ Q S ∧ Logged Γ S := by
  let Γ : ℕ → Spec Db Key Row Stmt Ask Ans := lone valid Γ₀ i
  let Q : ℕ → Post Db Key Row Stmt Ask Ans ρ := fun j ↦ if j = i then Q₀ else fun _ _ _ _ ↦ True
  have hself : Γ i = Γ₀ ∧ Q i = Q₀ := ⟨if_pos rfl, if_pos rfl⟩
  have hother : ∀ {j}, j ≠ i → Γ j = Spec.free valid ∧ Q j = fun _ _ _ _ ↦ True :=
    fun hj ↦ ⟨if_neg hj, if_neg hj⟩
  have heach : ∀ {R : ℕ → Prop}, R i → (∀ j, j ≠ i → R j) → ∀ j, R j := by
    intro R hi hj j
    by_cases h : j = i
    · exact h ▸ hi
    · exact hj j h
  -- up to the first state nothing is asked of any session, and session `i` has done nothing
  obtain ⟨hC, hS, hlog, -⟩ := sound_of_invariant (fun _ ↦ Spec.free valid)
    (fun _ _ _ _ _ ↦ True) (P := fun _ ↦ True) (fun _ ↦ rfl) (fun _ ↦ trivial) trivial
    (fun _ _ p _ _ _ ↦ wp_free p) (fun _ _ _ _ _ _ _ _ _ _ _ ↦ trivial)
    (fun _ _ _ _ _ _ _ _ _ ↦ trivial) (fun _ _ _ _ _ _ _ hs _ _ ↦ (steps_of_step hs).before) h₀
  simp only [unused, Bool.and_eq_true, Option.isNone_iff_eq_none, List.all_eq_true,
    bne_iff_ne] at hnew
  obtain ⟨⟨hnone, hcommits⟩, hanswers⟩ := hnew
  have hS' : Sound E Γ Q S₀ := by
    refine ⟨fun {j s} hs ↦ ?_, fun c hc ↦ ?_, fun a ha ↦ ?_⟩
    · have hj : j ≠ i := by
        rintro rfl
        rw [hnone] at hs
        cases hs
      rw [(hother hj).1, (hother hj).2]
      exact hS.sat hs
    · rw [(hother (hcommits c hc)).1]
      exact hS.guar c hc
    · rw [(hother (hanswers a ha)).1]
      exact hS.may a ha
  have hlog' : Logged Γ S₀ := by
    refine ⟨fun {n c} hc ↦ ?_, fun {n a} ha ↦ ?_⟩
    · rw [(hother (hcommits c (List.mem_of_getElem? hc))).1]
      exact hlog.guar hc
    · rw [(hother (hanswers a (List.mem_of_getElem? ha))).1]
      exact hlog.may ha
  obtain ⟨hC', hS, hlog, hP'⟩ := sound_from Γ Q (P := P)
    (heach (by rw [hself.1, hvalid]) fun j hj ↦ by rw [(hother hj).1]; rfl)
    (fun S l j hok hl ↦ by
      by_cases hj : j = i
      · subst hj
        rw [hself.1]
        exact hfault S l hok hl
      · rw [(hother hj).1]
        trivial)
    ⟨hC, hS', hlog', hP⟩
    (fun S j p _ hPS hok hunused ↦ by
      by_cases hj : j = i
      · subst hj
        rw [hself.1, hself.2]
        exact hspawn S p hPS hok hunused
      · rw [(hother hj).1, (hother hj).2]
        exact wp_free p)
    (fun S j _ st _ _ hPS _ _ _ _ ↦ heach (R := fun j ↦ (Γ j).issue (S.traceOf j) st S.moment)
      (by rw [hself.1]; exact hissue S _ _ hPS) (fun j hj ↦ by rw [(hother hj).1]; trivial) j)
    (fun S l S' _ _ hPS hok hs _ ↦ hstep S l S' hPS hok hs)
    (fun S l S' _ hPS hPS' hok hs _ ↦ heach
      (R := fun j ↦ l.concerns j = false → (Γ j).rely S.moment S'.moment)
      (by rw [hself.1]; exact hrely S l S' hPS hPS' hok hs)
      fun j hj _ ↦ by rw [(hother hj).1]; exact (steps_of_step hs).before) h
  exact ⟨hC', hP', Γ, Q, hself.1, hself.2, hS, hlog⟩

/-- The same for a session that relies on every step of such a run. -/
theorem sound_session_from (Γ₀ : Spec Db Key Row Stmt Ask Ans)
    (Q₀ : Post Db Key Row Stmt Ask Ans ρ) {i : ℕ} (hvalid : Γ₀.valid = valid)
    {db : Db} {time : ℤ} {S₀ : System Db Key Row Stmt Res Err Ask Ans ρ}
    {P : System Db Key Row Stmt Res Err Ask Ans ρ → Prop}
    {ok₀ ok : System Db Key Row Stmt Res Err Ask Ans ρ → Label Stmt Res Err Plan Ask Ans ρ → Prop}
    (hfault : ∀ S l, ok S l → l.faults i = true → Γ₀.faulty)
    (h₀ : Run (System.step E valid) ok₀ (init db time) S₀) (hnew : S₀.unused i = true) (hP : P S₀)
    (hspawn : ∀ S p, P S → ok S (.spawn i p) → wp E Γ₀ p Q₀ .idle S.moment {})
    (hstep : ∀ S l S', P S → ok S l → S.step E valid l = some S' → P S')
    (hrely : ∀ S S', P S → P S' → S.moment.Before S'.moment → Γ₀.rely S.moment S'.moment)
    (h : Run (System.step E valid) ok S₀ S)
    (hissue : ∀ S τ st, P S → Γ₀.issue τ st S.moment := by exact fun _ _ _ _ ↦ trivial) :
    Consistent E db S ∧ P S ∧ ∃ Γ Q, Γ i = Γ₀ ∧ Q i = Q₀ ∧ Sound E Γ Q S ∧ Logged Γ S :=
  sound_session_beside Γ₀ Q₀ hvalid hfault h₀ hnew hP (fun S p hPS hok _ ↦ hspawn S p hPS hok) hstep
    (fun S _ S' hPS hPS' _ hs _ ↦ hrely S S' hPS hPS' (steps_of_step hs).before) h hissue

/-- Rely and guarantee for one session, next to others that do anything. -/
theorem sound_session (Γ₀ : Spec Db Key Row Stmt Ask Ans) (Q₀ : Post Db Key Row Stmt Ask Ans ρ)
    {i : ℕ} (hrely : ∀ m m', m.Before m' → Γ₀.rely m m') (hvalid : Γ₀.valid = valid)
    (hfaulty : Γ₀.faulty) {db : Db} {time : ℤ}
    {ok : System Db Key Row Stmt Res Err Ask Ans ρ → Label Stmt Res Err Plan Ask Ans ρ → Prop}
    (hspawn : ∀ S p, ok S (.spawn i p) → ∀ m, wp E Γ₀ p Q₀ .idle m {})
    (h : Run (System.step E valid) ok (init db time) S)
    (hissue : ∀ τ st m, Γ₀.issue τ st m := by exact fun _ _ _ ↦ trivial) :
    Consistent E db S ∧ ∃ Γ Q, Γ i = Γ₀ ∧ Q i = Q₀ ∧ Sound E Γ Q S ∧ Logged Γ S := by
  have hstart : Run (System.step E valid) ok (init db time) (init db time) := .refl
  obtain ⟨hC, -, hsound⟩ := sound_session_from Γ₀ Q₀ (P := fun _ ↦ True) hvalid
    (fun _ _ _ _ ↦ hfaulty) hstart (by simp [unused, init]) trivial
    (fun S p _ hok ↦ hspawn S p hok S.moment)
    (fun _ _ _ _ _ _ ↦ trivial) (fun _ _ _ _ hm ↦ hrely _ _ hm) h
    fun S τ st _ ↦ hissue τ st S.moment
  exact ⟨hC, hsound⟩

/-! ### Counting -/

/-- When every answer of a kind is given to a session only while it has fewer of them than commits
of another kind, it never has more. -/
theorem Logged.countP_le (h : Logged Γ S) {i : ℕ} {p : Answer Db Ask Ans → Bool}
    {q : Effect Db Key Row Stmt → Bool}
    (hmay : ∀ τ a, (Γ i).may τ a → p a = true → τ.answers.countP p < τ.effects.countP q) :
    (S.traceOf i).answers.countP p ≤ (S.traceOf i).effects.countP q := by
  -- by induction on the number of answers given so far to all sessions
  have upto : ∀ n, (((S.answers.take n).filter fun a ↦ a.1 = i).map Prod.snd).countP p ≤
      (S.traceOf i).effects.countP q := by
    intro n
    induction n with
    | zero => simp
    | succ n ih =>
      rw [List.take_add_one, List.filter_append, List.map_append, List.countP_append]
      rcases ha : S.answers[n]? with - | a
      · simpa using ih
      by_cases hi : a.1 = i
      · rcases hp : p a.2 with - | -
        · simpa [hi, hp] using ih
        · obtain ⟨τ, heff, hans, hallowed⟩ := h.may ha
          rw [hi] at heff hans hallowed
          have hlt := hmay τ a.2 hallowed hp
          rw [hans] at hlt
          have hle : τ.effects.countP q ≤ (S.traceOf i).effects.countP q :=
            heff.sublist.countP_le
          simpa [hi, hp] using (Nat.succ_le_of_lt hlt).trans hle
      · simpa [hi] using ih
  simpa [traceOf] using upto S.answers.length

/-- When a session may commit no effect of a kind after another one, it commits at most one. -/
theorem Logged.eq_of_guar (h : Logged Γ S) {i : ℕ} {P : Effect Db Key Row Stmt → Prop}
    (hguar : ∀ τ e, (Γ i).guar τ e → P e → ∀ e' ∈ τ.effects, ¬P e') {p q : ℕ}
    {c d : Commit Db Key Row Stmt} (hc : S.history[p]? = some c) (hd : S.history[q]? = some d)
    (hci : c.session = i) (hdi : d.session = i) (hPc : P c.toEffect) (hPd : P d.toEffect) :
    p = q := by
  by_contra hne
  wlog hlt : p < q generalizing p q c d
  · exact this hd hc hdi hci hPd hPc (Ne.symm hne) (by omega)
  obtain ⟨τ, heff, -, hpaid⟩ := h.guar hd
  rw [hdi] at heff hpaid
  refine hguar τ _ hpaid hPd c.toEffect ?_ hPc
  rw [heff]
  refine List.mem_map_of_mem (List.mem_filter.2 ⟨?_, by simpa using hci⟩)
  exact List.mem_of_getElem? ((List.getElem?_take_of_lt hlt).trans hc)

private theorem countP_filter_key {γ : Type*} (l : List (ℕ × γ)) (p : ℕ → γ → Bool) (i : ℕ) :
    ((l.filter fun a ↦ a.1 = i).map Prod.snd).countP (p i) =
      ((l.filter fun a ↦ p a.1 a.2).map Prod.fst).count i := by
  rw [List.countP_map, List.countP_filter, List.count, List.countP_map, List.countP_filter]
  refine List.countP_congr fun a _ ↦ ?_
  by_cases hi : a.1 = i
  · simp [hi]
  · simp [hi]

private theorem countP_le_of_keys {α β : Type*} (l : List (ℕ × α)) (l' : List (ℕ × β))
    {p : ℕ → α → Bool} {q : ℕ → β → Bool}
    (h : ∀ i, ((l.filter fun a ↦ a.1 = i).map Prod.snd).countP (p i) ≤
      ((l'.filter fun b ↦ b.1 = i).map Prod.snd).countP (q i)) :
    l.countP (fun a ↦ p a.1 a.2) ≤ l'.countP fun b ↦ q b.1 b.2 := by
  have hsub : ((l.filter fun a ↦ p a.1 a.2).map Prod.fst).Subperm
      ((l'.filter fun b ↦ q b.1 b.2).map Prod.fst) :=
    List.subperm_ext_iff.2 fun i _ ↦ by
      rw [← countP_filter_key, ← countP_filter_key]
      exact h i
  simpa [List.countP_eq_length_filter] using hsub.length_le

/-- What no session has more of than commits, the system has no more of. -/
theorem countP_answers_le {p : ℕ → Answer Db Ask Ans → Bool}
    {q : ℕ → Effect Db Key Row Stmt → Bool}
    (h : ∀ i, (S.traceOf i).answers.countP (p i) ≤ (S.traceOf i).effects.countP (q i)) :
    S.answers.countP (fun a ↦ p a.1 a.2) ≤ S.history.countP fun c ↦ q c.session c.toEffect := by
  have hkeys := countP_le_of_keys S.answers
    (S.history.map fun c ↦ (c.session, c.toEffect)) (p := p) (q := q) fun i ↦ ?_
  · simpa [List.countP_map, Function.comp_def] using hkeys
  · simpa [traceOf, List.filter_map, Function.comp_def] using h i

/-- A measure of a row that no write decreases bounds the number of commits that increase it. -/
theorem Consistent.countP_add_le {db₀ : Db} (hC : Consistent E db₀ S) {k : Key}
    (μ : Option (Row k) → ℕ) {p : Commit Db Key Row Stmt → Bool}
    (hmono : ∀ old new s, ⟨k, old, new, s⟩ ∈ written S.history → μ old ≤ μ new)
    (hstep : ∀ (n : ℕ) c, S.history[n]? = some c → p c = true →
      μ (E.look c.moment.db k) < μ (E.look (E.apply c.moment.db c.writes) k)) :
    μ (E.look db₀ k) + S.history.countP p ≤ μ (E.look S.moment.db k) := by
  -- by induction on the number of commits
  have upto : ∀ n ≤ S.history.length, μ (E.look db₀ k) + (S.history.take n).countP p ≤
      μ (E.look (stateAt E db₀ S.history n) k) := by
    intro n
    induction n with
    | zero => simp [stateAt]
    | succ n ih =>
      intro hn
      have hlt : n < S.history.length := hn
      have hc : S.history[n]? = some S.history[n] := List.getElem?_eq_getElem hlt
      obtain ⟨hxid, -, hshows, -, -⟩ := hC.commit hc
      have hbefore : stateAt E db₀ S.history n = S.history[n].moment.db := by
        rw [hshows.db, hxid]
      have hle : μ (E.look (stateAt E db₀ S.history n) k) ≤
          μ (E.look (stateAt E db₀ S.history (n + 1)) k) :=
        hC.keeps (P := fun r ↦ μ (E.look (stateAt E db₀ S.history n) k) ≤ μ r) (Nat.le_succ n)
          le_rfl fun old new s _ hw hold ↦ hold.trans (hmono old new s hw)
      rw [List.take_add_one, hc, List.countP_append, ← Nat.add_assoc]
      refine (Nat.add_le_add_right (ih hlt.le) _).trans ?_
      rcases hp : p S.history[n] with - | -
      · simpa [hp] using hle
      · have hinc := Nat.succ_le_of_lt (hstep n _ hc hp)
        rw [← hbefore] at hinc
        rw [stateAt_succ db₀ hc]
        simpa [hp] using hinc
  have hall := upto S.history.length le_rfl
  rwa [List.take_length, stateAt, List.take_length, ← hC.now.2] at hall

/-- A condition on a row that every write keeps is brought about by one commit at most. -/
theorem Consistent.countP_le_one {db₀ : Db} (hC : Consistent E db₀ S) {k : Key}
    {P : Option (Row k) → Prop} {p : Commit Db Key Row Stmt → Bool}
    (hkeep : ∀ old new s, ⟨k, old, new, s⟩ ∈ written S.history → P old → P new)
    (hstep : ∀ (n : ℕ) c, S.history[n]? = some c → p c = true →
      ¬P (E.look c.moment.db k) ∧ P (E.look (E.apply c.moment.db c.writes) k)) :
    S.history.countP p ≤ 1 := by
  classical
  have hle := hC.countP_add_le (fun r ↦ if P r then 1 else 0) (p := p)
    (fun old new s hw ↦ ?_) fun n c hc hp ↦ ?_
  · refine (Nat.le_add_left _ _).trans (hle.trans ?_)
    split <;> omega
  · by_cases hold : P old
    · simp [hold, hkeep old new s hw hold]
    · simp [hold]
  · obtain ⟨hbefore, hafter⟩ := hstep n c hc hp
    simp [hbefore, hafter]

end System

end Txn

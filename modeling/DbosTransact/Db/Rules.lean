import DbosTransact.Db.Program

/-!
# Rules for programs of the runtime

The session logic of `Txn.wp` at the programs of this development. A specification `wpM` has two
postconditions, one for a result and one for an error. There is one rule for each thing a program
can do next, stated for "do this, then go on with `f`", so that a program is verified by applying
rules in the order of its lines. What a statement does is handed over as a completed evaluation
`Stmt.run v s = .done a ch` in a view `v` of the right snapshot.
-/

namespace Dbos

open Txn

abbrev DbMoment : Type := Moment Db
abbrev DbConn : Type := Conn Db Key Row Stmt
abbrev DbTrace : Type := Trace Db Key Row Stmt Ask Ask.Ans
abbrev DbSpec : Type := Spec Db Key Row Stmt Ask Ask.Ans
abbrev DbTx : Type := Tx Db Key Row Stmt
abbrev DbEffect : Type := Effect Db Key Row Stmt
abbrev DbWrite : Type := Write Key Row Stmt
abbrev DbAnswer : Type := Answer Db Ask Ask.Ans

/-- A postcondition at a result of type `α`. -/
abbrev DbPost (α : Type) : Type := Post Db Key Row Stmt Ask Ask.Ans α

/-- Every run of `p` keeps the guarantee and ends with `Q` of its result or `X` of its error. -/
def wpM {α : Type} (Γ : DbSpec) (p : DbosM α) (Q : DbPost α) (X : DbPost DbosError) (c : DbConn)
    (m : DbMoment) (τ : DbTrace) : Prop :=
  wp server Γ p.run (fun r ↦ match r with
    | .ok a => Q a
    | .error e => X e) c m τ

/-! ### Traces -/

/-- Since the trace `τ₀` the transactions `es` were committed, and every answer satisfies `P`. -/
structure Adds (τ₀ : DbTrace) (es : List DbEffect) (P : DbAnswer → Prop) (τ : DbTrace) : Prop where
  effects : τ.effects = τ₀.effects ++ es
  answers : ∃ l, τ.answers = τ₀.answers ++ l ∧ ∀ a ∈ l, P a

namespace Adds

variable {τ₀ τ τ' : DbTrace} {es es' : List DbEffect} {P P' : DbAnswer → Prop}

theorem refl (τ : DbTrace) : Adds τ [] P τ := ⟨by simp, [], by simp, by simp⟩

theorem trans (h : Adds τ₀ es P τ) (h' : Adds τ es' P τ') : Adds τ₀ (es ++ es') P τ' := by
  obtain ⟨l, hl, hall⟩ := h.answers
  obtain ⟨l', hl', hall'⟩ := h'.answers
  refine ⟨by simp [h'.effects, h.effects], l ++ l', by simp [hl', hl], fun a ha ↦ ?_⟩
  exact (List.mem_append.1 ha).elim (hall a) (hall' a)

theorem mono (h : Adds τ₀ es P τ) (hP : ∀ a, P a → P' a) : Adds τ₀ es P' τ := by
  obtain ⟨l, hl, hall⟩ := h.answers
  exact ⟨h.effects, l, hl, fun a ha ↦ hP a (hall a ha)⟩

theorem note (h : Adds τ₀ es P τ) {a : DbAnswer} (ha : P a) : Adds τ₀ es P (τ.note a) := by
  have hnote : Adds τ [] P (τ.note a) := ⟨by simp, [a], rfl, by simpa using ha⟩
  simpa using h.trans hnote

theorem commit (h : Adds τ₀ es P τ) (m : DbMoment) (snap : Option DbMoment) (ws : List DbWrite) :
    Adds τ₀ (es ++ [⟨m, snap, ws⟩]) P (τ.commit m (some (snap, ws))) :=
  h.trans ⟨rfl, [], by simp, by simp⟩

theorem mem_answers (h : Adds τ₀ es P τ) {a : DbAnswer} (ha : a ∈ τ.answers) :
    a ∈ τ₀.answers ∨ P a := by
  obtain ⟨l, hl, hall⟩ := h.answers
  rw [hl] at ha
  exact (List.mem_append.1 ha).imp_right (hall a)

theorem mem_effects (h : Adds τ₀ es P τ) {e : DbEffect} (he : e ∈ τ.effects) :
    e ∈ τ₀.effects ∨ e ∈ es := by
  rw [h.effects] at he
  exact List.mem_append.1 he

end Adds

/-- Not the launch of a body. -/
def NoSpawn (a : DbAnswer) : Prop := ∀ task, a.ask ≠ .spawn task

/-- The identifier was given to the session. -/
def Asked (τ : DbTrace) (x : String) : Prop := ∃ m, (⟨m, .newUuid, x⟩ : DbAnswer) ∈ τ.answers

theorem Asked.adds {τ τ' : DbTrace} {es : List DbEffect} {P : DbAnswer → Prop} {x : String}
    (h : Asked τ x) (hτ : Adds τ es P τ') : Asked τ' x := by
  obtain ⟨m, hm⟩ := h
  obtain ⟨l, hl, -⟩ := hτ.answers
  exact ⟨m, by rw [hl]; exact List.mem_append_left l hm⟩

theorem asked_note (τ : DbTrace) (m : DbMoment) (x : String) :
    Asked (τ.note ⟨m, .newUuid, x⟩) x :=
  ⟨m, List.mem_append_right _ List.mem_cons_self⟩

/-- Nothing is asked of a session. -/
def freeSpec (valid : DbMoment → (q : Ask) → q.Ans → Bool) : DbSpec where
  rely := Moment.Before
  rely_refl := Moment.Before.refl
  rely_trans := Moment.Before.trans
  valid := valid
  guar _ _ := True
  may _ _ := True

/-! ### Rules -/

section

variable {Γ : DbSpec} {α β : Type} {Q : DbPost α} {X : DbPost DbosError} {c : DbConn}
variable {m : DbMoment} {τ : DbTrace}

theorem wpM_mono {p : DbosM α} {Q' : DbPost α} {X' : DbPost DbosError} (h : wpM Γ p Q X c m τ)
    (hQ : ∀ a c m τ, Q a c m τ → Q' a c m τ) (hX : ∀ e c m τ, X e c m τ → X' e c m τ) :
    wpM Γ p Q' X' c m τ := by
  refine wp_mono h fun r c m τ hr ↦ ?_
  cases r with
  | ok a => exact hQ a c m τ hr
  | error e => exact hX e c m τ hr

theorem wpM_pure {a : α} (h : ∀ m', Γ.rely m m' → Q a c m' τ) :
    wpM Γ (pure a) Q X c m τ := h

theorem wpM_throw {e : DbosError} (h : ∀ m', Γ.rely m m' → X e c m' τ) :
    wpM Γ (throw e) Q X c m τ := h

theorem wpM_ofExcept {r : Except DbosError α} (hok : ∀ a m', r = .ok a → Γ.rely m m' → Q a c m' τ)
    (herr : ∀ e m', r = .error e → Γ.rely m m' → X e c m' τ) : wpM Γ (ofExcept r) Q X c m τ := by
  cases r with
  | ok a => exact fun m' hm ↦ hok a m' rfl hm
  | error e => exact fun m' hm ↦ herr e m' rfl hm

theorem wpM_bind {p : DbosM β} {f : β → DbosM α}
    (h : wpM Γ p (fun b c m τ ↦ wpM Γ (f b) Q X c m τ) X c m τ) :
    wpM Γ (p >>= f) Q X c m τ := by
  refine wp_bind (wp_mono (wp_later h) fun r c m τ hr ↦ ?_)
  cases r with
  | ok b => exact hr m (Γ.rely_refl m)
  | error e => exact hr

theorem wpM_map {p : DbosM β} {f : β → α} (h : wpM Γ p (fun b ↦ Q (f b)) X c m τ) :
    wpM Γ (f <$> p) Q X c m τ := by
  refine wpM_bind (p := p) (f := fun b ↦ pure (f b)) (wpM_mono (Q := fun b c m τ ↦
    ∀ m', Γ.rely m m' → Q (f b) c m' τ) (X := X) ?_ (fun _ _ _ _ h ↦ h) fun _ _ _ _ h ↦ h)
  refine wp_mono (wp_later h) fun r c m τ hr ↦ ?_
  cases r with
  | ok b => exact hr
  | error e => exact hr m (Γ.rely_refl m)

theorem wpM_attempt {p : DbosM β} {Q : DbPost (Except DbosError β)}
    (h : wpM Γ p (fun b ↦ Q (.ok b)) (fun e ↦ Q (.error e)) c m τ) :
    wpM Γ (attempt p) Q X c m τ := by
  refine wp_bind (wp_mono (wp_later h) fun r c m τ hr ↦ ?_)
  cases r with
  | ok b => exact hr
  | error e => exact hr

theorem wpM_ask {q : Ask} {f : q.Ans → DbosM α}
    (h : ∀ m', Γ.rely m m' → ∀ a, Γ.valid m' q a = true →
      Γ.may τ ⟨m', q, a⟩ ∧ wpM Γ (f a) Q X c m' (τ.note ⟨m', q, a⟩)) :
    wpM Γ (ask q >>= f) Q X c m τ := h

theorem wpM_begin {f : Unit → DbosM α}
    (herr : ∀ m' e, Γ.faulty → Γ.rely m m' → X (.ofSql e) c m' τ)
    (h : wpM Γ (f ()) Q X (.active ⟨.readCommitted, none, []⟩) m τ) :
    wpM Γ (beginTx >>= f) Q X c m τ :=
  fun _ hm ↦ ⟨fun hf _ _ hm' ↦ herr _ _ hf (Γ.rely_trans hm hm'), wp_env h hm⟩

theorem wpM_isolation {iso : Isolation} {tx : DbTx} {f : Unit → DbosM α}
    (herr : ∀ m' e, Γ.faulty → Γ.rely m m' → X (.ofSql e) .aborted m' τ)
    (h : wpM Γ (f ()) Q X (.active { tx with iso := iso }) m τ) :
    wpM Γ (setIsolation iso >>= f) Q X (.active tx) m τ := by
  refine fun m' hm ↦ ⟨fun hf _ _ hm' ↦ herr _ _ hf (Γ.rely_trans hm hm'), fun _ ↦
    ⟨by simp [Spec.Pays, finishIsolate], ?_, fun hf e m'' hm' ↦ ?_⟩⟩
  · rw [show (finishIsolate server iso (.active tx)).committed = none from rfl, Trace.commit_none]
    exact wp_env h hm
  · have hX := herr m'' e hf (Γ.rely_trans hm hm')
    rw [← Trace.commit_none τ m'] at hX
    exact hX

/-- A commit pays the guarantee; its reply may be lost. -/
theorem wpM_commit {tx : DbTx} {f : Unit → DbosM α}
    (hguar : ∀ m', Γ.rely m m' → server.Chain m'.db tx.writes →
      Γ.guar τ ⟨m', tx.snapshot, tx.writes⟩)
    (hfail : ∀ m' e, Γ.faulty → Γ.rely m m' → X (.ofSql e) .idle m' τ)
    (h : ∀ m', Γ.rely m m' → server.Chain m'.db tx.writes →
      wpM Γ (f ()) Q X .idle (m'.after server tx.writes)
        (τ.commit m' (some (tx.snapshot, tx.writes))))
    (hlost : ∀ m' m'' e, Γ.faulty → Γ.rely m m' → server.Chain m'.db tx.writes →
      Γ.rely (m'.after server tx.writes) m'' →
      X (.ofSql e) .idle m'' (τ.commit m' (some (tx.snapshot, tx.writes)))) :
    wpM Γ (commitTx >>= f) Q X (.active tx) m τ := by
  refine fun m' hm ↦ ⟨fun hf e m'' hm' ↦ hfail _ e hf (Γ.rely_trans hm hm'), fun hchain ↦ ?_⟩
  have hchain' := hchain _ rfl
  refine ⟨?_, h m' hm hchain', fun hf e m'' hm' ↦ hlost m' m'' e hf hm hchain' hm'⟩
  rintro t ⟨⟩
  exact hguar m' hm hchain'

/-- At the end of its scope a transaction is over, whatever became of it. -/
theorem wpM_transaction {p : DbosM α}
    (hbegin : ∀ m' e, Γ.faulty → Γ.rely m m' → X (.ofSql e) c m' τ)
    (h : wpM Γ p (fun a _ m τ ↦ Q a .idle m τ) (fun e _ m τ ↦ X e .idle m τ)
      (.active ⟨.readCommitted, none, []⟩) m τ) :
    wpM Γ (transaction p) Q X c m τ := by
  refine wpM_begin hbegin (wp_bind (wp_mono (wp_later h) fun r c m τ hr m' hm m'' hm' ↦ ?_))
  cases r with
  | ok a => exact hr m'' (Γ.rely_trans hm hm')
  | error e => exact hr m'' (Γ.rely_trans hm hm')

/-- A program that begins no transaction is in none when it ends. -/
theorem wpM_of_autocommits {P : Stmt → Prop} {A : Ask → Prop} {p : DbosM α} (hp : Sends P p A)
    (hauto : Autocommits p) (hguar : ∀ τ, ∀ e : DbEffect, (∀ w ∈ e.writes, P w.stmt) → Γ.guar τ e)
    (hmay : ∀ τ a, A a.ask → Γ.may τ a) :
    wpM Γ p (fun _ c _ _ ↦ c = .idle) (fun _ c _ _ ↦ c = .idle) .idle m τ :=
  wp_mono (wp_of_autocommits hp hauto hguar hmay) fun r _ _ _ hc ↦ by cases r <;> exact hc

/-- A session of which nothing is asked needs no care. -/
theorem wpM_true {valid : DbMoment → (q : Ask) → q.Ans → Bool} (p : DbosM α) :
    wpM (freeSpec valid) p (fun _ _ _ _ ↦ True) (fun _ _ _ _ ↦ True) c m τ :=
  wp_mono (wp_of_all (Prog.all_true _) (fun _ _ _ ↦ trivial) (fun _ _ _ ↦ trivial)
    fun _ _ ↦ trivial) fun r _ _ _ _ ↦ by cases r <;> trivial

/-! ### Statements -/

/-- The view of a statement issued at `b` and carried out at `m` on an open transaction. -/
structure ActiveView (tx : DbTx) (b m : DbMoment) (v : DbView Stmt) : Prop where
  iso : v.iso = tx.iso
  base : v.base = server.apply ((Conn.active tx).snapshot b).db tx.writes
  cur : v.cur = server.apply m.db tx.writes

/-- The view of a statement issued at `b` and carried out at `m` outside a transaction. -/
structure IdleView (b m : DbMoment) (v : DbView Stmt) : Prop where
  iso : v.iso = .readCommitted
  base : v.base = b.db
  cur : v.cur = m.db

/-- Why a statement gives an error: the request failed, or the server refuses the statement in one
of the given views. -/
def Refused (Γ : DbSpec) (s : Stmt) (V : DbView Stmt → Prop) (e : SqlError) : Prop :=
  Γ.faulty ∨ ∃ v, V v ∧ Stmt.run v s = .fail e

/-- The transaction once a statement issued at `b` has fixed its snapshot. -/
def pinTx (tx : DbTx) (b : DbMoment) : DbTx :=
  { tx with
    snapshot := if tx.iso = .repeatableRead then some (tx.snapshot.getD b) else tx.snapshot }

theorem pin_active (tx : DbTx) (b : DbMoment) :
    (Conn.active tx).pin b = .active (pinTx tx b) := by
  obtain ⟨iso, snap, ws⟩ := tx
  cases iso <;> cases snap <;> rfl

theorem finishStmt_active {plan : Key → ℕ} {others : List DbWrite} {b m : DbMoment} {tx : DbTx}
    {s : Stmt} {r : Reply Db Key Row Stmt (Except SqlError s.Res)}
    (h : finishStmt server plan others b m (.active tx) s = some r) :
    (∃ v e, ActiveView tx b m v ∧ Stmt.run v s = .fail e ∧ r = ⟨.error e, .aborted, none⟩) ∨
    ∃ v a ch, ActiveView tx b m v ∧ Stmt.run v s = .done a ch ∧
      r = ⟨.ok a, .active { tx with writes := tx.writes ++ store.record s v.cur ch }, none⟩ := by
  rw [finishStmt] at h
  split at h
  · cases h
  · rename_i e ws heval
    cases h
    exact Or.inl ⟨_, e, ⟨rfl, rfl, rfl⟩, (engine_eval_error heval).1, rfl⟩
  · rename_i a ws heval
    cases h
    obtain ⟨ch, hrun, rfl⟩ := engine_eval_ok heval
    exact Or.inr ⟨_, a, ch, ⟨rfl, rfl, rfl⟩, hrun, rfl⟩

/-- A statement inside a transaction, with what may be assumed of the state it is sent in. -/
theorem wpM_execute_active_issued {s : Stmt} {tx : DbTx} {f : Except SqlError s.Res → DbosM α}
    (herr : ∀ b m' e, Γ.rely m b → Γ.rely b m' → Refused Γ s (ActiveView (pinTx tx b) b m') e →
      wpM Γ (f (.error e)) Q X .aborted m' τ)
    (h : ∀ b m' v a ch, Γ.rely m b → Γ.issue τ s b → Γ.rely b m' → ActiveView (pinTx tx b) b m' v →
      Stmt.run v s = .done a ch → wpM Γ (f (.ok a)) Q X
        (.active { pinTx tx b with writes := tx.writes ++ store.record s v.cur ch }) m' τ) :
    wpM Γ (execute s >>= f) Q X (.active tx) m τ := by
  intro b hb hsent m' hm'
  rw [pin_active]
  refine ⟨fun hf e ↦ herr b m' e hb hm' (Or.inl hf), fun plan others r hr ↦ ?_⟩
  rcases finishStmt_active hr with ⟨v, e, hv, hrun, rfl⟩ | ⟨v, a, ch, hv, hrun, rfl⟩
  · refine fun _ ↦ ⟨by simp [Spec.Pays], ?_, fun hf e' ↦ ?_⟩
    · rw [Trace.commit_none]
      exact herr b m' e hb hm' (Or.inr ⟨v, hv, hrun⟩)
    · rw [Trace.commit_none]
      exact herr b m' e' hb hm' (Or.inl hf)
  · refine fun _ ↦ ⟨by simp [Spec.Pays], ?_, fun hf e' ↦ ?_⟩
    · rw [Trace.commit_none]
      exact h b m' v a ch hb hsent hm' hv hrun
    · rw [Trace.commit_none]
      exact herr b m' e' hb hm' (Or.inl hf)

/-- A statement inside a transaction. -/
theorem wpM_execute_active {s : Stmt} {tx : DbTx} {f : Except SqlError s.Res → DbosM α}
    (herr : ∀ b m' e, Γ.rely m b → Γ.rely b m' → Refused Γ s (ActiveView (pinTx tx b) b m') e →
      wpM Γ (f (.error e)) Q X .aborted m' τ)
    (h : ∀ b m' v a ch, Γ.rely m b → Γ.rely b m' → ActiveView (pinTx tx b) b m' v →
      Stmt.run v s = .done a ch → wpM Γ (f (.ok a)) Q X
        (.active { pinTx tx b with writes := tx.writes ++ store.record s v.cur ch }) m' τ) :
    wpM Γ (execute s >>= f) Q X (.active tx) m τ :=
  wpM_execute_active_issued herr fun b m' v a ch hb _ ↦ h b m' v a ch hb

/-- A statement outside a transaction commits by itself. -/
theorem wpM_execute_idle_issued {s : Stmt} {f : Except SqlError s.Res → DbosM α}
    (herr : ∀ b m' e, Γ.rely m b → Γ.rely b m' → Refused Γ s (IdleView b m') e →
      wpM Γ (f (.error e)) Q X .idle m' τ)
    (h : ∀ b m' v a ch, Γ.rely m b → Γ.issue τ s b → Γ.rely b m' → IdleView b m' v →
      Stmt.run v s = .done a ch →
      Γ.guar τ ⟨m', some b, store.record s m'.db ch⟩ ∧
      wpM Γ (f (.ok a)) Q X .idle (m'.after server (store.record s m'.db ch))
        (τ.commit m' (some (some b, store.record s m'.db ch))) ∧
      (Γ.faulty → ∀ e, wpM Γ (f (.error e)) Q X .idle (m'.after server (store.record s m'.db ch))
        (τ.commit m' (some (some b, store.record s m'.db ch))))) :
    wpM Γ (execute s >>= f) Q X .idle m τ := by
  intro b hb hsent m' hm'
  refine ⟨fun hf e ↦ herr b m' e hb hm' (Or.inl hf), fun plan others r hr ↦ ?_⟩
  rw [show (Conn.idle : DbConn).pin b = .idle from rfl, finishStmt] at hr
  split at hr
  · cases hr
  · rename_i e ws heval
    cases hr
    refine fun _ ↦ ⟨by simp [Spec.Pays], ?_, fun hf e' ↦ ?_⟩
    · rw [Trace.commit_none]
      exact herr b m' e hb hm' (Or.inr ⟨_, ⟨rfl, rfl, rfl⟩, (engine_eval_error heval).1⟩)
    · rw [Trace.commit_none]
      exact herr b m' e' hb hm' (Or.inl hf)
  · rename_i a ws heval
    cases hr
    obtain ⟨ch, hrun, rfl⟩ := engine_eval_ok heval
    obtain ⟨hguar, hok, hlost⟩ := h b m' ⟨plan, .readCommitted, b.db, m'.db, others⟩ a ch hb hsent
      hm' ⟨rfl, rfl, rfl⟩ hrun
    refine fun _ ↦ ⟨?_, hok, hlost⟩
    rintro t ⟨⟩
    exact hguar

theorem wpM_execute_idle {s : Stmt} {f : Except SqlError s.Res → DbosM α}
    (herr : ∀ b m' e, Γ.rely m b → Γ.rely b m' → Refused Γ s (IdleView b m') e →
      wpM Γ (f (.error e)) Q X .idle m' τ)
    (h : ∀ b m' v a ch, Γ.rely m b → Γ.rely b m' → IdleView b m' v → Stmt.run v s = .done a ch →
      Γ.guar τ ⟨m', some b, store.record s m'.db ch⟩ ∧
      wpM Γ (f (.ok a)) Q X .idle (m'.after server (store.record s m'.db ch))
        (τ.commit m' (some (some b, store.record s m'.db ch))) ∧
      (Γ.faulty → ∀ e, wpM Γ (f (.error e)) Q X .idle (m'.after server (store.record s m'.db ch))
        (τ.commit m' (some (some b, store.record s m'.db ch))))) :
    wpM Γ (execute s >>= f) Q X .idle m τ :=
  wpM_execute_idle_issued herr fun b m' v a ch hb _ ↦ h b m' v a ch hb

theorem query_bind (s : Stmt) (f : s.Res → DbosM α) :
    (query s >>= f) = execute s >>= fun r ↦ match r with
      | .ok a => f a
      | .error e => throw (.ofSql e) := by
  rw [query, bind_assoc]
  refine bind_congr fun r ↦ ?_
  cases r <;> simp

theorem wpM_query_active_issued {s : Stmt} {tx : DbTx} {f : s.Res → DbosM α}
    (herr : ∀ b m' m'' e, Γ.rely m b → Γ.rely b m' →
      Refused Γ s (ActiveView (pinTx tx b) b m') e → Γ.rely m' m'' → X (.ofSql e) .aborted m'' τ)
    (h : ∀ b m' v a ch, Γ.rely m b → Γ.issue τ s b → Γ.rely b m' → ActiveView (pinTx tx b) b m' v →
      Stmt.run v s = .done a ch → wpM Γ (f a) Q X
        (.active { pinTx tx b with writes := tx.writes ++ store.record s v.cur ch }) m' τ) :
    wpM Γ (query s >>= f) Q X (.active tx) m τ := by
  rw [query_bind]
  exact wpM_execute_active_issued
    (fun b m' e hb hm' hwhy ↦ wpM_throw fun m'' hm'' ↦ herr b m' m'' e hb hm' hwhy hm'') h

theorem wpM_query_active {s : Stmt} {tx : DbTx} {f : s.Res → DbosM α}
    (herr : ∀ b m' m'' e, Γ.rely m b → Γ.rely b m' →
      Refused Γ s (ActiveView (pinTx tx b) b m') e → Γ.rely m' m'' → X (.ofSql e) .aborted m'' τ)
    (h : ∀ b m' v a ch, Γ.rely m b → Γ.rely b m' → ActiveView (pinTx tx b) b m' v →
      Stmt.run v s = .done a ch → wpM Γ (f a) Q X
        (.active { pinTx tx b with writes := tx.writes ++ store.record s v.cur ch }) m' τ) :
    wpM Γ (query s >>= f) Q X (.active tx) m τ :=
  wpM_query_active_issued herr fun b m' v a ch hb _ ↦ h b m' v a ch hb

theorem wpM_query_idle {s : Stmt} {f : s.Res → DbosM α}
    (herr : ∀ b m' m'' e, Γ.rely m b → Γ.rely b m' → Refused Γ s (IdleView b m') e →
      Γ.rely m' m'' → X (.ofSql e) .idle m'' τ)
    (h : ∀ b m' v a ch, Γ.rely m b → Γ.rely b m' → IdleView b m' v → Stmt.run v s = .done a ch →
      Γ.guar τ ⟨m', some b, store.record s m'.db ch⟩ ∧
      wpM Γ (f a) Q X .idle (m'.after server (store.record s m'.db ch))
        (τ.commit m' (some (some b, store.record s m'.db ch))) ∧
      ∀ e m'', Γ.faulty → Γ.rely (m'.after server (store.record s m'.db ch)) m'' →
        X (.ofSql e) .idle m'' (τ.commit m' (some (some b, store.record s m'.db ch)))) :
    wpM Γ (query s >>= f) Q X .idle m τ := by
  rw [query_bind]
  refine wpM_execute_idle (fun b m' e hb hm' hwhy ↦ wpM_throw fun m'' hm'' ↦
      herr b m' m'' e hb hm' hwhy hm'') ?_
  intro b m' v a ch hb hm' hv hrun
  obtain ⟨hguar, hok, hlost⟩ := h b m' v a ch hb hm' hv hrun
  exact ⟨hguar, hok, fun hf e ↦ wpM_throw fun m'' hm'' ↦ hlost e m'' hf hm''⟩

end

end Dbos

import DbosTransact.Foundation.Session

/-!
# Reasoning about one session among many

A weakest precondition for `Prog`s that run next to other sessions. Between any two requests of the
program the shared state may change, but only along a relation `rely` that the other sessions keep;
in return every transaction the program commits has to satisfy `guar`. Failures are built in: each
clause also covers the request failing and its reply being lost.

`wp_bind` makes the logic compositional, `Session.Sat` carries it through the two halves of a
statement, and `Sound` lifts it to a whole system: when every program that is ever spawned meets its
specification on its own, every committed transaction satisfies `guar` and every finished session
its postcondition, in every interleaving. The lock discipline that a system keeps, whatever its
programs are, is `Locked`: open transactions have written disjoint sets of rows, and the rows they
replaced are still the committed ones.
-/

namespace Txn

variable {Db Key : Type} {Row : Key → Type} {Stmt : Type} {Res : Stmt → Type}
variable {Err Plan Ask : Type} {Ans : Ask → Type} {ρ α β : Type}

namespace Moment

variable (E : Engine Db Key Row Stmt Res Err Plan)

/-- The moment after a request that committed `c`. -/
def advance (m : Moment Db) : Committed Db Key Row Stmt → Moment Db
  | none => m
  | some t => m.after E t.2

@[simp] theorem advance_none (m : Moment Db) : m.advance E none = m := rfl

@[simp] theorem advance_some (m : Moment Db) (t : Option (Moment Db) × List (Write Key Row Stmt)) :
    m.advance E (some t) = m.after E t.2 := rfl

/-- The committed transaction as an effect. -/
def effects (m : Moment Db) (c : Committed Db Key Row Stmt) : List (Effect Db Key Row Stmt) :=
  c.toList.map fun t ↦ ⟨m, t.1, t.2⟩

@[simp] theorem effects_none (m : Moment Db) :
    m.effects (none : Committed Db Key Row Stmt) = [] := rfl

@[simp] theorem effects_some (m : Moment Db)
    (t : Option (Moment Db) × List (Write Key Row Stmt)) :
    m.effects (some t) = [⟨m, t.1, t.2⟩] := rfl

theorem before_advance (m : Moment Db) (c : Committed Db Key Row Stmt) :
    m.Before (m.advance E c) := by
  cases c with
  | none => exact Before.refl m
  | some t => exact before_after E m t.2

end Moment

/-- What a session has done so far: the transactions it committed and the answers it got. -/
structure Trace (Db Key : Type) (Row : Key → Type) (Stmt Ask : Type) (Ans : Ask → Type) where
  effects : List (Effect Db Key Row Stmt) := []
  answers : List (Answer Db Ask Ans) := []

namespace Trace

/-- The trace after a request at `m` that committed `c`. -/
def commit (τ : Trace Db Key Row Stmt Ask Ans) (m : Moment Db) (c : Committed Db Key Row Stmt) :
    Trace Db Key Row Stmt Ask Ans :=
  { τ with effects := τ.effects ++ m.effects c }

/-- The trace after an answer. -/
def note (τ : Trace Db Key Row Stmt Ask Ans) (a : Answer Db Ask Ans) :
    Trace Db Key Row Stmt Ask Ans :=
  { τ with answers := τ.answers ++ [a] }

@[simp] theorem commit_none (τ : Trace Db Key Row Stmt Ask Ans) (m : Moment Db) :
    τ.commit m none = τ := by
  simp [commit]

@[simp] theorem effects_commit (τ : Trace Db Key Row Stmt Ask Ans) (m : Moment Db)
    (c : Committed Db Key Row Stmt) : (τ.commit m c).effects = τ.effects ++ m.effects c := rfl

@[simp] theorem answers_commit (τ : Trace Db Key Row Stmt Ask Ans) (m : Moment Db)
    (c : Committed Db Key Row Stmt) : (τ.commit m c).answers = τ.answers := rfl

@[simp] theorem effects_note (τ : Trace Db Key Row Stmt Ask Ans) (a : Answer Db Ask Ans) :
    (τ.note a).effects = τ.effects := rfl

/-- The trace after a step that committed `c` and, if it answered a question, got `a`. -/
def step (τ : Trace Db Key Row Stmt Ask Ans) (m : Moment Db) (c : Committed Db Key Row Stmt) :
    Option (Answer Db Ask Ans) → Trace Db Key Row Stmt Ask Ans
  | none => τ.commit m c
  | some a => (τ.commit m c).note a

@[simp] theorem step_none (τ : Trace Db Key Row Stmt Ask Ans) (m : Moment Db)
    (c : Committed Db Key Row Stmt) : τ.step m c none = τ.commit m c := rfl

@[simp] theorem step_some (τ : Trace Db Key Row Stmt Ask Ans) (m : Moment Db)
    (c : Committed Db Key Row Stmt) (a : Answer Db Ask Ans) :
    τ.step m c (some a) = (τ.commit m c).note a := rfl

@[simp] theorem answers_note (τ : Trace Db Key Row Stmt Ask Ans) (a : Answer Db Ask Ans) :
    (τ.note a).answers = τ.answers ++ [a] := rfl

end Trace

/-- What a session may assume and has to guarantee. -/
structure Spec (Db Key : Type) (Row : Key → Type) (Stmt Ask : Type) (Ans : Ask → Type) where
  /-- How the shared state may change between two requests. -/
  rely : Moment Db → Moment Db → Prop
  rely_refl : ∀ m, rely m m
  rely_trans : ∀ {m₁ m₂ m₃}, rely m₁ m₂ → rely m₂ m₃ → rely m₁ m₃
  /-- The answers a question may get. -/
  valid : Moment Db → (q : Ask) → Ans q → Bool
  /-- What a transaction satisfies that is committed after the given trace. -/
  guar : Trace Db Key Row Stmt Ask Ans → Effect Db Key Row Stmt → Prop
  /-- What an answer satisfies that is got after the given trace. -/
  may : Trace Db Key Row Stmt Ask Ans → Answer Db Ask Ans → Prop := fun _ _ ↦ True
  /-- What may be assumed of the state a statement is sent in, after the given trace. -/
  issue : Trace Db Key Row Stmt Ask Ans → Stmt → Moment Db → Prop := fun _ _ _ ↦ True
  /-- Whether the session's requests may fail or their replies be lost. An error that the server
  gives for a statement is a reply like any other. -/
  faulty : Prop := True

/-- Nothing is asked of a session, and the others may do anything. -/
def Spec.free (valid : Moment Db → (q : Ask) → Ans q → Bool) : Spec Db Key Row Stmt Ask Ans where
  rely := Moment.Before
  rely_refl := Moment.Before.refl
  rely_trans := Moment.Before.trans
  valid := valid
  guar _ _ := True

section

variable (E : Engine Db Key Row Stmt Res Err Plan) (Γ : Spec Db Key Row Stmt Ask Ans)

/-- The obligation of a request that committed `c` at `m`. -/
def Spec.Pays (m : Moment Db) (τ : Trace Db Key Row Stmt Ask Ans)
    (c : Committed Db Key Row Stmt) : Prop :=
  ∀ t ∈ c, Γ.guar τ ⟨m, t.1, t.2⟩

/-- A postcondition: of the value returned, and of the connection, the moment and the trace of the
session at that point. -/
abbrev Post (Db Key : Type) (Row : Key → Type) (Stmt Ask : Type) (Ans : Ask → Type)
    (α : Type) : Type :=
  α → Conn Db Key Row Stmt → Moment Db → Trace Db Key Row Stmt Ask Ans → Prop

/-- Whatever reply a request gets, the client goes on safely: with the server's reply, or with an
error although the request took effect. The rows that were replaced are the committed ones. -/
def Spec.Replied {γ : Type} (m : Moment Db) (τ : Trace Db Key Row Stmt Ask Ans)
    (r : Reply Db Key Row Stmt (Except Err γ)) (K : Post Db Key Row Stmt Ask Ans (Except Err γ)) :
    Prop :=
  (∀ t ∈ r.committed, E.Chain m.db t.2) → Γ.Pays m τ r.committed ∧
    K r.value r.conn (m.advance E r.committed) (τ.commit m r.committed) ∧
    (Γ.faulty → ∀ e,
      K (.error e) r.conn.abort (m.advance E r.committed) (τ.commit m r.committed))

/-- Every run of the program from connection `c` at a moment reachable from `m` keeps `Γ.guar` and
ends with `Q`. -/
def wp : Prog Stmt Res Err Ask Ans α → Post Db Key Row Stmt Ask Ans α →
    Conn Db Key Row Stmt → Moment Db → Trace Db Key Row Stmt Ask Ans → Prop
  | .pure a, Q, c, m, τ => ∀ m', Γ.rely m m' → Q a c m' τ
  | .sql s k, Q, c, m, τ => ∀ b, Γ.rely m b → Γ.issue τ s b → ∀ m', Γ.rely b m' →
      (Γ.faulty → ∀ e, wp (k (.error e)) Q (c.pin b).abort m' τ) ∧
      ∀ plan others r, finishStmt E plan others b m' (c.pin b) s = some r →
        Γ.Replied E m' τ r fun v c' m'' τ' ↦ wp (k v) Q c' m'' τ'
  | .ask q k, Q, c, m, τ => ∀ m', Γ.rely m m' → ∀ a : Ans q, Γ.valid m' q a = true →
      Γ.may τ ⟨m', q, a⟩ ∧ wp (k a) Q c m' (τ.note ⟨m', q, a⟩)
  | .begin k, Q, c, m, τ => ∀ m', Γ.rely m m' →
      (Γ.faulty → ∀ e, wp (k (.error e)) Q c m' τ) ∧
      wp (k (.ok ())) Q (.active ⟨.readCommitted, none, []⟩) m' τ
  | .isolate iso k, Q, c, m, τ => ∀ m', Γ.rely m m' →
      (Γ.faulty → ∀ e, wp (k (.error e)) Q c.abort m' τ) ∧
      Γ.Replied E m' τ (finishIsolate E iso c) fun v c' m'' τ' ↦ wp (k v) Q c' m'' τ'
  | .commit k, Q, c, m, τ => ∀ m', Γ.rely m m' →
      (Γ.faulty → ∀ e, wp (k (.error e)) Q .idle m' τ) ∧
      Γ.Replied E m' τ (finishCommit c) fun v c' m'' τ' ↦ wp (k v) Q c' m'' τ'
  | .rollback k, Q, _, m, τ => ∀ m', Γ.rely m m' → wp (k ()) Q .idle m' τ

variable {E Γ}

/-- The shared state may move before a program starts. -/
theorem wp_env {p : Prog Stmt Res Err Ask Ans α} {Q : Post Db Key Row Stmt Ask Ans α}
    {c : Conn Db Key Row Stmt} {m m' : Moment Db} {τ : Trace Db Key Row Stmt Ask Ans}
    (h : wp E Γ p Q c m τ) (hm : Γ.rely m m') : wp E Γ p Q c m' τ := by
  cases p with
  | pure a => exact fun m₁ h₁ ↦ h m₁ (Γ.rely_trans hm h₁)
  | sql s k => exact fun b hb ↦ h b (Γ.rely_trans hm hb)
  | ask q k => exact fun m₁ h₁ ↦ h m₁ (Γ.rely_trans hm h₁)
  | begin k => exact fun m₁ h₁ ↦ h m₁ (Γ.rely_trans hm h₁)
  | isolate iso k => exact fun m₁ h₁ ↦ h m₁ (Γ.rely_trans hm h₁)
  | commit k => exact fun m₁ h₁ ↦ h m₁ (Γ.rely_trans hm h₁)
  | rollback k => exact fun m₁ h₁ ↦ h m₁ (Γ.rely_trans hm h₁)

theorem Spec.Replied.mono {γ : Type} {m : Moment Db} {τ : Trace Db Key Row Stmt Ask Ans}
    {r : Reply Db Key Row Stmt (Except Err γ)}
    {K K' : Post Db Key Row Stmt Ask Ans (Except Err γ)}
    (h : Γ.Replied E m τ r K) (hK : ∀ v c m τ, K v c m τ → K' v c m τ) :
    Γ.Replied E m τ r K' :=
  fun hchain ↦ ⟨(h hchain).1, hK _ _ _ _ (h hchain).2.1,
    fun hf e ↦ hK _ _ _ _ ((h hchain).2.2 hf e)⟩

theorem wp_mono {p : Prog Stmt Res Err Ask Ans α} {Q Q' : Post Db Key Row Stmt Ask Ans α}
    {c : Conn Db Key Row Stmt} {m : Moment Db} {τ : Trace Db Key Row Stmt Ask Ans}
    (h : wp E Γ p Q c m τ) (hQ : ∀ a c m τ, Q a c m τ → Q' a c m τ) : wp E Γ p Q' c m τ := by
  induction p generalizing c m τ with
  | pure a => exact fun m₁ h₁ ↦ hQ _ _ _ _ (h m₁ h₁)
  | sql s k ih =>
    intro b hb hi m' hm'
    obtain ⟨hfail, hok⟩ := h b hb hi m' hm'
    exact ⟨fun hf e ↦ ih _ (hfail hf e),
      fun plan others r hr ↦ (hok plan others r hr).mono fun v c m τ hv ↦ ih v hv⟩
  | ask q k ih => exact fun m₁ h₁ a ha ↦ ⟨(h m₁ h₁ a ha).1, ih _ (h m₁ h₁ a ha).2⟩
  | begin k ih => exact fun m₁ h₁ ↦ ⟨fun hf e ↦ ih _ ((h m₁ h₁).1 hf e), ih _ (h m₁ h₁).2⟩
  | isolate iso k ih =>
    exact fun m₁ h₁ ↦
      ⟨fun hf e ↦ ih _ ((h m₁ h₁).1 hf e), (h m₁ h₁).2.mono fun v c m τ hv ↦ ih v hv⟩
  | commit k ih =>
    exact fun m₁ h₁ ↦
      ⟨fun hf e ↦ ih _ ((h m₁ h₁).1 hf e), (h m₁ h₁).2.mono fun v c m τ hv ↦ ih v hv⟩
  | rollback k ih => exact fun m₁ h₁ ↦ ih _ (h m₁ h₁)

theorem wp_bind {p : Prog Stmt Res Err Ask Ans α} {f : α → Prog Stmt Res Err Ask Ans β}
    {Q : Post Db Key Row Stmt Ask Ans β} {c : Conn Db Key Row Stmt} {m : Moment Db}
    {τ : Trace Db Key Row Stmt Ask Ans}
    (h : wp E Γ p (fun a c m τ ↦ wp E Γ (f a) Q c m τ) c m τ) :
    wp E Γ (p.bind f) Q c m τ := by
  induction p generalizing c m τ with
  | pure a => exact h m (Γ.rely_refl m)
  | sql s k ih =>
    intro b hb hi m' hm'
    obtain ⟨hfail, hok⟩ := h b hb hi m' hm'
    exact ⟨fun hf e ↦ ih _ (hfail hf e),
      fun plan others r hr ↦ (hok plan others r hr).mono fun v c m τ hv ↦ ih v hv⟩
  | ask q k ih => exact fun m₁ h₁ a ha ↦ ⟨(h m₁ h₁ a ha).1, ih _ (h m₁ h₁ a ha).2⟩
  | begin k ih => exact fun m₁ h₁ ↦ ⟨fun hf e ↦ ih _ ((h m₁ h₁).1 hf e), ih _ (h m₁ h₁).2⟩
  | isolate iso k ih =>
    exact fun m₁ h₁ ↦
      ⟨fun hf e ↦ ih _ ((h m₁ h₁).1 hf e), (h m₁ h₁).2.mono fun v c m τ hv ↦ ih v hv⟩
  | commit k ih =>
    exact fun m₁ h₁ ↦
      ⟨fun hf e ↦ ih _ ((h m₁ h₁).1 hf e), (h m₁ h₁).2.mono fun v c m τ hv ↦ ih v hv⟩
  | rollback k ih => exact fun m₁ h₁ ↦ ih _ (h m₁ h₁)

/-- What holds at the end of a program still holds when the shared state moves on. -/
theorem wp_later {p : Prog Stmt Res Err Ask Ans α} {Q : Post Db Key Row Stmt Ask Ans α}
    {c : Conn Db Key Row Stmt} {m : Moment Db} {τ : Trace Db Key Row Stmt Ask Ans}
    (h : wp E Γ p Q c m τ) :
    wp E Γ p (fun a c m τ ↦ ∀ m', Γ.rely m m' → Q a c m' τ) c m τ := by
  induction p generalizing c m τ with
  | pure a => exact fun m₁ h₁ m₂ h₂ ↦ h m₂ (Γ.rely_trans h₁ h₂)
  | sql s k ih =>
    intro b hb hi m' hm'
    obtain ⟨hfail, hok⟩ := h b hb hi m' hm'
    exact ⟨fun hf e ↦ ih _ (hfail hf e),
      fun plan others r hr ↦ (hok plan others r hr).mono fun v c m τ hv ↦ ih v hv⟩
  | ask q k ih => exact fun m₁ h₁ a ha ↦ ⟨(h m₁ h₁ a ha).1, ih _ (h m₁ h₁ a ha).2⟩
  | begin k ih => exact fun m₁ h₁ ↦ ⟨fun hf e ↦ ih _ ((h m₁ h₁).1 hf e), ih _ (h m₁ h₁).2⟩
  | isolate iso k ih =>
    exact fun m₁ h₁ ↦
      ⟨fun hf e ↦ ih _ ((h m₁ h₁).1 hf e), (h m₁ h₁).2.mono fun v c m τ hv ↦ ih v hv⟩
  | commit k ih =>
    exact fun m₁ h₁ ↦
      ⟨fun hf e ↦ ih _ ((h m₁ h₁).1 hf e), (h m₁ h₁).2.mono fun v c m τ hv ↦ ih v hv⟩
  | rollback k ih => exact fun m₁ h₁ ↦ ih _ (h m₁ h₁)

/-- A program all of whose statements satisfy `P` commits only writes of such statements, and one
all of whose questions satisfy `A` gets only answers to such questions. -/
theorem wp_of_all {P : Stmt → Prop} {A : Ask → Prop} {p : Prog Stmt Res Err Ask Ans α}
    (hp : p.All P A)
    (hguar : ∀ τ, ∀ e : Effect Db Key Row Stmt, (∀ w ∈ e.writes, P w.stmt) → Γ.guar τ e)
    (hmay : ∀ τ a, A a.ask → Γ.may τ a)
    {c : Conn Db Key Row Stmt} (hc : ∀ w ∈ c.writes, P w.stmt) {m : Moment Db}
    {τ : Trace Db Key Row Stmt Ask Ans} : wp E Γ p (fun _ _ _ _ ↦ True) c m τ := by
  have idle : ∀ w ∈ (Conn.idle : Conn Db Key Row Stmt).writes, P w.stmt := by simp
  have aborted : ∀ c : Conn Db Key Row Stmt, ∀ w ∈ c.abort.writes, P w.stmt := by simp
  induction p generalizing c m τ with
  | pure a => exact fun _ _ ↦ trivial
  | sql s k ih =>
    intro b hb _ m' hm'
    refine ⟨fun _ e ↦ ih _ (hp.2 _) (aborted _), fun plan others r hr ↦ ?_⟩
    have hpin : ∀ w ∈ (c.pin b).writes, P w.stmt := by simpa using hc
    generalize c.pin b = c' at hr hpin
    have hreply : (∀ t ∈ r.committed, ∀ w ∈ t.2, P w.stmt) ∧ ∀ w ∈ r.conn.writes, P w.stmt := by
      cases c' with
      | idle =>
        rw [finishStmt] at hr
        split at hr
        · cases hr
        · cases hr
          exact ⟨by simp, idle⟩
        · rename_i a ws heval
          cases hr
          refine ⟨?_, idle⟩
          rintro t ⟨⟩ w hw
          rw [E.eval_stmt heval w hw]
          exact hp.1
      | active tx =>
        rw [finishStmt] at hr
        split at hr
        · cases hr
        · cases hr
          exact ⟨by simp, by simp⟩
        · rename_i a ws heval
          cases hr
          refine ⟨by simp, fun w hw ↦ ?_⟩
          rcases List.mem_append.1 hw with hw | hw
          · exact hpin w hw
          · rw [E.eval_stmt heval w hw]
            exact hp.1
      | aborted =>
        cases hr
        exact ⟨by simp, by simp⟩
    exact fun _ ↦ ⟨fun t ht ↦ hguar _ _ (hreply.1 t ht), ih _ (hp.2 _) hreply.2,
      fun _ e ↦ ih _ (hp.2 _) (aborted _)⟩
  | ask q k ih => exact fun m₁ h₁ a ha ↦ ⟨hmay _ _ hp.1, ih _ (hp.2 a) hc⟩
  | begin k ih => exact fun m₁ h₁ ↦ ⟨fun _ e ↦ ih _ (hp _) hc, ih _ (hp _) (by simp)⟩
  | isolate iso k ih =>
    refine fun m₁ h₁ ↦ ⟨fun _ e ↦ ih _ (hp _) (aborted _), fun _ ↦ ⟨?_, ih _ (hp _) ?_,
      fun _ e ↦ ih _ (hp _) (aborted _)⟩⟩
    · cases c <;> simp [Spec.Pays, finishIsolate]
    · cases c <;> simp_all [finishIsolate]
  | commit k ih =>
    refine fun m₁ h₁ ↦ ⟨fun _ e ↦ ih _ (hp _) idle, fun _ ↦ ⟨?_, ih _ (hp _) ?_,
      fun _ e ↦ ih _ (hp _) (aborted _)⟩⟩
    · cases c with
      | active tx =>
        rintro t ⟨⟩
        exact hguar _ _ hc
      | _ => simp [Spec.Pays, finishCommit]
    · cases c <;> simp [finishCommit]
  | rollback k ih => exact fun m₁ h₁ ↦ ih _ (hp _) idle

/-- A program that begins no transaction is in none when it ends. -/
theorem wp_of_autocommits {P : Stmt → Prop} {A : Ask → Prop} {p : Prog Stmt Res Err Ask Ans α}
    (hp : p.All P A) (hauto : p.Autocommits)
    (hguar : ∀ τ, ∀ e : Effect Db Key Row Stmt, (∀ w ∈ e.writes, P w.stmt) → Γ.guar τ e)
    (hmay : ∀ τ a, A a.ask → Γ.may τ a) {m : Moment Db} {τ : Trace Db Key Row Stmt Ask Ans} :
    wp E Γ p (fun _ c _ _ ↦ c = .idle) .idle m τ := by
  induction p generalizing m τ with
  | pure a => exact fun _ _ ↦ rfl
  | sql s k ih =>
    intro b hb _ m' hm'
    refine ⟨fun _ e ↦ ih _ (hp.2 _) (hauto _), fun plan others r hr _ ↦ ?_⟩
    have hreply : r.conn = .idle ∧ ∀ t ∈ r.committed, ∀ w ∈ t.2, P w.stmt := by
      rw [show (Conn.idle : Conn Db Key Row Stmt).pin b = .idle from rfl, finishStmt] at hr
      split at hr
      · cases hr
      · cases hr
        exact ⟨rfl, by simp⟩
      · rename_i a ws heval
        cases hr
        refine ⟨rfl, ?_⟩
        rintro t ⟨⟩ w hw
        rw [E.eval_stmt heval w hw]
        exact hp.1
    rw [hreply.1]
    exact ⟨fun t ht ↦ hguar _ _ (hreply.2 t ht), ih _ (hp.2 _) (hauto _),
      fun _ e ↦ ih _ (hp.2 _) (hauto _)⟩
  | ask q k ih => exact fun m₁ _ a _ ↦ ⟨hmay _ _ hp.1, ih _ (hp.2 a) (hauto a)⟩
  | begin k ih => exact hauto.elim
  | isolate iso k ih =>
    exact fun m₁ _ ↦ ⟨fun _ e ↦ ih _ (hp _) (hauto _), fun _ ↦
      ⟨by simp [Spec.Pays, finishIsolate], ih _ (hp _) (hauto _), fun _ e ↦ ih _ (hp _) (hauto _)⟩⟩
  | commit k ih =>
    exact fun m₁ _ ↦ ⟨fun _ e ↦ ih _ (hp _) (hauto _), fun _ ↦
      ⟨by simp [Spec.Pays, finishCommit], ih _ (hp _) (hauto _), fun _ e ↦ ih _ (hp _) (hauto _)⟩⟩
  | rollback k ih => exact fun m₁ _ ↦ ih _ (hp _) (hauto _)

/-- Every program does what is asked of it when nothing is. -/
theorem wp_free {valid : Moment Db → (q : Ask) → Ans q → Bool} (p : Prog Stmt Res Err Ask Ans α)
    {c : Conn Db Key Row Stmt} {m : Moment Db} {τ : Trace Db Key Row Stmt Ask Ans} :
    wp E (Spec.free valid) p (fun _ _ _ _ ↦ True) c m τ :=
  wp_of_all (Prog.all_true p) (fun _ _ _ ↦ trivial) (fun _ _ _ ↦ trivial) fun _ _ ↦ trivial

end

/-! ### One session -/

namespace Session

/-- One step of a session at moment `m`, among the uncommitted writes `others`. A request may fail
or its reply be lost only if `faulty`. -/
inductive Step (E : Engine Db Key Row Stmt Res Err Plan)
    (valid : Moment Db → (q : Ask) → Ans q → Bool) (faulty : Prop)
    (others : List (Write Key Row Stmt)) (m : Moment Db)
    (s : Session Db Key Row Stmt Res Err Ask Ans ρ) : Session Db Key Row Stmt Res Err Ask Ans ρ →
    Committed Db Key Row Stmt →
      Option (Answer Db Ask Ans) → Prop
  | issue {s'} : s.issue m = some s' → Step E valid faulty others m s s' none none
  | finish {s' c} (plan : Plan) (lost : Option Err) : (lost.isSome = true → faulty) →
      s.finish E plan others m lost = some (s', c) → Step E valid faulty others m s s' c none
  | fail {s'} (e : Err) : faulty → s.fail e = some s' → Step E valid faulty others m s s' none none
  | answer {s' a} (o : (q : Ask) → Ans q) :
      s.answer valid m o = some (s', a) → Step E valid faulty others m s s' none (some a)

/-- The moments whose states a session may still read. -/
def snapshots (s : Session Db Key Row Stmt Res Err Ask Ans ρ) : List (Moment Db) :=
  s.issued.toList ++ s.conn.snapshots

/-- New writes of a session: they continue from the state `db`, are legal, and touch no row held by
another session. They are those of one statement, if there are any. -/
structure Writable (E : Engine Db Key Row Stmt Res Err Plan) (others : List (Write Key Row Stmt))
    (db : Db) (ws : List (Write Key Row Stmt)) : Prop where
  chain : E.Chain db ws
  legal : ∀ w ∈ ws, E.legal w
  free : ∀ w ∈ ws, ∀ o ∈ others, w.key ≠ o.key
  evaluated : ws = [] ∨ ∃ (plan : Plan) (iso : Isolation) (st : Stmt) (base : Db)
    (r : Except Err (Res st)), E.eval plan iso st base db others = some (r, ws)

theorem writable_nil (E : Engine Db Key Row Stmt Res Err Plan)
    (others : List (Write Key Row Stmt)) (db : Db) : Writable E others db [] :=
  ⟨trivial, by simp, by simp, Or.inl rfl⟩

theorem writable_eval {E : Engine Db Key Row Stmt Res Err Plan} {plan : Plan} {iso : Isolation}
    {s : Stmt} {base cur : Db} {others ws : List (Write Key Row Stmt)} {r : Except Err (Res s)}
    (h : E.eval plan iso s base cur others = some (r, ws)) : Writable E others cur ws :=
  ⟨E.eval_chain h, E.eval_legal h, E.eval_unlocked h, Or.inr ⟨_, _, _, _, _, h⟩⟩

/-- What a session step does to the rows the session holds. -/
inductive Moves (E : Engine Db Key Row Stmt Res Err Plan) (others : List (Write Key Row Stmt))
    (m : Moment Db) (s s' : Session Db Key Row Stmt Res Err Ask Ans ρ) :
    Committed Db Key Row Stmt → Prop
  /-- More rows are written. -/
  | extend (ws : List (Write Key Row Stmt)) : Writable E others (E.apply m.db s.conn.writes) ws →
      s'.conn.writes = s.conn.writes ++ ws → Moves E others m s s' none
  /-- The transaction is given up. -/
  | release : s'.conn.writes = [] → Moves E others m s s' none
  /-- The rows held and those written by this very request are committed. -/
  | commit (snap : Option (Moment Db)) (ws all : List (Write Key Row Stmt)) :
      all = s.conn.writes ++ ws → Writable E others (E.apply m.db s.conn.writes) ws →
      s'.conn.writes = [] → (∀ b ∈ snap, b ∈ s.snapshots) →
      Moves E others m s s' (some (snap, all))

section

variable {E : Engine Db Key Row Stmt Res Err Plan}
variable {valid : Moment Db → (q : Ask) → Ans q → Bool} {faulty : Prop}
variable {others : List (Write Key Row Stmt)} {m : Moment Db}
variable {s s' : Session Db Key Row Stmt Res Err Ask Ans ρ} {c : Committed Db Key Row Stmt}
variable {a : Option (Answer Db Ask Ans)}

theorem Step.mono {faulty' : Prop} (h : Step E valid faulty others m s s' c a)
    (hf : faulty → faulty') : Step E valid faulty' others m s s' c a := by
  cases h with
  | issue h => exact .issue h
  | finish plan lost hl h => exact .finish plan lost (fun h ↦ hf (hl h)) h
  | fail e hl h => exact .fail e (hf hl) h
  | answer o h => exact .answer o h

/-- What completing a statement does to the rows held. -/
theorem moves_finishStmt {plan : Plan} {b : Moment Db} {st : Stmt}
    {r : Reply Db Key Row Stmt (Except Err (Res st))} (hb : b ∈ s.snapshots)
    (h : finishStmt E plan others b m s.conn st = some r)
    (hs' : s'.conn = r.conn ∨ s'.conn = r.conn.abort) : Moves E others m s s' r.committed := by
  rcases hc : s.conn with - | tx | - <;> rw [hc] at h
  · -- outside a transaction: the statement commits what it wrote
    rw [finishStmt] at h
    rcases he : E.eval plan .readCommitted st b.db m.db others with - | ⟨e | v, ws⟩ <;>
      rw [he] at h <;> cases h
    · exact .release (by rcases hs' with h | h <;> rw [h] <;> rfl)
    · have hnil : s.conn.writes = [] := by rw [hc]; rfl
      exact .commit (some b) ws ws (by rw [hnil]; rfl) (by rw [hnil]; exact writable_eval he)
        (by rcases hs' with h | h <;> rw [h] <;> rfl) (by simpa using hb)
  · rw [finishStmt] at h
    rcases he : E.eval plan tx.iso st (E.apply ((Conn.active tx).snapshot b).db tx.writes)
        (E.apply m.db tx.writes) others with - | ⟨e | v, ws⟩ <;> rw [he] at h <;> cases h
    · exact .release (by rcases hs' with h | h <;> rw [h] <;> rfl)
    · rcases hs' with h | h
      · exact .extend ws (by rw [hc]; exact writable_eval he) (by rw [h, hc]; rfl)
      · exact .release (by rw [h]; rfl)
  · cases h
    exact .release (by rcases hs' with h | h <;> rw [h] <;> rfl)

theorem moves_finish {plan : Plan} {lost : Option Err}
    (h : s.finish E plan others m lost = some (s', c)) : Moves E others m s s' c := by
  obtain ⟨p, conn, issued⟩ := s
  cases p with
  | pure a => cases issued <;> cases h
  | ask q k => cases issued <;> cases h
  | sql st k =>
    cases issued with
    | none => cases h
    | some b =>
      obtain ⟨r, hr, heq⟩ := Option.map_eq_some_iff.1 h
      cases lost <;> cases heq
      · exact moves_finishStmt (s := ⟨.sql st k, conn, some b⟩) (by simp [snapshots]) hr
          (Or.inl rfl)
      · exact moves_finishStmt (s := ⟨.sql st k, conn, some b⟩) (by simp [snapshots]) hr
          (Or.inr rfl)
  | begin k =>
    cases issued <;> cases lost <;> cases h
    · exact .release rfl
    · exact .extend [] (writable_nil ..) (by simp [resume])
  | isolate iso k =>
    cases issued <;> cases lost <;> cases h <;> cases conn
    all_goals first
      | exact .release rfl
      | exact .extend [] (writable_nil ..) (by simp [resume, finishIsolate])
  | commit k =>
    cases issued <;> cases lost <;> cases h
    all_goals
      rcases conn with - | tx | -
      · exact .release rfl
      · exact .commit tx.snapshot [] tx.writes (by simp) (writable_nil ..) rfl
          (by simp [snapshots, Conn.snapshots])
      · exact .release rfl
  | rollback k =>
    cases issued <;> cases lost <;> cases h
    exact .release rfl

/-- An answer is given in the state it is asked in. -/
theorem Step.answered (h : Step E valid faulty others m s s' c a) : ∀ b ∈ a, b.moment = m := by
  cases h with
  | answer o h =>
    obtain ⟨p, conn, issued⟩ := s
    cases p <;> cases issued <;> try cases h
    simp only [Session.answer] at h
    split at h <;> cases h
    rintro b ⟨⟩
    rfl
  | _ => simp

/-- A step that commits gets no answer. -/
theorem Step.quiet {t : Option (Moment Db) × List (Write Key Row Stmt)}
    (h : Step E valid faulty others m s s' c a) (hc : c = some t) : a = none := by
  cases h with
  | answer o h => cases hc
  | _ => rfl

/-- The rows a session holds change only by the three moves. -/
theorem Step.moves (h : Step E valid faulty others m s s' c a) : Moves E others m s s' c := by
  cases h with
  | issue h =>
    obtain ⟨p, conn, issued⟩ := s
    cases p <;> cases issued <;> cases h
    exact .extend [] (writable_nil ..) (by simp)
  | finish plan lost _ h => exact moves_finish h
  | fail e _ h =>
    obtain ⟨p, conn, issued⟩ := s
    cases p <;> cases issued <;> cases h
    · exact .release (by simp [resume])
    · exact .extend [] (writable_nil ..) (by simp [resume])
    · exact .release (by simp [resume])
    · exact .release rfl
  | answer o h =>
    obtain ⟨p, conn, issued⟩ := s
    cases p <;> cases issued <;> try cases h
    simp only [Session.answer] at h
    split at h <;> cases h
    exact .extend [] (writable_nil ..) (by simp [resume])

theorem mem_snapshots_finishStmt {plan : Plan} {b b' : Moment Db} {st : Stmt}
    {conn : Conn Db Key Row Stmt} {r : Reply Db Key Row Stmt (Except Err (Res st))}
    (h : finishStmt E plan others b m conn st = some r) (hb : b' ∈ r.conn.snapshots) :
    b' ∈ conn.snapshots := by
  rcases conn with - | tx | -
  · rw [finishStmt] at h
    split at h <;> cases h <;> exact hb
  · rw [finishStmt] at h
    split at h <;> cases h
    · cases hb
    · exact hb
  · cases h
    exact hb

/-- A step takes at most one new snapshot, of the state it sees. -/
theorem Step.mem_snapshots (h : Step E valid faulty others m s s' c a) {b : Moment Db}
    (hb : b ∈ s'.snapshots) : b ∈ s.snapshots ∨ b = m := by
  obtain ⟨p, conn, issued⟩ := s
  cases h with
  | issue h =>
    cases p <;> cases issued <;> cases h
    rcases List.mem_append.1 hb with hb | hb
    · exact Or.inr (by simpa using hb)
    · rcases Conn.mem_snapshots_pin hb with h | h
      · exact Or.inl (List.mem_append_right _ h)
      · exact Or.inr h
  | finish plan lost _ h =>
    refine Or.inl (List.mem_append_right _ ?_)
    cases p with
    | pure a => cases issued <;> cases h
    | ask q k => cases issued <;> cases h
    | sql st k =>
      cases issued with
      | none => cases h
      | some b' =>
        obtain ⟨r, hr, heq⟩ := Option.map_eq_some_iff.1 h
        cases lost <;> cases heq
        · exact mem_snapshots_finishStmt hr hb
        · simp [snapshots, resume] at hb
    | begin k =>
      cases issued <;> cases lost <;> cases h
      · simp [snapshots, resume, Conn.snapshots] at hb
      · exact hb
    | isolate iso k =>
      cases issued <;> cases lost <;> cases h <;> cases conn
      all_goals first
        | exact hb
        | simp [snapshots, resume, finishIsolate, Conn.snapshots, Conn.abort] at hb
    | commit k =>
      cases issued <;> cases lost <;> cases h <;> cases conn <;>
        simp [snapshots, resume, finishCommit, Conn.snapshots] at hb
    | rollback k =>
      cases issued <;> cases lost <;> cases h
      simp [snapshots, resume, Conn.snapshots] at hb
  | fail e _ h =>
    refine Or.inl (List.mem_append_right _ ?_)
    cases p <;> cases issued <;> cases h
    · simp [snapshots, resume] at hb
    · exact hb
    · simp [snapshots, resume] at hb
    · simp [snapshots, resume, Conn.snapshots] at hb
  | answer o h =>
    refine Or.inl (List.mem_append_right _ ?_)
    cases p <;> cases issued <;> try cases h
    simp only [Session.answer] at h
    split at h <;> cases h
    exact hb

/-- A session meets its specification from where it stands. -/
def Sat (E : Engine Db Key Row Stmt Res Err Plan) (Γ : Spec Db Key Row Stmt Ask Ans)
    (Q : Post Db Key Row Stmt Ask Ans ρ) (s : Session Db Key Row Stmt Res Err Ask Ans ρ)
    (m : Moment Db) (τ : Trace Db Key Row Stmt Ask Ans) : Prop :=
  match s.prog, s.issued with
  | p, none => wp E Γ p Q s.conn m τ
  | .sql st k, some b => ∀ m', Γ.rely m m' →
      (Γ.faulty → ∀ e, wp E Γ (k (.error e)) Q s.conn.abort m' τ) ∧
      ∀ plan others r, finishStmt E plan others b m' s.conn st = some r →
        Γ.Replied E m' τ r fun v c' m'' τ' ↦ wp E Γ (k v) Q c' m'' τ'
  | _, some _ => False

end

section

variable {E : Engine Db Key Row Stmt Res Err Plan} {Γ : Spec Db Key Row Stmt Ask Ans}
variable {Q : Post Db Key Row Stmt Ask Ans ρ} {others : List (Write Key Row Stmt)} {m : Moment Db}
variable {s s' : Session Db Key Row Stmt Res Err Ask Ans ρ} {c : Committed Db Key Row Stmt}
variable {a : Option (Answer Db Ask Ans)}
variable {τ : Trace Db Key Row Stmt Ask Ans}

theorem Sat.env {m' : Moment Db} (h : s.Sat E Γ Q m τ) (hm : Γ.rely m m') :
    s.Sat E Γ Q m' τ := by
  obtain ⟨p, conn, issued⟩ := s
  cases issued with
  | none => exact wp_env h hm
  | some b =>
    cases p with
    | sql st k => exact fun m₁ h₁ ↦ h m₁ (Γ.rely_trans hm h₁)
    | _ => trivial

/-- What a step of a session that meets its specification owes. -/
theorem Sat.step (h : s.Sat E Γ Q m τ) (hstep : Step E Γ.valid Γ.faulty others m s s' c a)
    (hissue : ∀ st k, s.prog = .sql st k → s.issued = none → Γ.issue τ st m)
    (hchain : ∀ t ∈ c, E.Chain m.db t.2) :
    Γ.Pays m τ c ∧ (∀ b ∈ a, Γ.may τ b) ∧ s'.Sat E Γ Q (m.advance E c) (τ.step m c a) := by
  have quiet : s'.Sat E Γ Q m τ → Γ.Pays m τ (none : Committed Db Key Row Stmt) ∧
      (∀ b ∈ (none : Option (Answer Db Ask Ans)), Γ.may τ b) ∧
      s'.Sat E Γ Q m (τ.step m (none : Committed Db Key Row Stmt) none) :=
    fun hs ↦ ⟨by simp [Spec.Pays], by simp, by rwa [Trace.step_none, Trace.commit_none]⟩
  have hnow := Γ.rely_refl m
  obtain ⟨p, conn, issued⟩ := s
  cases hstep with
  | issue hi =>
    cases p <;> cases issued <;> cases hi
    exact quiet (h m hnow (hissue _ _ rfl rfl))
  | finish plan lost hfault hf =>
    cases p with
    | pure a => cases issued <;> cases hf
    | ask q k => cases issued <;> cases hf
    | sql st k =>
      cases issued with
      | none => cases hf
      | some b =>
        obtain ⟨r, hr, heq⟩ := Option.map_eq_some_iff.1 hf
        have hreply := (h m hnow).2 plan others r hr
        cases lost <;> cases heq <;> obtain ⟨hpay, hok, herr⟩ := hreply hchain
        · exact ⟨hpay, by simp, hok⟩
        · exact ⟨hpay, by simp, herr (hfault rfl) _⟩
    | begin k =>
      cases issued <;> cases lost <;> cases hf
      · exact quiet (h m hnow).2
      · exact quiet ((h m hnow).1 (hfault rfl) _)
    | isolate iso k =>
      cases issued with
      | some b => cases hf
      | none =>
        have hreply := (h m hnow).2
        cases lost <;> cases hf <;> cases conn <;> obtain ⟨hpay, hok, herr⟩ := hreply hchain
        all_goals first
          | exact ⟨hpay, by simp, hok⟩
          | exact ⟨hpay, by simp, herr (hfault rfl) _⟩
    | commit k =>
      cases issued with
      | some b => cases hf
      | none =>
        have hreply := (h m hnow).2
        cases lost <;> cases hf <;> cases conn <;> obtain ⟨hpay, hok, herr⟩ := hreply hchain
        all_goals first
          | exact ⟨hpay, by simp, hok⟩
          | exact ⟨hpay, by simp, herr (hfault rfl) _⟩
    | rollback k =>
      cases issued <;> cases lost <;> cases hf
      exact quiet (h m hnow)
  | fail e hfault hf =>
    cases p <;> cases issued <;> cases hf <;> exact quiet ((h m hnow).1 hfault e)
  | answer o ha =>
    cases p <;> cases issued <;> try cases ha
    simp only [Session.answer] at ha
    split at ha <;> cases ha
    obtain ⟨hmay, hrest⟩ := h m hnow _ (by assumption)
    refine ⟨by simp [Spec.Pays], by simpa using hmay, ?_⟩
    rw [Trace.step_some, Trace.commit_none]
    exact hrest

end

end Session

end Txn

import DbosTransact.Foundation.System

/-!
# A session that nobody disturbs

A weakest precondition for a `Prog` that runs while no other session holds a row or changes the
database. Such a run is almost a sequential one: every statement sees the committed database under
the writes of its own transaction, and none of them waits. So `alone` can ask for what `wp` cannot:
that every request of the program is served, and that the result is exactly this one.

`alone_of_run` carries it to the runs of a `System` in which the other sessions do anything that
leaves session `i` undisturbed, and `exists_run_of_alone` says that the session, when only it moves,
comes to its end.
-/

namespace Txn

variable {Db Key : Type} {Row : Key → Type} {Stmt : Type} {Res : Stmt → Type}
variable {Err Plan Ask : Type} {Ans : Ask → Type} {ρ α β : Type}

/-- Time has passed, and the database is the same. -/
def Moment.Still (m m' : Moment Db) : Prop := m.Before m' ∧ m.db = m'.db

namespace Moment.Still

variable {m m₁ m₂ : Moment Db}

theorem refl (m : Moment Db) : m.Still m := ⟨.refl m, rfl⟩

theorem trans (h : m.Still m₁) (h' : m₁.Still m₂) : m.Still m₂ :=
  ⟨h.1.trans h'.1, h.2.trans h'.2⟩

end Moment.Still

section

variable (E : Engine Db Key Row Stmt Res Err Plan)
variable (valid : Moment Db → (q : Ask) → Ans q → Bool)

/-- What holds once a request carried out at `m` has got its reply. -/
def Reply.Hears {γ : Type} (r : Reply Db Key Row Stmt γ) (m : Moment Db)
    (K : γ → Conn Db Key Row Stmt → Moment Db → Prop) : Prop :=
  K r.value r.conn (m.advance E r.committed)

/-- Every request of the program is served, and it ends with `Q`, when no other session holds a row
and the database changes by its own commits only. -/
def alone : Prog Stmt Res Err Ask Ans α → (α → Conn Db Key Row Stmt → Moment Db → Prop) →
    Conn Db Key Row Stmt → Moment Db → Prop
  | .pure a, Q, c, m => ∀ m', m.Still m' → Q a c m'
  | .sql s k, Q, c, m => ∀ b, m.Still b → ∀ m', b.Still m' → ∀ plan,
      ∃ r, finishStmt E plan [] b m' (c.pin b) s = some r ∧
        r.Hears E m' fun v ↦ alone (k v) Q
  | .ask q k, Q, c, m => ∀ m', m.Still m' → ∀ a, valid m' q a = true → alone (k a) Q c m'
  | .begin k, Q, _, m => ∀ m', m.Still m' →
      alone (k (.ok ())) Q (.active ⟨.readCommitted, none, []⟩) m'
  | .isolate iso k, Q, c, m => ∀ m', m.Still m' →
      (finishIsolate E iso c).Hears E m' fun v ↦ alone (k v) Q
  | .commit k, Q, c, m => ∀ m', m.Still m' →
      (finishCommit c).Hears E m' fun v ↦ alone (k v) Q
  | .rollback k, Q, _, m => ∀ m', m.Still m' → alone (k ()) Q .idle m'

variable {E valid}
variable {Q Q' : α → Conn Db Key Row Stmt → Moment Db → Prop} {c : Conn Db Key Row Stmt}
variable {m m' : Moment Db}

/-- Time may pass before a program starts. -/
theorem alone_still {p : Prog Stmt Res Err Ask Ans α} (h : alone E valid p Q c m)
    (hm : m.Still m') : alone E valid p Q c m' := by
  cases p with
  | sql s k => exact fun b hb ↦ h b (hm.trans hb)
  | _ => exact fun m₁ h₁ ↦ h m₁ (hm.trans h₁)

theorem alone_mono {p : Prog Stmt Res Err Ask Ans α} (h : alone E valid p Q c m)
    (hQ : ∀ a c m, Q a c m → Q' a c m) : alone E valid p Q' c m := by
  induction p generalizing c m with
  | pure a => exact fun m₁ h₁ ↦ hQ _ _ _ (h m₁ h₁)
  | sql s k ih =>
    intro b hb m₁ h₁ plan
    obtain ⟨r, hr, hrest⟩ := h b hb m₁ h₁ plan
    exact ⟨r, hr, ih _ hrest⟩
  | ask q k ih => exact fun m₁ h₁ a ha ↦ ih _ (h m₁ h₁ a ha)
  | begin k ih => exact fun m₁ h₁ ↦ ih _ (h m₁ h₁)
  | isolate iso k ih => exact fun m₁ h₁ ↦ ih _ (h m₁ h₁)
  | commit k ih => exact fun m₁ h₁ ↦ ih _ (h m₁ h₁)
  | rollback k ih => exact fun m₁ h₁ ↦ ih _ (h m₁ h₁)

theorem alone_bind {p : Prog Stmt Res Err Ask Ans β} {f : β → Prog Stmt Res Err Ask Ans α}
    (h : alone E valid p (fun b c m ↦ alone E valid (f b) Q c m) c m) :
    alone E valid (p.bind f) Q c m := by
  induction p generalizing c m with
  | pure b => exact h m (.refl m)
  | sql s k ih =>
    intro b hb m₁ h₁ plan
    obtain ⟨r, hr, hrest⟩ := h b hb m₁ h₁ plan
    exact ⟨r, hr, ih _ hrest⟩
  | ask q k ih => exact fun m₁ h₁ a ha ↦ ih _ (h m₁ h₁ a ha)
  | begin k ih => exact fun m₁ h₁ ↦ ih _ (h m₁ h₁)
  | isolate iso k ih => exact fun m₁ h₁ ↦ ih _ (h m₁ h₁)
  | commit k ih => exact fun m₁ h₁ ↦ ih _ (h m₁ h₁)
  | rollback k ih => exact fun m₁ h₁ ↦ ih _ (h m₁ h₁)

end

/-! ### One session -/

namespace Label

/-- Whether a step serves session `i`: it sends a statement, or what it waits for comes back. -/
def serves (i : ℕ) : Label Stmt Res Err Plan Ask Ans ρ → Bool
  | .issue j => j = i
  | .finish j _ => j = i
  | .answer j _ => j = i
  | _ => false

end Label

namespace Session

/-- A session meets its specification from where it stands, if it is left alone. -/
def Alone (E : Engine Db Key Row Stmt Res Err Plan)
    (valid : Moment Db → (q : Ask) → Ans q → Bool)
    (Q : ρ → Conn Db Key Row Stmt → Moment Db → Prop)
    (s : Session Db Key Row Stmt Res Err Ask Ans ρ) (m : Moment Db) : Prop :=
  match s.prog, s.issued with
  | p, none => alone E valid p Q s.conn m
  | .sql st k, some b => ∀ m', m.Still m' → ∀ plan,
      ∃ r, finishStmt E plan [] b m' s.conn st = some r ∧
        r.Hears E m' fun v ↦ alone E valid (k v) Q
  | _, some _ => False

section

variable {E : Engine Db Key Row Stmt Res Err Plan}
variable {valid : Moment Db → (q : Ask) → Ans q → Bool}
variable {Q : ρ → Conn Db Key Row Stmt → Moment Db → Prop}
variable {s s' : Session Db Key Row Stmt Res Err Ask Ans ρ} {m m' : Moment Db}

theorem Alone.still (h : s.Alone E valid Q m) (hm : m.Still m') : s.Alone E valid Q m' := by
  obtain ⟨p, conn, issued⟩ := s
  cases issued with
  | none => exact alone_still h hm
  | some b =>
    cases p with
    | sql st k => exact fun m₁ h₁ ↦ h m₁ (hm.trans h₁)
    | _ => exact h.elim

theorem Alone.issue (h : s.Alone E valid Q m) (hs : s.issue m = some s') :
    s'.Alone E valid Q m := by
  obtain ⟨p, conn, issued⟩ := s
  cases p <;> cases issued <;> cases hs
  exact h m (.refl m)

theorem Alone.answer (h : s.Alone E valid Q m) {o : (q : Ask) → Ans q} {a : Answer Db Ask Ans}
    (hs : s.answer valid m o = some (s', a)) : s'.Alone E valid Q m := by
  obtain ⟨p, conn, issued⟩ := s
  cases p <;> cases issued <;> try cases hs
  simp only [Session.answer] at hs
  split at hs
  · rename_i q k hvalid
    cases hs
    exact h m (.refl m) _ hvalid
  · cases hs

theorem Alone.finish (h : s.Alone E valid Q m) {plan : Plan} {c : Committed Db Key Row Stmt}
    (hs : s.finish E plan [] m none = some (s', c)) : s'.Alone E valid Q (m.advance E c) := by
  obtain ⟨p, conn, issued⟩ := s
  cases p with
  | pure a => cases issued <;> cases hs
  | ask q k => cases issued <;> cases hs
  | sql st k =>
    cases issued with
    | none => cases hs
    | some b =>
      obtain ⟨r, hr, hrest⟩ := h m (.refl m) plan
      simp only [Session.finish, hr, Option.map_some] at hs
      cases hs
      exact hrest
  | begin k => cases issued <;> cases hs; exact h m (.refl m)
  | isolate iso k => cases issued <;> cases hs; cases conn <;> exact h m (.refl m)
  | commit k => cases issued <;> cases hs; exact h m (.refl m)
  | rollback k => cases issued <;> cases hs; exact h m (.refl m)

end

end Session

/-! ### A session among others -/

namespace System

section

variable (E : Engine Db Key Row Stmt Res Err Plan)
variable (valid : Moment Db → (q : Ask) → Ans q → Bool)

/-- Session `i` is left alone: no other session holds a row, and the step serves session `i` or is
one of another session that leaves the database as it is. -/
def Undisturbed (i : ℕ) (S : System Db Key Row Stmt Res Err Ask Ans ρ)
    (l : Label Stmt Res Err Plan Ask Ans ρ) : Prop :=
  S.others i = [] ∧ (l.serves i = true ∨ l.concerns i = false ∧
    ∀ S' ∈ S.step E valid l, S'.moment.db = S.moment.db)

end

variable {E : Engine Db Key Row Stmt Res Err Plan}
variable {valid : Moment Db → (q : Ask) → Ans q → Bool}
variable {S S' : System Db Key Row Stmt Res Err Ask Ans ρ} {i : ℕ}

/-- The steps of the others leave a session as it is. -/
theorem lookup_of_step {l : Label Stmt Res Err Plan Ask Ans ρ} (h : S.step E valid l = some S')
    (hl : l.concerns i = false) : S'.sessions.lookup i = S.sessions.lookup i := by
  cases l with
  | tick d => cases h; rfl
  | crash j =>
    have hj : i ≠ j := fun heq ↦ by simp [Label.concerns, heq] at hl
    simp only [step, Option.bind_eq_bind, Option.bind_eq_some_iff] at h
    obtain ⟨s, -, heq⟩ := h
    cases heq
    exact AList.lookup_erase_ne hj
  | spawn j p =>
    have hj : i ≠ j := fun heq ↦ by simp [Label.concerns, heq] at hl
    simp only [step] at h
    split at h <;> cases h
    rw [sessions_update, AList.lookup_insert_ne hj]
  | issue j =>
    have hj : i ≠ j := fun heq ↦ by simp [Label.concerns, heq] at hl
    simp only [step, Option.bind_eq_bind, Option.bind_eq_some_iff] at h
    obtain ⟨s, -, s', -, heq⟩ := h
    cases heq
    rw [sessions_update, AList.lookup_insert_ne hj]
  | fail j e =>
    have hj : i ≠ j := fun heq ↦ by simp [Label.concerns, heq] at hl
    simp only [step, Option.bind_eq_bind, Option.bind_eq_some_iff] at h
    obtain ⟨s, -, s', -, heq⟩ := h
    cases heq
    rw [sessions_update, AList.lookup_insert_ne hj]
  | finish j plan | lost j plan e | answer j o =>
    have hj : i ≠ j := fun heq ↦ by simp [Label.concerns, heq] at hl
    simp only [step, Option.bind_eq_bind, Option.bind_eq_some_iff] at h
    obtain ⟨s, -, ⟨s', x⟩, -, heq⟩ := h
    cases heq
    rw [sessions_update, AList.lookup_insert_ne hj]

/-- What the others hold does not change when session `i` moves. -/
theorem others_update {s : Session Db Key Row Stmt Res Err Ask Ans ρ}
    {c : Committed Db Key Row Stmt} {a : Option (Answer Db Ask Ans)} (h : S.others i = []) :
    (S.update E i s c a).others i = [] := by
  refine List.eq_nil_iff_forall_not_mem.2 fun o ho ↦ ?_
  obtain ⟨j, t, hj, ht, ho⟩ := mem_others.1 ho
  rw [sessions_update, AList.lookup_insert_ne hj] at ht
  have hmem : o ∈ S.others i := mem_others.2 ⟨j, t, hj, ht, ho⟩
  rw [h] at hmem
  cases hmem

variable {Q : ρ → Conn Db Key Row Stmt → Moment Db → Prop}

/-- A session that is left alone still meets its specification. -/
theorem alone_of_run {s₀ : Session Db Key Row Stmt Res Err Ask Ans ρ}
    {S₀ : System Db Key Row Stmt Res Err Ask Ans ρ} (hs₀ : S₀.sessions.lookup i = some s₀)
    (h₀ : s₀.Alone E valid Q S₀.moment)
    (h : Run (step E valid) (Undisturbed E valid i) S₀ S) :
    ∃ s, S.sessions.lookup i = some s ∧ s.Alone E valid Q S.moment := by
  refine h.invariant (P := fun S ↦ ∃ s, S.sessions.lookup i = some s ∧
    s.Alone E valid Q S.moment) ⟨s₀, hs₀, h₀⟩ ?_
  rintro S l S' ⟨s, hs, halone⟩ ⟨hfree, hl⟩ hstep
  rcases hl with hserves | ⟨hother, hsame⟩
  · cases l with
    | issue j =>
      obtain rfl : j = i := by simpa [Label.serves] using hserves
      simp only [step, hs, Option.bind_eq_bind, Option.bind_some, Option.bind_eq_some_iff] at hstep
      obtain ⟨s', hs', heq⟩ := hstep
      cases heq
      exact ⟨s', by rw [sessions_update, AList.lookup_insert], halone.issue hs'⟩
    | finish j plan =>
      obtain rfl : j = i := by simpa [Label.serves] using hserves
      simp only [step, hs, hfree, Option.bind_eq_bind, Option.bind_some,
        Option.bind_eq_some_iff] at hstep
      obtain ⟨⟨s', c⟩, hs', heq⟩ := hstep
      cases heq
      refine ⟨s', by rw [sessions_update, AList.lookup_insert], ?_⟩
      rw [moment_update]
      exact halone.finish hs'
    | answer j o =>
      obtain rfl : j = i := by simpa [Label.serves] using hserves
      simp only [step, hs, Option.bind_eq_bind, Option.bind_some, Option.bind_eq_some_iff] at hstep
      obtain ⟨⟨s', a⟩, hs', heq⟩ := hstep
      cases heq
      exact ⟨s', by rw [sessions_update, AList.lookup_insert], halone.answer hs'⟩
    | _ => cases hserves
  · refine ⟨s, by rw [lookup_of_step hstep hother, hs], halone.still ?_⟩
    exact ⟨(steps_of_step hstep).before, (hsame S' hstep).symm⟩

/-- A session that is left alone and returns has done what it was to do. -/
theorem returned_of_alone {s₀ s : Session Db Key Row Stmt Res Err Ask Ans ρ}
    {S₀ : System Db Key Row Stmt Res Err Ask Ans ρ} (hs₀ : S₀.sessions.lookup i = some s₀)
    (h₀ : s₀.Alone E valid Q S₀.moment)
    (h : Run (step E valid) (Undisturbed E valid i) S₀ S) (hs : S.sessions.lookup i = some s)
    {a : ρ} (hprog : s.prog = .pure a) : Q a s.conn S.moment := by
  obtain ⟨s', hs', halone⟩ := alone_of_run hs₀ h₀ h
  cases hs.symm.trans hs'
  obtain ⟨p, conn, issued⟩ := s
  obtain rfl : p = .pure a := hprog
  cases issued with
  | none => exact halone S.moment (.refl _)
  | some b => exact halone.elim

/-- A session that only needs to be served comes to its end, where every question has an answer. -/
theorem exists_run_of_alone (hvalid : ∀ m q, ∃ a, valid m q a = true) (plan : Plan)
    {p : Prog Stmt Res Err Ask Ans ρ} {c : Conn Db Key Row Stmt} (hfree : S.others i = [])
    (hs : S.sessions.lookup i = some ⟨p, c, none⟩) (h : alone E valid p Q c S.moment) :
    ∃ S' s a, Run (step E valid) (Undisturbed E valid i) S S' ∧
      S'.sessions.lookup i = some s ∧ s.prog = .pure a := by
  -- by induction on the program: one request is served, and the rest goes on from there
  have later : ∀ {S : System Db Key Row Stmt Res Err Ask Ans ρ}
      (l : Label Stmt Res Err Plan Ask Ans ρ) (s₁ : Session Db Key Row Stmt Res Err Ask Ans ρ)
      (c : Committed Db Key Row Stmt) (a : Option (Answer Db Ask Ans)), S.others i = [] →
      l.serves i = true → S.step E valid l = some (S.update E i s₁ c a) →
      (∀ S₁ : System Db Key Row Stmt Res Err Ask Ans ρ, S₁.others i = [] →
        S₁.sessions.lookup i = some s₁ → S₁.moment = S.moment.advance E c →
        ∃ S' s a, Run (step E valid) (Undisturbed E valid i) S₁ S' ∧
          S'.sessions.lookup i = some s ∧ s.prog = .pure a) →
      ∃ S' s a, Run (step E valid) (Undisturbed E valid i) S S' ∧
        S'.sessions.lookup i = some s ∧ s.prog = .pure a := by
    intro S l s₁ c a hfree hl hstep hnext
    obtain ⟨S', s, b, hrun, hs, hb⟩ := hnext (S.update E i s₁ c a) (others_update hfree)
      (by rw [sessions_update, AList.lookup_insert]) (moment_update ..)
    have hone : Run (step E valid) (Undisturbed E valid i) S _ :=
      Run.refl.tail ⟨hfree, Or.inl hl⟩ hstep
    exact ⟨S', s, b, hone.trans hrun, hs, hb⟩
  have mine : ∀ l : Label Stmt Res Err Plan Ask Ans ρ, (l = .issue i ∨ l = .finish i plan ∨
      ∃ o, l = .answer i o) → l.serves i = true := by
    rintro l (rfl | rfl | ⟨o, rfl⟩) <;> simp [Label.serves]
  induction p generalizing S c with
  | pure a => exact ⟨S, _, a, .refl, hs, rfl⟩
  | sql s k ih =>
    refine later (.issue i) ⟨.sql s k, c.pin S.moment, some S.moment⟩ none none hfree
      (mine _ (by simp)) (by simp [step, hs, Session.issue]) fun S₁ hfree₁ hs₁ hm₁ ↦ ?_
    obtain ⟨r, hr, hrest⟩ := h _ (.refl _) _ (.refl _) plan
    refine later (.finish i plan) (Session.resume (k r.value) r.conn) r.committed none hfree₁
      (mine _ (by simp)) (by simp [step, hs₁, hfree₁, hm₁, Session.finish, hr])
      fun S₂ hfree₂ hs₂ hm₂ ↦ ih r.value hfree₂ hs₂ ?_
    rw [hm₂, hm₁]
    exact hrest
  | ask q k ih =>
    choose o ho using hvalid S.moment
    refine later (.answer i o) (Session.resume (k (o q)) c) none (some ⟨S.moment, q, o q⟩) hfree
      (mine _ (by simp)) (by simp [step, hs, Session.answer, ho]) fun S₁ hfree₁ hs₁ hm₁ ↦
        ih (o q) hfree₁ hs₁ ?_
    rw [hm₁]
    exact h S.moment (.refl _) _ (ho q)
  | begin k ih =>
    refine later (.finish i plan) (Session.resume (k (.ok ())) (.active ⟨.readCommitted, none, []⟩))
      none none hfree (mine _ (by simp)) (by simp [step, hs, Session.finish])
      fun S₁ hfree₁ hs₁ hm₁ ↦ ih _ hfree₁ hs₁ ?_
    rw [hm₁]
    exact h S.moment (.refl _)
  | isolate iso k ih =>
    have hrest := h S.moment (.refl _)
    refine later (.finish i plan) (Session.resume (k (finishIsolate E iso c).value)
      (finishIsolate E iso c).conn) none none hfree (mine _ (by simp))
      (by simp [step, hs, Session.finish]) fun S₁ hfree₁ hs₁ hm₁ ↦ ih _ hfree₁ hs₁ ?_
    rw [hm₁]
    cases c <;> exact hrest
  | commit k ih =>
    let r : Reply Db Key Row Stmt (Except Err Unit) := finishCommit c
    refine later (.finish i plan) (Session.resume (k r.value) r.conn) r.committed none hfree
      (mine _ (by simp)) (by simp [step, hs, Session.finish, r]) fun S₁ hfree₁ hs₁ hm₁ ↦
        ih _ hfree₁ hs₁ ?_
    rw [hm₁]
    exact h S.moment (.refl _)
  | rollback k ih =>
    refine later (.finish i plan) (Session.resume (k ()) .idle) none none hfree (mine _ (by simp))
      (by simp [step, hs, Session.finish]) fun S₁ hfree₁ hs₁ hm₁ ↦ ih _ hfree₁ hs₁ ?_
    rw [hm₁]
    exact h S.moment (.refl _)

end System

end Txn

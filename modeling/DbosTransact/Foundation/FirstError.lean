import DbosTransact.Foundation.System

/-!
# Programs that stop at the first error

A client that passes every error on sends no statement after one that has failed
(`Prog.StopsOnError`). What such a client has sent before is then what its statements did that were
reported to be done: a request whose reply was lost, or that was interrupted half way, is the last
one of its session. `Tame` is the invariant behind this, for writes of which a statement that is
reported makes only `good` ones and any other statement only `fair` ones.
-/

namespace Txn

variable {Db Key : Type} {Row : Key → Type} {Stmt : Type} {Res : Stmt → Type}
variable {Err Plan Ask : Type} {Ans : Ask → Type} {ρ α β : Type}

namespace Prog

/-- The program sends no statement, and what it returns satisfies `F`. -/
def Ends (F : α → Prop) : Prog Stmt Res Err Ask Ans α → Prop
  | .pure a => F a
  | .sql _ _ => False
  | .ask _ k => ∀ a, (k a).Ends F
  | .begin k => ∀ r, (k r).Ends F
  | .isolate _ k => ∀ r, (k r).Ends F
  | .commit k => ∀ r, (k r).Ends F
  | .rollback k => ∀ u, (k u).Ends F

/-- After a statement that failed the program sends no other, and what it returns satisfies `F`. -/
def StopsOnError (F : α → Prop) : Prog Stmt Res Err Ask Ans α → Prop
  | .pure _ => True
  | .sql _ k => (∀ e, (k (.error e)).Ends F) ∧ ∀ a, (k (.ok a)).StopsOnError F
  | .ask _ k => ∀ a, (k a).StopsOnError F
  | .begin k => ∀ r, (k r).StopsOnError F
  | .isolate _ k => ∀ r, (k r).StopsOnError F
  | .commit k => ∀ r, (k r).StopsOnError F
  | .rollback k => ∀ u, (k u).StopsOnError F

variable {F : α → Prop} {F' : β → Prop} {p : Prog Stmt Res Err Ask Ans α}
variable {f : α → Prog Stmt Res Err Ask Ans β}

theorem Ends.bind (hp : p.Ends F) (hf : ∀ a, F a → (f a).Ends F') : (p.bind f).Ends F' := by
  induction p with
  | pure a => exact hf a hp
  | sql s k ih => exact hp.elim
  | ask q k ih => exact fun a ↦ ih a (hp a)
  | begin k ih => exact fun r ↦ ih r (hp r)
  | isolate iso k ih => exact fun r ↦ ih r (hp r)
  | commit k ih => exact fun r ↦ ih r (hp r)
  | rollback k ih => exact fun u ↦ ih u (hp u)

theorem Ends.stopsOnError (hp : p.Ends F) : p.StopsOnError F := by
  induction p with
  | pure a => trivial
  | sql s k ih => exact hp.elim
  | ask q k ih => exact fun a ↦ ih a (hp a)
  | begin k ih => exact fun r ↦ ih r (hp r)
  | isolate iso k ih => exact fun r ↦ ih r (hp r)
  | commit k ih => exact fun r ↦ ih r (hp r)
  | rollback k ih => exact fun u ↦ ih u (hp u)

theorem StopsOnError.bind (hp : p.StopsOnError F) (hF : ∀ a, F a → (f a).Ends F')
    (hf : ∀ a, (f a).StopsOnError F') : (p.bind f).StopsOnError F' := by
  induction p with
  | pure a => exact hf a
  | sql s k ih => exact ⟨fun e ↦ (hp.1 e).bind hF, fun a ↦ ih _ (hp.2 a)⟩
  | ask q k ih => exact fun a ↦ ih a (hp a)
  | begin k ih => exact fun r ↦ ih r (hp r)
  | isolate iso k ih => exact fun r ↦ ih r (hp r)
  | commit k ih => exact fun r ↦ ih r (hp r)
  | rollback k ih => exact fun u ↦ ih u (hp u)

theorem StopsOnError.mono {G : α → Prop} (hp : p.StopsOnError F) (hFG : ∀ a, F a → G a) :
    p.StopsOnError G := by
  have hbind : (p.bind .pure).StopsOnError G := hp.bind hFG fun _ ↦ trivial
  rwa [bind_pure] at hbind

end Prog

/-! ### One session -/

section

variable {E : Engine Db Key Row Stmt Res Err Plan} {others : List (Write Key Row Stmt)}
variable {m : Moment Db} {lost : Option Err} {F : ρ → Prop}
variable {good fair : Write Key Row Stmt → Prop}

/-- What a session is after a step that committed `c`: it goes on stopping at the first error, what
it holds is good, and if it goes on sending statements, so is what it committed. -/
structure Goes (F : ρ → Prop) (good fair : Write Key Row Stmt → Prop)
    (p : Prog Stmt Res Err Ask Ans ρ) (s' : Session Db Key Row Stmt Res Err Ask Ans ρ)
    (c : Committed Db Key Row Stmt) : Prop where
  stops : s'.prog.StopsOnError F
  held : ∀ w ∈ s'.conn.writes, good w
  ends : p.Ends F → s'.prog.Ends F
  committed : s'.prog.Ends F ∨ ∀ t ∈ c, ∀ w ∈ t.2, good w
  fair : ∀ t ∈ c, ∀ w ∈ t.2, fair w

variable {s s' : Session Db Key Row Stmt Res Err Ask Ans ρ} {c : Committed Db Key Row Stmt}

/-- A step that commits nothing and leaves the session holding nothing more. -/
theorem goes_of_quiet {p q : Prog Stmt Res Err Ask Ans ρ} {conn : Conn Db Key Row Stmt}
    {issued : Option (Moment Db)} (hstops : q.StopsOnError F) (hheld : ∀ w ∈ conn.writes, good w)
    (hends : p.Ends F → q.Ends F) : Goes F good fair p ⟨q, conn, issued⟩ none :=
  ⟨hstops, hheld, hends, Or.inr (by simp), by simp⟩

/-- A request that is carried out. -/
theorem goes_of_finish (hfair : ∀ w, good w → fair w) (hstops : s.prog.StopsOnError F)
    (hheld : ∀ w ∈ s.conn.writes, good w) {plan : Plan}
    (hnew : ∀ st k, s.prog = .sql st k → ∀ iso base a ws,
      E.eval plan iso st base (E.apply m.db s.conn.writes) others = some (.ok a, ws) →
        ∀ w ∈ ws, if lost.isSome then fair w else good w)
    (h : s.finish E plan others m lost = some (s', c)) : Goes F good fair s.prog s' c := by
  obtain ⟨p, conn, issued⟩ := s
  cases p with
  | pure a => cases issued <;> cases h
  | ask q k => cases issued <;> cases h
  | sql st k =>
    rcases issued with - | b
    · cases h
    obtain ⟨r, hr, heq⟩ := Option.map_eq_some_iff.1 h
    replace hnew := hnew st k rfl
    dsimp only at hnew hr heq
    -- what the server leaves: the rows held, and those the statement commits
    have hleft : (∀ w ∈ r.conn.writes, w ∈ conn.writes ∨ if lost.isSome then fair w else good w) ∧
        ∀ t ∈ r.committed, ∀ w ∈ t.2, if lost.isSome then fair w else good w := by
      cases conn with
      | aborted =>
        cases hr
        simp
      | idle =>
        rw [finishStmt] at hr
        split at hr <;> cases hr
        · simp
        · rename_i a ws heval
          refine ⟨by simp, ?_⟩
          rintro t ⟨⟩
          exact hnew _ _ _ _ heval
      | active tx =>
        rw [finishStmt] at hr
        split at hr <;> cases hr
        · simp
        · rename_i a ws heval
          refine ⟨fun w hw ↦ ?_, by simp⟩
          exact (List.mem_append.1 hw).imp_right (hnew _ _ _ _ heval w)
    rcases lost with - | e
    · cases heq
      have hgood : ∀ t ∈ r.committed, ∀ w ∈ t.2, good w := hleft.2
      refine ⟨?_, fun w hw ↦ (hleft.1 w hw).elim (hheld w) id, fun h ↦ h.elim, Or.inr hgood,
        fun t ht w hw ↦ hfair w (hgood t ht w hw)⟩
      cases hv : r.value with
      | error e => exact (hstops.1 e).stopsOnError
      | ok a => exact hstops.2 a
    · cases heq
      exact ⟨(hstops.1 e).stopsOnError, by simp [Session.resume], fun h ↦ h.elim,
        Or.inl (hstops.1 e), hleft.2⟩
  | begin k =>
    rcases issued with - | b
    · cases lost <;> cases h
      · exact goes_of_quiet (hstops _) (by simp) fun h ↦ h _
      · exact goes_of_quiet (hstops _) hheld fun h ↦ h _
    · cases h
  | isolate iso k =>
    rcases issued with - | b
    · cases lost <;> cases h
      · refine goes_of_quiet (hstops _) ?_ fun h ↦ h _
        cases conn <;> exact hheld
      · exact goes_of_quiet (hstops _) (by simp) fun h ↦ h _
    · cases h
  | commit k =>
    rcases issued with - | b
    · -- what is committed is what was held
      let r : Reply Db Key Row Stmt (Except Err Unit) := finishCommit conn
      have hcommitted : ∀ t ∈ r.committed, ∀ w ∈ t.2, good w := by
        cases conn with
        | active tx =>
          rintro t ⟨⟩
          exact hheld
        | idle => simp [r, finishCommit]
        | aborted => simp [r, finishCommit]
      have hidle : ∀ w ∈ r.conn.writes, good w := by
        cases conn <;> simp [r, finishCommit]
      cases lost <;> cases h
      · exact ⟨hstops _, hidle, fun h ↦ h _, Or.inr hcommitted,
          fun t ht w hw ↦ hfair w (hcommitted t ht w hw)⟩
      · exact ⟨hstops _, hidle, fun h ↦ h _, Or.inr hcommitted,
          fun t ht w hw ↦ hfair w (hcommitted t ht w hw)⟩
    · cases h
  | rollback k =>
    rcases issued with - | b
    · cases lost <;> cases h
      exact goes_of_quiet (hstops _) (by simp) fun h ↦ h _
    · cases h

/-- A request that fails. -/
theorem goes_of_fail (hstops : s.prog.StopsOnError F) (hheld : ∀ w ∈ s.conn.writes, good w)
    {e : Err} (h : s.fail e = some s') : Goes F good fair s.prog s' none := by
  obtain ⟨p, conn, issued⟩ := s
  cases p <;> cases issued <;> cases h
  · exact goes_of_quiet (hstops.1 e).stopsOnError (by simp) fun h ↦ h.elim
  · exact goes_of_quiet (hstops _) hheld fun h ↦ h _
  · exact goes_of_quiet (hstops _) (by simp) fun h ↦ h _
  · exact goes_of_quiet (hstops _) (by simp) fun h ↦ h _

end

/-! ### A system of such sessions -/

namespace System

variable {E : Engine Db Key Row Stmt Res Err Plan}
variable {valid : Moment Db → (q : Ask) → Ans q → Bool} {F : ρ → Prop}
variable {S S' : System Db Key Row Stmt Res Err Ask Ans ρ}
variable {good fair : Write Key Row Stmt → Prop}

/-- All sessions stop at the first error. What they hold is good, and so is what a session has
committed that still sends statements. All commits are fair. -/
structure Tame (F : ρ → Prop) (good fair : Write Key Row Stmt → Prop)
    (S : System Db Key Row Stmt Res Err Ask Ans ρ) : Prop where
  stops : ∀ {i s}, S.sessions.lookup i = some s → s.prog.StopsOnError F
  held : ∀ {i s}, S.sessions.lookup i = some s → ∀ w ∈ s.conn.writes, good w
  trace : ∀ {i s}, S.sessions.lookup i = some s →
    s.prog.Ends F ∨ ∀ e ∈ (S.traceOf i).effects, ∀ w ∈ e.writes, good w
  fair : ∀ w ∈ written S.history, fair w

theorem tame_init (db : Db) (time : ℤ) :
    Tame F good fair (init db time : System Db Key Row Stmt Res Err Ask Ans ρ) :=
  ⟨fun h ↦ by simp [init] at h, fun h ↦ by simp [init] at h, fun h ↦ by simp [init] at h,
    by simp [init]⟩

theorem Tame.update (hT : Tame F good fair S) {i : ℕ}
    {s' : Session Db Key Row Stmt Res Err Ask Ans ρ} {p : Prog Stmt Res Err Ask Ans ρ}
    {c : Committed Db Key Row Stmt} {a : Option (Answer Db Ask Ans)}
    (hp : p.Ends F ∨ ∀ e ∈ (S.traceOf i).effects, ∀ w ∈ e.writes, good w)
    (h : Goes F good fair p s' c) : Tame F good fair (S.update E i s' c a) := by
  refine ⟨fun {j t} ht ↦ ?_, fun {j t} ht ↦ ?_, fun {j t} ht ↦ ?_, fun w hw ↦ ?_⟩
  · rw [sessions_update] at ht
    by_cases hj : j = i
    · subst hj
      rw [AList.lookup_insert] at ht
      cases ht
      exact h.stops
    · rw [AList.lookup_insert_ne hj] at ht
      exact hT.stops ht
  · rw [sessions_update] at ht
    by_cases hj : j = i
    · subst hj
      rw [AList.lookup_insert] at ht
      cases ht
      exact h.held
    · rw [AList.lookup_insert_ne hj] at ht
      exact hT.held ht
  · rw [sessions_update] at ht
    by_cases hj : j = i
    · subst hj
      rw [AList.lookup_insert] at ht
      cases ht
      refine hp.elim (fun hp ↦ Or.inl (h.ends hp)) fun hold ↦
        h.committed.imp_right fun hnew e he ↦ ?_
      rw [traceOf_update_self] at he
      have hmem : e ∈ (S.traceOf j).effects ++ S.moment.effects c := by
        cases a <;> exact he
      rcases List.mem_append.1 hmem with he | he
      · exact hold e he
      · obtain ⟨u, hu, rfl⟩ := List.mem_map.1 he
        exact hnew u (Option.mem_toList.1 hu)
    · rw [AList.lookup_insert_ne hj] at ht
      rw [traceOf_update_of_ne hj]
      exact hT.trace ht
  · rw [history_update, written_append] at hw
    rcases List.mem_append.1 hw with hw | hw
    · exact hT.fair w hw
    · cases c with
      | none => simp at hw
      | some t =>
        rw [Moment.effects_some, List.map_singleton, written_singleton] at hw
        exact h.fair t rfl w hw

/-- One step: the programs that are started stop at the first error, and a statement that is carried
out writes fair rows, and good ones if it is reported to be done. -/
theorem Tame.step (hT : Tame F good fair S) (hfair : ∀ w, good w → fair w)
    {l : Label Stmt Res Err Plan Ask Ans ρ}
    (hspawn : ∀ i p, l = .spawn i p → p.StopsOnError F)
    (hfinish : ∀ i plan s st k, l = .finish i plan → S.sessions.lookup i = some s →
      s.prog = .sql st k → ∀ iso base a ws,
        E.eval plan iso st base (E.apply S.moment.db s.conn.writes) (S.others i) =
          some (.ok a, ws) → ∀ w ∈ ws, good w)
    (hlost : ∀ i plan e s st k, l = .lost i plan e → S.sessions.lookup i = some s →
      s.prog = .sql st k → ∀ iso base a ws,
        E.eval plan iso st base (E.apply S.moment.db s.conn.writes) (S.others i) =
          some (.ok a, ws) → ∀ w ∈ ws, fair w)
    (h : S.step E valid l = some S') : Tame F good fair S' := by
  cases l with
  | spawn i p =>
    simp only [System.step] at h
    split at h
    · rename_i hfree
      cases h
      simp only [unused, Bool.and_eq_true, List.all_eq_true, bne_iff_ne] at hfree
      have hnew : ∀ e ∈ (S.traceOf i).effects, ∀ w ∈ e.writes, good w := by
        intro e he
        obtain ⟨d, hd, hi, -⟩ := mem_effects_traceOf.1 he
        exact (hfree.1.2 d hd hi).elim
      exact hT.update (p := p) (Or.inr hnew) (goes_of_quiet (hspawn i p rfl) (by simp) id)
    · cases h
  | issue i =>
    simp only [System.step, Option.bind_eq_bind, Option.bind_eq_some_iff] at h
    obtain ⟨s, hs, s', hs', heq⟩ := h
    cases heq
    refine hT.update (hT.trace hs) ?_
    have hstops := hT.stops hs
    have hheld := hT.held hs
    obtain ⟨p, conn, issued⟩ := s
    cases p <;> cases issued <;> cases hs'
    exact goes_of_quiet hstops (by simpa using hheld) id
  | finish i plan =>
    simp only [System.step, Option.bind_eq_bind, Option.bind_eq_some_iff] at h
    obtain ⟨s, hs, ⟨s', c⟩, hs', heq⟩ := h
    cases heq
    exact hT.update (hT.trace hs) (goes_of_finish hfair (hT.stops hs) (hT.held hs)
      (fun st k hp ↦ hfinish i plan s st k rfl hs hp) hs')
  | fail i e =>
    simp only [System.step, Option.bind_eq_bind, Option.bind_eq_some_iff] at h
    obtain ⟨s, hs, s', hs', heq⟩ := h
    cases heq
    exact hT.update (hT.trace hs) (goes_of_fail (hT.stops hs) (hT.held hs) hs')
  | lost i plan e =>
    simp only [System.step, Option.bind_eq_bind, Option.bind_eq_some_iff] at h
    obtain ⟨s, hs, ⟨s', c⟩, hs', heq⟩ := h
    cases heq
    exact hT.update (hT.trace hs) (goes_of_finish hfair (hT.stops hs) (hT.held hs)
      (fun st k hp ↦ hlost i plan e s st k rfl hs hp) hs')
  | answer i o =>
    simp only [System.step, Option.bind_eq_bind, Option.bind_eq_some_iff] at h
    obtain ⟨s, hs, ⟨s', a⟩, hs', heq⟩ := h
    cases heq
    refine hT.update (hT.trace hs) ?_
    have hstops := hT.stops hs
    have hheld := hT.held hs
    obtain ⟨p, conn, issued⟩ := s
    cases p <;> cases issued <;> try cases hs'
    simp only [Session.answer] at hs'
    split at hs' <;> cases hs'
    exact goes_of_quiet (hstops _) hheld fun h ↦ h _
  | crash i =>
    simp only [System.step, Option.bind_eq_bind, Option.bind_eq_some_iff] at h
    obtain ⟨s, hs, heq⟩ := h
    cases heq
    have herase : ∀ {j t}, (S.sessions.erase i).lookup j = some t →
        S.sessions.lookup j = some t := by
      intro j t ht
      by_cases hj : j = i
      · subst hj
        rw [AList.lookup_erase] at ht
        cases ht
      · rwa [AList.lookup_erase_ne hj] at ht
    exact ⟨fun ht ↦ hT.stops (herase ht), fun ht ↦ hT.held (herase ht),
      fun ht ↦ hT.trace (herase ht), hT.fair⟩
  | tick d =>
    cases h
    exact ⟨hT.stops, hT.held, hT.trace, hT.fair⟩

/-- A session that is about to send a statement has committed good writes only. -/
theorem Tame.good_of_sends (hT : Tame F good fair S) {i : ℕ}
    {s : Session Db Key Row Stmt Res Err Ask Ans ρ} (hs : S.sessions.lookup i = some s) {st : Stmt}
    {k : Except Err (Res st) → Prog Stmt Res Err Ask Ans ρ} (hp : s.prog = .sql st k) :
    ∀ e ∈ (S.traceOf i).effects, ∀ w ∈ e.writes, good w := by
  refine (hT.trace hs).resolve_left fun hends ↦ ?_
  rw [hp] at hends
  exact hends

end System

end Txn

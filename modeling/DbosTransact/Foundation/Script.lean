import DbosTransact.Foundation.FirstError
import DbosTransact.Foundation.Solo

/-!
# Scripts among other sessions

`ScriptM` programs under `Txn.wp`: the rules for a client that asks its surroundings nothing and
passes every error on. Nothing is asked of a run that ends with an error, so a specification has one
postcondition, for the result, and no rule speaks of failures. Such a client stops at the first
error (`Stops`).
-/

namespace Txn

open Solo (ScriptM query beginTx commitTx transaction)

variable {Db Key : Type} {Row : Key → Type} {Stmt : Type} {Res : Stmt → Type}
variable {Err Plan : Type} {α β : Type}

/-- A specification of a session that asks nothing. -/
abbrev ScriptSpec (Db Key : Type) (Row : Key → Type) (Stmt : Type) : Type :=
  Spec Db Key Row Stmt Empty fun _ ↦ Empty

/-- What holds of a result of a script. -/
abbrev ScriptPost (Db Key : Type) (Row : Key → Type) (Stmt α : Type) : Type :=
  Post Db Key Row Stmt Empty (fun _ ↦ Empty) α

/-- Every run of the script keeps the guarantee, and ends with `Q` of its result if it has one. -/
def wpS (E : Engine Db Key Row Stmt Res Err Plan) (Γ : ScriptSpec Db Key Row Stmt)
    (p : ScriptM Stmt Res Err α) (Q : ScriptPost Db Key Row Stmt α) (c : Conn Db Key Row Stmt)
    (m : Moment Db) (τ : Trace Db Key Row Stmt Empty fun _ ↦ Empty) : Prop :=
  wp E Γ p.run (fun r c m τ ↦ ∀ a, r = .ok a → Q a c m τ) c m τ

section

variable {E : Engine Db Key Row Stmt Res Err Plan} {Γ : ScriptSpec Db Key Row Stmt}
variable {Q Q' : ScriptPost Db Key Row Stmt α} {c : Conn Db Key Row Stmt} {m : Moment Db}
variable {τ : Trace Db Key Row Stmt Empty fun _ ↦ Empty}

theorem wpS_mono {p : ScriptM Stmt Res Err α} (h : wpS E Γ p Q c m τ)
    (hQ : ∀ a c m τ, Q a c m τ → Q' a c m τ) : wpS E Γ p Q' c m τ :=
  wp_mono h fun _ c m τ hr a ha ↦ hQ a c m τ (hr a ha)

theorem wpS_pure {a : α} (h : ∀ m', Γ.rely m m' → Q a c m' τ) : wpS E Γ (pure a) Q c m τ := by
  rintro m' hm' a' ⟨⟩
  exact h m' hm'

/-- An error ends a script. -/
theorem wp_pure_error {e : Err} :
    wp E Γ (.pure (.error e)) (fun (r : Except Err α) c m τ ↦ ∀ a, r = .ok a → Q a c m τ) c m
    τ := by
  rintro m' hm' a ⟨⟩

theorem wpS_bind {p : ScriptM Stmt Res Err β} {f : β → ScriptM Stmt Res Err α}
    (h : wpS E Γ p (fun b c m τ ↦ wpS E Γ (f b) Q c m τ) c m τ) : wpS E Γ (p >>= f) Q c m τ := by
  refine wp_bind (wp_mono h fun r c m τ hr ↦ ?_)
  cases r with
  | ok b => exact hr b rfl
  | error e => exact wp_pure_error

/-- A statement outside a transaction commits by itself. -/
theorem wpS_query_idle {s : Stmt} {Q : ScriptPost Db Key Row Stmt (Res s)}
    (h : ∀ b, Γ.rely m b → Γ.issue τ s b → ∀ m', Γ.rely b m' → ∀ plan others a ws,
      E.eval plan .readCommitted s b.db m'.db others = some (.ok a, ws) →
        Γ.guar τ ⟨m', some b, ws⟩ ∧ ∀ m'', Γ.rely (m'.after E ws) m'' →
          Q a .idle m'' (τ.commit m' (some (some b, ws)))) :
    wpS E Γ (query s) Q .idle m τ := by
  intro b hb hissue m' hm'
  refine ⟨fun _ e ↦ wp_pure_error, fun plan others r hr ↦ ?_⟩
  rw [show (Conn.idle : Conn Db Key Row Stmt).pin b = .idle from rfl, finishStmt] at hr
  split at hr <;> cases hr
  · exact fun _ ↦ ⟨by simp [Spec.Pays], wp_pure_error, fun _ _ ↦ wp_pure_error⟩
  · rename_i a ws heval
    obtain ⟨hguar, hQ⟩ := h b hb hissue m' hm' plan others a ws heval
    refine fun _ ↦ ⟨?_, ?_, fun _ _ ↦ wp_pure_error⟩
    · rintro t ⟨⟩
      exact hguar
    · rintro m'' hm'' a' ⟨⟩
      exact hQ m'' hm''

/-- A statement in a transaction adds to what the transaction writes. -/
theorem wpS_query_active {s : Stmt} {ws₀ : List (Write Key Row Stmt)}
    {Q : ScriptPost Db Key Row Stmt (Res s)}
    (h : ∀ b, Γ.rely m b → Γ.issue τ s b → ∀ m', Γ.rely b m' → ∀ plan others a ws,
      E.eval plan .readCommitted s (E.apply b.db ws₀) (E.apply m'.db ws₀) others =
        some (.ok a, ws) → ∀ m'', Γ.rely m' m'' →
          Q a (.active ⟨.readCommitted, none, ws₀ ++ ws⟩) m'' τ) :
    wpS E Γ (query s) Q (.active ⟨.readCommitted, none, ws₀⟩) m τ := by
  intro b hb hissue m' hm'
  refine ⟨fun _ e ↦ wp_pure_error, fun plan others r hr ↦ ?_⟩
  rw [show (Conn.active ⟨.readCommitted, none, ws₀⟩ : Conn Db Key Row Stmt).pin b =
    .active ⟨.readCommitted, none, ws₀⟩ from rfl, finishStmt] at hr
  split at hr <;> cases hr
  · exact fun _ ↦ ⟨by simp [Spec.Pays], wp_pure_error, fun _ _ ↦ wp_pure_error⟩
  · rename_i a ws heval
    refine fun _ ↦ ⟨by simp [Spec.Pays], ?_, fun _ _ ↦ wp_pure_error⟩
    rintro m'' hm'' a' ⟨⟩
    rw [Trace.commit_none]
    exact h b hb hissue m' hm' plan others a ws heval m'' hm''

/-- A commit pays the guarantee. -/
theorem wpS_commitTx {iso : Isolation} {ws : List (Write Key Row Stmt)}
    {Q : ScriptPost Db Key Row Stmt Unit}
    (h : ∀ m', Γ.rely m m' → E.Chain m'.db ws → Γ.guar τ ⟨m', none, ws⟩ ∧
      ∀ m'', Γ.rely (m'.after E ws) m'' → Q () .idle m'' (τ.commit m' (some (none, ws)))) :
    wpS E Γ commitTx Q (.active ⟨iso, none, ws⟩) m τ := by
  refine fun m' hm' ↦ ⟨fun _ e ↦ wp_pure_error, fun hchain ↦ ?_⟩
  obtain ⟨hguar, hQ⟩ := h m' hm' (hchain _ rfl)
  refine ⟨?_, ?_, fun _ _ ↦ wp_pure_error⟩
  · rintro t ⟨⟩
    exact hguar
  · rintro m'' hm'' a ⟨⟩
    exact hQ m'' hm''

/-- At the end of its scope a transaction is over. -/
theorem wpS_transaction {p : ScriptM Stmt Res Err α}
    (h : wpS E Γ p (fun a _ m τ ↦ ∀ m', Γ.rely m m' → Q a .idle m' τ)
      (.active ⟨.readCommitted, none, []⟩) m τ) : wpS E Γ (transaction p) Q c m τ := by
  refine wpS_bind fun m₁ hm₁ ↦ ⟨fun _ e ↦ wp_pure_error, ?_⟩
  rintro m₂ hm₂ u ⟨⟩
  refine wp_bind (wp_mono (wp_env h (Γ.rely_trans hm₁ hm₂)) fun r c m τ hr m₃ hm₃ m₄ hm₄ ↦ ?_)
  rintro a rfl
  exact hr a rfl m₄ (Γ.rely_trans hm₃ hm₄)

end

/-! ### Stopping at the first error -/

/-- The script sends no statement after one that failed, and fails then. -/
def Stops (p : ScriptM Stmt Res Err α) : Prop := p.run.StopsOnError fun r ↦ ∃ e, r = .error e

theorem stops_pure (a : α) : Stops (pure a : ScriptM Stmt Res Err α) := trivial

theorem stops_bind {p : ScriptM Stmt Res Err β} {f : β → ScriptM Stmt Res Err α} (hp : Stops p)
    (hf : ∀ b, Stops (f b)) : Stops (p >>= f) := by
  refine Prog.StopsOnError.bind hp ?_ fun r ↦ ?_
  · rintro r ⟨e, rfl⟩
    exact ⟨e, rfl⟩
  · cases r with
    | ok b => exact hf b
    | error e => trivial

theorem stops_query (s : Stmt) : Stops (query s : ScriptM Stmt Res Err (Res s)) :=
  ⟨fun e ↦ ⟨e, rfl⟩, fun _ ↦ trivial⟩

theorem stops_commitTx : Stops (commitTx : ScriptM Stmt Res Err Unit) := fun _ ↦ trivial

theorem stops_transaction {p : ScriptM Stmt Res Err α} (hp : Stops p) : Stops (transaction p) := by
  refine stops_bind (fun _ ↦ trivial) fun _ ↦ Prog.StopsOnError.bind hp ?_ fun _ _ ↦ trivial
  rintro r ⟨e, rfl⟩ _
  exact ⟨e, rfl⟩

end Txn

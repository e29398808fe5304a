import DbosTransact.Db.Rules
import DbosTransact.Foundation.Alone

/-!
# Programs of the runtime, undisturbed

The rules of `Txn.alone` at the programs of this development. A specification `aloneM` says that a
program returns, and what. A transaction that is left alone reads one database from its beginning to
its end, at either isolation level, so a statement in it has a calm view (`CalmView`) and what it
does can be computed.
-/

namespace Dbos

open Txn

section

variable (valid : DbMoment → (q : Ask) → q.Ans → Bool)

/-- The program returns a result that satisfies `Q`, if it is left alone. -/
def aloneM {α : Type} (p : DbosM α) (Q : α → DbConn → DbMoment → Prop) (c : DbConn)
    (m : DbMoment) : Prop :=
  alone server valid p.run (fun r c m ↦ ∃ a, r = .ok a ∧ Q a c m) c m

end

/-- The snapshot of the transaction, if it has one, shows this database. -/
def Tx.Reads (tx : DbTx) (db : Db) : Prop := ∀ s ∈ tx.snapshot, s.db = db

/-- The view of a statement in a transaction that is left alone with the database `db`. -/
structure CalmView (tx : DbTx) (db : Db) (v : DbView Stmt) : Prop extends v.Calm where
  iso : v.iso = tx.iso
  cur : v.cur = server.apply db tx.writes

section

variable {valid : DbMoment → (q : Ask) → q.Ans → Bool} {α β : Type}
variable {Q Q' : α → DbConn → DbMoment → Prop} {c : DbConn} {m : DbMoment} {tx : DbTx}

theorem aloneM_still {p : DbosM α} {m' : DbMoment} (h : aloneM valid p Q c m) (hm : m.Still m') :
    aloneM valid p Q c m' :=
  alone_still h hm

theorem aloneM_mono {p : DbosM α} (h : aloneM valid p Q c m)
    (hQ : ∀ a c m, Q a c m → Q' a c m) : aloneM valid p Q' c m := by
  refine alone_mono h ?_
  rintro r c m ⟨a, rfl, ha⟩
  exact ⟨a, rfl, hQ a c m ha⟩

theorem aloneM_pure {a : α} (h : ∀ m', m.Still m' → Q a c m') : aloneM valid (pure a) Q c m :=
  fun m' hm ↦ ⟨a, rfl, h m' hm⟩

theorem aloneM_bind {p : DbosM β} {f : β → DbosM α}
    (h : aloneM valid p (fun b c m ↦ aloneM valid (f b) Q c m) c m) :
    aloneM valid (p >>= f) Q c m := by
  refine alone_bind (alone_mono h ?_)
  rintro r c m ⟨b, rfl, hb⟩
  exact hb

theorem aloneM_ask {q : Ask} {f : q.Ans → DbosM α}
    (h : ∀ m', m.Still m' → ∀ a, valid m' q a = true → aloneM valid (f a) Q c m') :
    aloneM valid (ask q >>= f) Q c m := h

theorem aloneM_begin {f : Unit → DbosM α}
    (h : ∀ m', m.Still m' → aloneM valid (f ()) Q (.active ⟨.readCommitted, none, []⟩) m') :
    aloneM valid (beginTx >>= f) Q c m :=
  h

theorem aloneM_isolation {iso : Isolation} {f : Unit → DbosM α}
    (h : aloneM valid (f ()) Q (.active { tx with iso := iso }) m) :
    aloneM valid (setIsolation iso >>= f) Q (.active tx) m :=
  fun _ hm ↦ aloneM_still h hm

theorem aloneM_commit {f : Unit → DbosM α}
    (h : ∀ m', m.Still m' → aloneM valid (f ()) Q .idle (m'.after server tx.writes)) :
    aloneM valid (commitTx >>= f) Q (.active tx) m :=
  h

theorem aloneM_transaction {p : DbosM α}
    (h : ∀ m', m.Still m' → aloneM valid p (fun a _ m ↦ ∀ m', m.Still m' → Q a .idle m')
      (.active ⟨.readCommitted, none, []⟩) m') : aloneM valid (transaction p) Q c m := by
  refine aloneM_begin fun m₁ h₁ ↦ alone_bind (alone_mono (h m₁ h₁) ?_)
  rintro r c m ⟨a, rfl, ha⟩ m₂ h₂ m₃ h₃
  exact ⟨a, rfl, ha m₃ (h₂.trans h₃)⟩

/-- A statement in a transaction that is left alone is carried out at once. -/
theorem aloneM_query {s : Stmt} {f : s.Res → DbosM α} (htx : Tx.Reads tx m.db)
    (h : ∀ v, CalmView tx m.db v → ∃ a ch, Stmt.run v s = .done a ch ∧ ∀ tx' m', m.Still m' →
      tx'.iso = tx.iso → Tx.Reads tx' m.db → tx'.writes = tx.writes ++ store.record s v.cur ch →
      aloneM valid (f a) Q (.active tx') m') :
    aloneM valid (query s >>= f) Q (.active tx) m := by
  rw [query_bind]
  intro b hb m' hm plan
  have hbase : ((Conn.active (pinTx tx b)).snapshot b).db = m.db := by
    obtain ⟨iso, snap, ws⟩ := tx
    cases iso with
    | readCommitted => exact hb.2.symm
    | repeatableRead =>
      cases snap with
      | none => exact hb.2.symm
      | some s => exact htx s rfl
  let v : DbView Stmt :=
    ⟨plan, tx.iso, server.apply m.db tx.writes, server.apply m.db tx.writes, []⟩
  obtain ⟨a, ch, hrun, hnext⟩ := h v ⟨⟨rfl, rfl⟩, rfl, rfl⟩
  have hfree : (ch.any fun c ↦ v.held c.1) = false := by
    rw [List.any_eq_false]
    exact fun c _ ↦ by simp [View.held, v]
  have heval : server.eval plan tx.iso s (server.apply m.db tx.writes)
      (server.apply m.db tx.writes) [] = some (.ok a, store.record s v.cur ch) := by
    have hview : View.eval store Stmt.run v s = some (.ok a, store.record s v.cur ch) := by
      rw [View.eval, hrun]
      simp [hfree]
    exact hview
  refine ⟨⟨.ok a, .active { pinTx tx b with writes := tx.writes ++ store.record s v.cur ch }, none⟩,
    ?_, hnext _ m' (hb.trans hm) rfl ?_ rfl⟩
  · rw [pin_active, finishStmt, hbase, ← hm.2, ← hb.2]
    rw [show (pinTx tx b).writes = tx.writes from rfl, show (pinTx tx b).iso = tx.iso from rfl,
      heval]
    rfl
  · intro s hs
    rw [pinTx] at hs
    dsimp only at hs
    split at hs
    · obtain rfl := Option.some.inj hs
      cases hsnap : tx.snapshot with
      | none => exact hb.2.symm
      | some s' => exact htx s' hsnap
    · exact htx s hs

/-- A statement outside a transaction that is left alone is carried out at once. -/
theorem aloneM_query_idle {s : Stmt} {f : s.Res → DbosM α}
    (h : ∀ v : DbView Stmt, v.Calm → v.cur = m.db → ∃ a ch, Stmt.run v s = .done a ch ∧
      ∀ m', m.Still m' →
        aloneM valid (f a) Q .idle (m'.after server (store.record s m.db ch))) :
    aloneM valid (query s >>= f) Q .idle m := by
  rw [query_bind]
  intro b hb m' hm plan
  let v : DbView Stmt := ⟨plan, .readCommitted, m.db, m.db, []⟩
  obtain ⟨a, ch, hrun, hnext⟩ := h v ⟨rfl, rfl⟩ rfl
  have hfree : (ch.any fun c ↦ v.held c.1) = false := by
    rw [List.any_eq_false]
    exact fun c _ ↦ by simp [View.held, v]
  have heval : server.eval plan .readCommitted s m.db m.db [] =
      some (.ok a, store.record s m.db ch) := by
    have hview : View.eval store Stmt.run v s = some (.ok a, store.record s v.cur ch) := by
      rw [View.eval, hrun]
      simp [hfree]
    exact hview
  refine ⟨⟨.ok a, .idle, some (some b, store.record s m.db ch)⟩, ?_, hnext m' (hb.trans hm)⟩
  show finishStmt server plan [] b m' .idle s = _
  rw [finishStmt, ← hm.2, ← hb.2, heval]

end

end Dbos

import DbosTransact.Foundation.Program
import DbosTransact.Foundation.Table

/-!
# Concurrent sessions over one database

The operational semantics of several clients running `Prog`s against one server. A statement takes
two steps. `issue` fixes the snapshot it reads (the newest committed state under read committed,
the transaction's first snapshot under repeatable read); `finish` evaluates it against that
snapshot and the state it meets once the row locks it needs are free. Between the two, every other
session may move. A statement outside a transaction is a transaction of its own.

Row locks are not stored: the rows a transaction has written and not yet committed are exactly the
rows it holds, so the lock table is read off the open transactions (`System.others`).

Failures are part of the semantics. Any request may fail without effect, the reply to a commit may
be lost after the commit took effect, and a session may stop for good at any point.
-/

namespace Txn

/-- The shared state as one session sees it at one point of a run: the committed database, the
clock, and the number of commits so far. -/
structure Moment (Db : Type) where
  db : Db
  time : ℤ
  xid : ℕ

namespace Moment

variable {Db : Type}

/-- `m'` is reachable from `m`: neither the clock nor the commit count goes back, and the database
only changes by commits. -/
def Before (m m' : Moment Db) : Prop :=
  m.time ≤ m'.time ∧ m.xid ≤ m'.xid ∧ (m.xid = m'.xid → m.db = m'.db)

theorem Before.refl (m : Moment Db) : m.Before m := ⟨le_rfl, le_rfl, fun _ ↦ rfl⟩

theorem Before.trans {m₁ m₂ m₃ : Moment Db} (h₁ : m₁.Before m₂) (h₂ : m₂.Before m₃) :
    m₁.Before m₃ := by
  refine ⟨h₁.1.trans h₂.1, h₁.2.1.trans h₂.2.1, fun h ↦ ?_⟩
  have h₁₂ : m₁.xid = m₂.xid := le_antisymm h₁.2.1 (h.trans_ge h₂.2.1)
  exact (h₁.2.2 h₁₂).trans (h₂.2.2 (h₁₂.symm.trans h))

end Moment

section

variable (Db Key : Type) (Row : Key → Type) (Stmt : Type) (Res : Stmt → Type)
  (Err Plan Ask : Type) (Ans : Ask → Type) (ρ : Type)

/-- The answer to a question, and the moment it was given. -/
structure Answer where
  moment : Moment Db
  ask : Ask
  value : Ans ask

/-- An open transaction: its level, the snapshot of a repeatable-read transaction once its first
statement has fixed one, and the rows written so far. -/
structure Tx where
  iso : Isolation
  snapshot : Option (Moment Db)
  writes : List (Write Key Row Stmt)

/-- The state of a connection. After a failed statement the server refuses everything up to the
end of the transaction. -/
inductive Conn
  | idle
  | active (tx : Tx Db Key Row Stmt)
  | aborted

/-- The effect of a committed transaction: the state it was applied to, the snapshot it was decided
on (if there is one: that of a repeatable-read transaction, or of a statement on its own), and what
it wrote. -/
structure Effect where
  moment : Moment Db
  snapshot : Option (Moment Db)
  writes : List (Write Key Row Stmt)

/-- A committed transaction and the session that made it. -/
structure Commit extends Effect Db Key Row Stmt where
  session : ℕ

/-- A client: the rest of its program, its connection, and the moment its outstanding statement was
issued, if one is outstanding. -/
structure Session where
  prog : Prog Stmt Res Err Ask Ans ρ
  conn : Conn Db Key Row Stmt
  issued : Option (Moment Db)

/-- The clients and the server, with what was committed and what was answered so far; both are
listed with the session they are due to. -/
structure System where
  moment : Moment Db
  sessions : Table ℕ (Session Db Key Row Stmt Res Err Ask Ans ρ)
  history : List (Commit Db Key Row Stmt)
  answers : List (ℕ × Answer Db Ask Ans)

/-- What may happen next. -/
inductive Label
  /-- A client connects with a program to run. -/
  | spawn (i : ℕ) (p : Prog Stmt Res Err Ask Ans ρ)
  /-- Session `i` sends its next statement. -/
  | issue (i : ℕ)
  /-- The server completes the request of session `i`. -/
  | finish (i : ℕ) (plan : Plan)
  /-- The request of session `i` fails without effect. -/
  | fail (i : ℕ) (e : Err)
  /-- The request of session `i` is carried out, but the client is told it failed. -/
  | lost (i : ℕ) (plan : Plan) (e : Err)
  /-- The question session `i` asks is answered. -/
  | answer (i : ℕ) (o : (q : Ask) → Ans q)
  /-- Session `i` stops, and its open transaction is rolled back. -/
  | crash (i : ℕ)
  /-- Time passes. -/
  | tick (d : ℕ)

variable {Stmt Res Err Plan Ask Ans ρ} in
/-- Whether a step is a fault of a request of session `i`. -/
def Label.faults (i : ℕ) : Label Stmt Res Err Plan Ask Ans ρ → Bool
  | .fail j _ => j = i
  | .lost j _ _ => j = i
  | _ => false

variable {Stmt Res Err Plan Ask Ans ρ} in
/-- Whether a step is one of session `i`. -/
def Label.concerns (i : ℕ) : Label Stmt Res Err Plan Ask Ans ρ → Bool
  | .spawn j _ => j = i
  | .issue j => j = i
  | .finish j _ => j = i
  | .fail j _ => j = i
  | .lost j _ _ => j = i
  | .answer j _ => j = i
  | .crash j => j = i
  | .tick _ => false

end

section

variable {Db Key : Type} {Row : Key → Type} {Stmt : Type} {Res : Stmt → Type}
variable {Err Plan Ask : Type} {Ans : Ask → Type} {ρ : Type}

namespace Conn

/-- The uncommitted writes of a connection. -/
def writes : Conn Db Key Row Stmt → List (Write Key Row Stmt)
  | .active tx => tx.writes
  | _ => []

/-- Sending a statement fixes the snapshot of a repeatable-read transaction. -/
def pin (m : Moment Db) : Conn Db Key Row Stmt → Conn Db Key Row Stmt
  | .active ⟨.repeatableRead, none, ws⟩ => .active ⟨.repeatableRead, some m, ws⟩
  | c => c

/-- The level a statement on this connection runs at. -/
def iso : Conn Db Key Row Stmt → Isolation
  | .active tx => tx.iso
  | _ => .readCommitted

/-- The moment whose committed state a statement issued at `m` reads. -/
def snapshot (m : Moment Db) : Conn Db Key Row Stmt → Moment Db
  | .active ⟨.repeatableRead, some m', _⟩ => m'
  | _ => m

/-- The snapshots a connection has fixed. -/
def snapshots : Conn Db Key Row Stmt → List (Moment Db)
  | .active tx => tx.snapshot.toList
  | _ => []

/-- The connection after a request on it failed. -/
def abort : Conn Db Key Row Stmt → Conn Db Key Row Stmt
  | .idle => .idle
  | _ => .aborted

@[simp] theorem writes_idle : (idle : Conn Db Key Row Stmt).writes = [] := rfl
@[simp] theorem writes_aborted : (aborted : Conn Db Key Row Stmt).writes = [] := rfl
@[simp] theorem writes_active (tx : Tx Db Key Row Stmt) : (active tx).writes = tx.writes := rfl

@[simp] theorem writes_pin (m : Moment Db) (c : Conn Db Key Row Stmt) :
    (c.pin m).writes = c.writes := by
  rcases c with - | ⟨iso, snap, ws⟩ | -
  · rfl
  · cases iso <;> cases snap <;> rfl
  · rfl

@[simp] theorem writes_abort (c : Conn Db Key Row Stmt) : c.abort.writes = [] := by
  cases c <;> rfl

@[simp] theorem snapshots_abort (c : Conn Db Key Row Stmt) : c.abort.snapshots = [] := by
  cases c <;> rfl

theorem mem_snapshots_pin {m b : Moment Db} {c : Conn Db Key Row Stmt}
    (h : b ∈ (c.pin m).snapshots) : b ∈ c.snapshots ∨ b = m := by
  rcases c with - | ⟨iso, snap, ws⟩ | -
  · exact Or.inl h
  · cases iso with
    | readCommitted => exact Or.inl h
    | repeatableRead =>
      cases snap with
      | none => exact Or.inr (by simpa [pin, snapshots] using h)
      | some m' => exact Or.inl h
  · exact Or.inl h

end Conn

/-- The transaction a request committed, if it committed one: its snapshot and its writes. -/
abbrev Committed (Db Key : Type) (Row : Key → Type) (Stmt : Type) : Type :=
  Option (Option (Moment Db) × List (Write Key Row Stmt))

/-- What a completed request leaves behind: the reply, the connection, and the committed
transaction, if the request committed one. -/
structure Reply (Db Key : Type) (Row : Key → Type) (Stmt α : Type) where
  value : α
  conn : Conn Db Key Row Stmt
  committed : Committed Db Key Row Stmt

/-- The moment right after a commit. -/
def Moment.after (E : Engine Db Key Row Stmt Res Err Plan) (m : Moment Db)
    (ws : List (Write Key Row Stmt)) : Moment Db :=
  ⟨E.apply m.db ws, m.time, m.xid + 1⟩

theorem Moment.before_after (E : Engine Db Key Row Stmt Res Err Plan) (m : Moment Db)
    (ws : List (Write Key Row Stmt)) : m.Before (m.after E ws) := by
  refine ⟨le_rfl, Nat.le_succ _, fun h ↦ ?_⟩
  simp only [Moment.after] at h
  omega

/-- Complete a statement issued at `b` when the committed state is that of `m`. -/
def finishStmt (E : Engine Db Key Row Stmt Res Err Plan) (plan : Plan)
    (others : List (Write Key Row Stmt)) (b m : Moment Db) (c : Conn Db Key Row Stmt) (s : Stmt) :
    Option (Reply Db Key Row Stmt (Except Err (Res s))) :=
  match c with
  | .aborted => some ⟨.error E.abortedErr, .aborted, none⟩
  | .idle =>
    match E.eval plan .readCommitted s b.db m.db others with
    | none => none
    | some (.error e, _) => some ⟨.error e, .idle, none⟩
    | some (.ok r, ws) => some ⟨.ok r, .idle, some (some b, ws)⟩
  | .active tx =>
    match E.eval plan tx.iso s (E.apply ((Conn.active tx).snapshot b).db tx.writes)
        (E.apply m.db tx.writes) others with
    | none => none
    | some (.error e, _) => some ⟨.error e, .aborted, none⟩
    | some (.ok r, ws) => some ⟨.ok r, .active { tx with writes := tx.writes ++ ws }, none⟩

/-- Complete a `COMMIT`. Committing a failed transaction rolls it back and reports success. -/
def finishCommit (c : Conn Db Key Row Stmt) : Reply Db Key Row Stmt (Except Err Unit) :=
  match c with
  | .active tx => ⟨.ok (), .idle, some (tx.snapshot, tx.writes)⟩
  | _ => ⟨.ok (), .idle, none⟩

/-- Complete a `SET TRANSACTION ISOLATION LEVEL`. -/
def finishIsolate (E : Engine Db Key Row Stmt Res Err Plan) (iso : Isolation)
    (c : Conn Db Key Row Stmt) : Reply Db Key Row Stmt (Except Err Unit) :=
  match c with
  | .active tx => ⟨.ok (), .active { tx with iso := iso }, none⟩
  | .idle => ⟨.ok (), .idle, none⟩
  | .aborted => ⟨.error E.abortedErr, .aborted, none⟩

namespace Session

/-- Give a session its reply. -/
def resume (p : Prog Stmt Res Err Ask Ans ρ) (c : Conn Db Key Row Stmt) :
    Session Db Key Row Stmt Res Err Ask Ans ρ := ⟨p, c, none⟩

/-- Carry out the outstanding request of a session, giving the session that results and the
transaction that was committed. With `lost`, the client hears `e` instead of the server's reply. -/
def finish (E : Engine Db Key Row Stmt Res Err Plan) (plan : Plan)
    (others : List (Write Key Row Stmt)) (m : Moment Db) (lost : Option Err)
    (s : Session Db Key Row Stmt Res Err Ask Ans ρ) :
    Option (Session Db Key Row Stmt Res Err Ask Ans ρ × Committed Db Key Row Stmt) :=
  match s.prog, s.issued with
  | .sql st k, some b =>
    (finishStmt E plan others b m s.conn st).map fun r ↦
      match lost with
      | none => (resume (k r.value) r.conn, r.committed)
      | some e => (resume (k (.error e)) r.conn.abort, r.committed)
  | .begin k, none =>
    match lost with
    | none => some (resume (k (.ok ())) (.active ⟨.readCommitted, none, []⟩), none)
    | some e => some (resume (k (.error e)) s.conn, none)
  | .isolate iso k, none =>
    let r : Reply Db Key Row Stmt (Except Err Unit) := finishIsolate E iso s.conn
    match lost with
    | none => some (resume (k r.value) r.conn, none)
    | some e => some (resume (k (.error e)) r.conn.abort, none)
  | .commit k, none =>
    let r : Reply Db Key Row Stmt (Except Err Unit) := finishCommit s.conn
    match lost with
    | none => some (resume (k r.value) r.conn, r.committed)
    | some e => some (resume (k (.error e)) r.conn, r.committed)
  | .rollback k, none =>
    match lost with
    | none => some (resume (k ()) .idle, none)
    | some _ => none
  | _, _ => none

/-- The outstanding request of a session fails without effect. -/
def fail (e : Err) (s : Session Db Key Row Stmt Res Err Ask Ans ρ) :
    Option (Session Db Key Row Stmt Res Err Ask Ans ρ) :=
  match s.prog, s.issued with
  | .sql _ k, some _ => some (resume (k (.error e)) s.conn.abort)
  | .begin k, none => some (resume (k (.error e)) s.conn)
  | .isolate _ k, none => some (resume (k (.error e)) s.conn.abort)
  | .commit k, none => some (resume (k (.error e)) .idle)
  | _, _ => none

/-- Send the next statement. -/
def issue (m : Moment Db) (s : Session Db Key Row Stmt Res Err Ask Ans ρ) :
    Option (Session Db Key Row Stmt Res Err Ask Ans ρ) :=
  match s.prog, s.issued with
  | .sql _ _, none => some { s with conn := s.conn.pin m, issued := some m }
  | _, _ => none

/-- Answer the question the session asks. -/
def answer (valid : Moment Db → (q : Ask) → Ans q → Bool) (m : Moment Db)
    (o : (q : Ask) → Ans q) (s : Session Db Key Row Stmt Res Err Ask Ans ρ) :
    Option (Session Db Key Row Stmt Res Err Ask Ans ρ × Answer Db Ask Ans) :=
  match s.prog, s.issued with
  | .ask q k, none =>
    if valid m q (o q) then some (resume (k (o q)) s.conn, ⟨m, q, o q⟩) else none
  | _, _ => none

end Session

namespace System

variable (E : Engine Db Key Row Stmt Res Err Plan)
variable (valid : Moment Db → (q : Ask) → Ans q → Bool)

/-- A server with no clients. -/
def init (db : Db) (time : ℤ) : System Db Key Row Stmt Res Err Ask Ans ρ :=
  ⟨⟨db, time, 0⟩, ∅, [], []⟩

/-- The uncommitted writes of every session but `i`. -/
def others (S : System Db Key Row Stmt Res Err Ask Ans ρ) (i : ℕ) : List (Write Key Row Stmt) :=
  (S.sessions.rows.filter fun e ↦ e.1 ≠ i).flatMap fun e ↦ e.2.conn.writes

/-- Replace session `i`, apply the transaction it committed, and list the answer it got. -/
def update (S : System Db Key Row Stmt Res Err Ask Ans ρ) (i : ℕ)
    (s : Session Db Key Row Stmt Res Err Ask Ans ρ)
    (c : Committed Db Key Row Stmt) (a : Option (Answer Db Ask Ans)) :
    System Db Key Row Stmt Res Err Ask Ans ρ :=
  match c with
  | none =>
    { S with
      sessions := S.sessions.insert i s
      answers := S.answers ++ a.toList.map (i, ·) }
  | some (snap, ws) =>
    { moment := S.moment.after E ws
      sessions := S.sessions.insert i s
      history := S.history ++ [⟨⟨S.moment, snap, ws⟩, i⟩]
      answers := S.answers ++ a.toList.map (i, ·) }

/-- Whether no session has used the index `i` yet. -/
def unused (S : System Db Key Row Stmt Res Err Ask Ans ρ) (i : ℕ) : Bool :=
  (S.sessions.lookup i).isNone && S.history.all (fun c ↦ c.session != i) &&
    S.answers.all fun a ↦ a.1 != i

/-- One step of the whole system. -/
def step (S : System Db Key Row Stmt Res Err Ask Ans ρ) :
    Label Stmt Res Err Plan Ask Ans ρ → Option (System Db Key Row Stmt Res Err Ask Ans ρ)
  | .spawn i p =>
    if S.unused i then some (S.update E i (Session.resume p .idle) none none) else none
  | .issue i => do
    let s ← S.sessions.lookup i
    let s' ← s.issue S.moment
    return S.update E i s' none none
  | .finish i plan => do
    let s ← S.sessions.lookup i
    let (s', c) ← s.finish E plan (S.others i) S.moment none
    return S.update E i s' c none
  | .fail i e => do
    let s ← S.sessions.lookup i
    let s' ← s.fail e
    return S.update E i s' none none
  | .lost i plan e => do
    let s ← S.sessions.lookup i
    let (s', c) ← s.finish E plan (S.others i) S.moment (some e)
    return S.update E i s' c none
  | .answer i o => do
    let s ← S.sessions.lookup i
    let (s', a) ← s.answer valid S.moment o
    return S.update E i s' none (some a)
  | .crash i => do
    let _ ← S.sessions.lookup i
    return { S with sessions := S.sessions.erase i }
  | .tick d => some { S with moment := { S.moment with time := S.moment.time + d } }

end System

end

end Txn

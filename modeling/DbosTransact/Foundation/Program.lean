import Mathlib.Logic.Basic
import Mathlib.Data.List.Basic
import Mathlib.Data.Nat.Init

/-!
# Database programs

The shape of a client of a transactional database, without any particular database. A `Prog` is a
sequential program that sends statements to the server, opens and closes transactions, and asks
its surroundings for values the database does not supply (a clock reading, a fresh identifier, the
result of running user code). It is a free monad: what a statement does is not part of the program,
so one program text can be run under different schedulers.

`Store` and `Engine` are the two laws a database has to obey. A `Store` is a set of rows looked up
and replaced by key. An `Engine` evaluates one statement against two views, the snapshot the
statement started from and the newest committed state it meets when it takes its row locks, and
answers with a result and the list of rows it wrote. Each `Write` carries the row it replaced, so a
transaction's effect can be read off its writes alone; `Store.Chain` says that those old rows are
the true ones.
-/

namespace Txn

/-- The two isolation levels a transaction can ask for. -/
inductive Isolation
  | readCommitted
  | repeatableRead
  deriving DecidableEq, Repr

/-- One row written by a statement: its key, the row found there, the row left there, and the
statement that wrote it. -/
structure Write (Key : Type) (Row : Key → Type) (Stmt : Type) where
  key : Key
  old : Option (Row key)
  new : Option (Row key)
  stmt : Stmt

/-- Rows addressed by key. -/
structure Store (Db Key : Type) (Row : Key → Type) where
  look : Db → (k : Key) → Option (Row k)
  put : Db → (k : Key) → Option (Row k) → Db
  look_put_self : ∀ db k r, look (put db k r) k = r
  look_put_of_ne : ∀ db k r k', k' ≠ k → look (put db k r) k' = look db k'

namespace Store

variable {Db Key Stmt : Type} {Row : Key → Type} (S : Store Db Key Row)

/-- The database after a list of writes. -/
def apply (db : Db) (ws : List (Write Key Row Stmt)) : Db :=
  ws.foldl (fun d w ↦ S.put d w.key w.new) db

@[simp] theorem apply_nil (db : Db) : S.apply db ([] : List (Write Key Row Stmt)) = db := rfl

@[simp] theorem apply_cons (db : Db) (w : Write Key Row Stmt) (ws : List (Write Key Row Stmt)) :
    S.apply db (w :: ws) = S.apply (S.put db w.key w.new) ws := rfl

theorem apply_append (db : Db) (ws ws' : List (Write Key Row Stmt)) :
    S.apply db (ws ++ ws') = S.apply (S.apply db ws) ws' :=
  List.foldl_append ..

/-- Every write replaces the row that the writes before it left there. -/
def Chain : Db → List (Write Key Row Stmt) → Prop
  | _, [] => True
  | db, w :: ws => w.old = S.look db w.key ∧ Chain (S.put db w.key w.new) ws

@[simp] theorem chain_nil (db : Db) : S.Chain db ([] : List (Write Key Row Stmt)) := trivial

@[simp] theorem chain_cons {db : Db} {w : Write Key Row Stmt} {ws : List (Write Key Row Stmt)} :
    S.Chain db (w :: ws) ↔ w.old = S.look db w.key ∧ S.Chain (S.put db w.key w.new) ws :=
  Iff.rfl

theorem chain_append {db : Db} {ws ws' : List (Write Key Row Stmt)} :
    S.Chain db (ws ++ ws') ↔ S.Chain db ws ∧ S.Chain (S.apply db ws) ws' := by
  induction ws generalizing db with
  | nil => simp
  | cons w ws ih => simp [ih, and_assoc]

theorem look_apply_of_forall_ne {db : Db} {ws : List (Write Key Row Stmt)} {k : Key}
    (h : ∀ w ∈ ws, w.key ≠ k) : S.look (S.apply db ws) k = S.look db k := by
  induction ws generalizing db with
  | nil => rfl
  | cons w ws ih =>
    rw [apply_cons, ih fun w' hw' ↦ h w' (List.mem_cons_of_mem _ hw')]
    exact S.look_put_of_ne _ _ _ _ (h w List.mem_cons_self).symm

/-- The row a list of writes leaves at a key is the one its last write to that key put there. -/
theorem look_apply_append_cons {db : Db} {ws ws' : List (Write Key Row Stmt)}
    {w : Write Key Row Stmt} (h : ∀ w' ∈ ws', w'.key ≠ w.key) :
    S.look (S.apply db (ws ++ w :: ws')) w.key = w.new := by
  rw [apply_append, apply_cons, S.look_apply_of_forall_ne h, S.look_put_self]

/-- When no row is written twice, every write is the last one to its row. -/
theorem look_apply_of_mem (db : Db) {ws : List (Write Key Row Stmt)}
    (hnd : (ws.map Write.key).Nodup) {w : Write Key Row Stmt} (hw : w ∈ ws) :
    S.look (S.apply db ws) w.key = w.new := by
  obtain ⟨before, after, rfl⟩ := List.append_of_mem hw
  refine S.look_apply_append_cons fun w' hw' heq ↦ ?_
  rw [List.map_append, List.map_cons] at hnd
  refine (List.nodup_cons.1 (List.nodup_append.1 hnd).2.1).1 ?_
  rw [← heq]
  exact List.mem_map_of_mem hw'

/-- A chain stays one in any database that agrees on the rows it writes. -/
theorem Chain.congr {db db' : Db} {ws : List (Write Key Row Stmt)} (h : S.Chain db ws)
    (heq : ∀ w ∈ ws, S.look db' w.key = S.look db w.key) : S.Chain db' ws := by
  induction ws generalizing db db' with
  | nil => trivial
  | cons w ws ih =>
    refine ⟨h.1.trans (heq w List.mem_cons_self).symm, ih h.2 fun w' hw' ↦ ?_⟩
    by_cases hk : w'.key = w.key
    · rw [hk, S.look_put_self, S.look_put_self]
    · rw [S.look_put_of_ne _ _ _ _ hk, S.look_put_of_ne _ _ _ _ hk]
      exact heq w' (List.mem_cons_of_mem _ hw')

variable {S}

/-- A write of a chain replaces the row that the writes before it left. -/
theorem Chain.old_eq {db : Db} {ws : List (Write Key Row Stmt)} (h : S.Chain db ws) {n : ℕ}
    {w : Write Key Row Stmt} (hn : ws[n]? = some w) :
    w.old = S.look (S.apply db (ws.take n)) w.key := by
  obtain ⟨hlt, rfl⟩ := List.getElem?_eq_some_iff.1 hn
  have hsplit : ws = ws.take n ++ ws[n] :: ws.drop (n + 1) := by simp
  have hchain := h
  rw [hsplit, S.chain_append] at hchain
  exact hchain.2.1

theorem look_apply_take_succ (db : Db) (ws : List (Write Key Row Stmt)) {n : ℕ}
    {w : Write Key Row Stmt} (hn : ws[n]? = some w) :
    S.apply db (ws.take (n + 1)) = S.put (S.apply db (ws.take n)) w.key w.new := by
  rw [List.take_add_one, hn, apply_append]
  rfl

/-- What holds of a row still holds after a chain of writes that all keep it. -/
theorem Chain.keeps {db : Db} {ws : List (Write Key Row Stmt)} (h : S.Chain db ws) {k : Key}
    {P : Option (Row k) → Prop} (hP : P (S.look db k))
    (hkeep : ∀ old new s, ⟨k, old, new, s⟩ ∈ ws → P old → P new) :
    P (S.look (S.apply db ws) k) := by
  induction ws generalizing db with
  | nil => exact hP
  | cons w ws ih =>
    refine ih h.2 ?_ fun old new s hw ↦ hkeep old new s (List.mem_cons_of_mem _ hw)
    obtain ⟨key, old, new, s⟩ := w
    by_cases hk : k = key
    · subst hk
      rw [S.look_put_self]
      refine hkeep old new s List.mem_cons_self ?_
      rw [show old = S.look db k from h.1]
      exact hP
    · rw [S.look_put_of_ne _ _ _ _ hk]
      exact hP

/-- What holds of a row before a chain of writes that all keep it holds of what each of them
replaces, and what holds of what one of them leaves holds after the chain. -/
theorem Chain.of_mem {db : Db} {ws : List (Write Key Row Stmt)} (h : S.Chain db ws) {k : Key}
    {old new : Option (Row k)} {s : Stmt} (hw : ⟨k, old, new, s⟩ ∈ ws)
    {P : Option (Row k) → Prop} (hkeep : ∀ old new s, ⟨k, old, new, s⟩ ∈ ws → P old → P new) :
    (P (S.look db k) → P old) ∧ (P new → P (S.look (S.apply db ws) k)) := by
  obtain ⟨before, after, rfl⟩ := List.append_of_mem hw
  obtain ⟨hbefore, hold, hafter⟩ := S.chain_append.1 h
  refine ⟨fun hP ↦ ?_, fun hP ↦ ?_⟩
  · rw [show old = _ from hold]
    exact hbefore.keeps hP fun old new s hw ↦ hkeep old new s (List.mem_append_left _ hw)
  · rw [S.apply_append]
    refine hafter.keeps ?_ fun old new s hw ↦
      hkeep old new s (List.mem_append_right _ (List.mem_cons_of_mem _ hw))
    rw [S.look_put_self]
    exact hP

/-- What holds of the row some write leaves still holds of the row a later write finds, when every
write between them keeps it. -/
theorem Chain.between {db : Db} {ws : List (Write Key Row Stmt)} (h : S.Chain db ws) {i j : ℕ}
    (hij : i < j) {k : Key} {old₁ new₁ old₂ new₂ : Option (Row k)} {s₁ s₂ : Stmt}
    (hi : ws[i]? = some ⟨k, old₁, new₁, s₁⟩) (hj : ws[j]? = some ⟨k, old₂, new₂, s₂⟩)
    {P : Option (Row k) → Prop} (hP : P new₁)
    (hkeep : ∀ n old new s, i < n → n < j → ws[n]? = some ⟨k, old, new, s⟩ → P old → P new) :
    P old₂ := by
  have hsplit : ws.take j = ws.take (i + 1) ++ (ws.take j).drop (i + 1) := by
    conv_lhs => rw [← List.take_append_drop (i + 1) (ws.take j), List.take_take]
    rw [Nat.min_eq_left (by omega : i + 1 ≤ j)]
  have hchain : S.Chain db (ws.take j) := by
    rw [← List.take_append_drop j ws, S.chain_append] at h
    exact h.1
  rw [show old₂ = _ from h.old_eq hj, hsplit, S.apply_append]
  rw [hsplit, S.chain_append] at hchain
  refine hchain.2.keeps ?_ fun old new s hw ↦ ?_
  · rw [look_apply_take_succ db ws hi, S.look_put_self]
    exact hP
  · obtain ⟨n, hn⟩ := List.mem_iff_getElem?.1 hw
    rw [List.getElem?_drop] at hn
    have hlt : i + 1 + n < j := by
      have := (List.getElem?_eq_some_iff.1 hn).1
      rw [List.length_take] at this
      omega
    rw [List.getElem?_take_of_lt hlt] at hn
    exact hkeep (i + 1 + n) old new s (by omega) hlt hn

end Store

/-- A database server. `eval plan iso s base cur others` runs statement `s` for a transaction of
level `iso` whose snapshot shows `base`, when the newest committed state together with the
transaction's own writes is `cur` and the uncommitted writes of the other transactions are
`others`. The result is `none` while a row it needs is locked. `plan` fixes what the query language
leaves open, such as the order of rows that a sort does not distinguish. `legal` is what is known of
a write from the statement that made it. -/
structure Engine (Db Key : Type) (Row : Key → Type) (Stmt : Type) (Res : Stmt → Type)
    (Err Plan : Type) extends Store Db Key Row where
  eval : Plan → Isolation → (s : Stmt) → (base cur : Db) → (others : List (Write Key Row Stmt)) →
    Option (Except Err (Res s) × List (Write Key Row Stmt))
  /-- The error of a statement sent to a transaction that has already failed. -/
  abortedErr : Err
  legal : Write Key Row Stmt → Prop
  eval_chain : ∀ {plan iso s base cur others r ws},
    eval plan iso s base cur others = some (r, ws) → toStore.Chain cur ws
  eval_unlocked : ∀ {plan iso s base cur others r ws},
    eval plan iso s base cur others = some (r, ws) → ∀ w ∈ ws, ∀ o ∈ others, w.key ≠ o.key
  eval_legal : ∀ {plan iso s base cur others r ws},
    eval plan iso s base cur others = some (r, ws) → ∀ w ∈ ws, legal w
  eval_stmt : ∀ {plan iso s base cur others r ws},
    eval plan iso s base cur others = some (r, ws) → ∀ w ∈ ws, w.stmt = s

/-! ### Programs -/

/-- A sequential client of the database. The two closing operations and `sql` report whether they
worked; `rollback` models giving the connection back, which cannot fail. -/
inductive Prog (Stmt : Type) (Res : Stmt → Type) (Err : Type) (Ask : Type) (Ans : Ask → Type)
    (α : Type) : Type
  | pure (a : α)
  | sql (s : Stmt) (k : Except Err (Res s) → Prog Stmt Res Err Ask Ans α)
  | ask (q : Ask) (k : Ans q → Prog Stmt Res Err Ask Ans α)
  | begin (k : Except Err Unit → Prog Stmt Res Err Ask Ans α)
  | isolate (iso : Isolation) (k : Except Err Unit → Prog Stmt Res Err Ask Ans α)
  | commit (k : Except Err Unit → Prog Stmt Res Err Ask Ans α)
  | rollback (k : Unit → Prog Stmt Res Err Ask Ans α)

namespace Prog

variable {Stmt : Type} {Res : Stmt → Type} {Err : Type} {Ask : Type} {Ans : Ask → Type}
variable {α β γ : Type}

/-- Run one program after another. -/
def bind : Prog Stmt Res Err Ask Ans α → (α → Prog Stmt Res Err Ask Ans β) →
    Prog Stmt Res Err Ask Ans β
  | .pure a, f => f a
  | .sql s k, f => .sql s fun r ↦ (k r).bind f
  | .ask q k, f => .ask q fun a ↦ (k a).bind f
  | .begin k, f => .begin fun r ↦ (k r).bind f
  | .isolate iso k, f => .isolate iso fun r ↦ (k r).bind f
  | .commit k, f => .commit fun r ↦ (k r).bind f
  | .rollback k, f => .rollback fun u ↦ (k u).bind f

instance : Monad (Prog Stmt Res Err Ask Ans) where
  pure := .pure
  bind := .bind

@[simp] theorem pure_eq (a : α) : (Pure.pure a : Prog Stmt Res Err Ask Ans α) = .pure a := rfl

@[simp] theorem bind_eq (p : Prog Stmt Res Err Ask Ans α) (f : α → Prog Stmt Res Err Ask Ans β) :
    p >>= f = p.bind f := rfl

theorem bind_assoc (p : Prog Stmt Res Err Ask Ans α) (f : α → Prog Stmt Res Err Ask Ans β)
    (g : β → Prog Stmt Res Err Ask Ans γ) :
    (p.bind f).bind g = p.bind fun a ↦ (f a).bind g := by
  induction p with
  | pure a => rfl
  | sql s k ih => simp only [bind, ih]
  | ask q k ih => simp only [bind, ih]
  | begin k ih => simp only [bind, ih]
  | isolate iso k ih => simp only [bind, ih]
  | commit k ih => simp only [bind, ih]
  | rollback k ih => simp only [bind, ih]

theorem bind_pure (p : Prog Stmt Res Err Ask Ans α) : p.bind .pure = p := by
  induction p with
  | pure a => rfl
  | sql s k ih => simp only [bind, ih]
  | ask q k ih => simp only [bind, ih]
  | begin k ih => simp only [bind, ih]
  | isolate iso k ih => simp only [bind, ih]
  | commit k ih => simp only [bind, ih]
  | rollback k ih => simp only [bind, ih]

/-- Every statement the program can send satisfies `P`, and every question it can ask `A`. -/
def All (P : Stmt → Prop) (A : Ask → Prop) : Prog Stmt Res Err Ask Ans α → Prop
  | .pure _ => True
  | .sql s k => P s ∧ ∀ r, (k r).All P A
  | .ask q k => A q ∧ ∀ a, (k a).All P A
  | .begin k => ∀ r, (k r).All P A
  | .isolate _ k => ∀ r, (k r).All P A
  | .commit k => ∀ r, (k r).All P A
  | .rollback k => ∀ u, (k u).All P A

theorem all_true (p : Prog Stmt Res Err Ask Ans α) : p.All (fun _ ↦ True) fun _ ↦ True := by
  induction p with
  | pure a => trivial
  | sql s k ih => exact ⟨trivial, ih⟩
  | ask q k ih => exact ⟨trivial, ih⟩
  | begin k ih => exact ih
  | isolate iso k ih => exact ih
  | commit k ih => exact ih
  | rollback k ih => exact ih

theorem All.mono {P P' : Stmt → Prop} {A A' : Ask → Prop} {p : Prog Stmt Res Err Ask Ans α}
    (hp : p.All P A) (hP : ∀ s, P s → P' s) (hA : ∀ q, A q → A' q) : p.All P' A' := by
  induction p with
  | pure a => trivial
  | sql s k ih => exact ⟨hP s hp.1, fun r ↦ ih r (hp.2 r)⟩
  | ask q k ih => exact ⟨hA q hp.1, fun a ↦ ih a (hp.2 a)⟩
  | begin k ih => exact fun r ↦ ih r (hp r)
  | isolate iso k ih => exact fun r ↦ ih r (hp r)
  | commit k ih => exact fun r ↦ ih r (hp r)
  | rollback k ih => exact fun u ↦ ih u (hp u)

theorem All.bind {P : Stmt → Prop} {A : Ask → Prop} {p : Prog Stmt Res Err Ask Ans α}
    {f : α → Prog Stmt Res Err Ask Ans β} (hp : p.All P A) (hf : ∀ a, (f a).All P A) :
    (p.bind f).All P A := by
  induction p with
  | pure a => exact hf a
  | sql s k ih => exact ⟨hp.1, fun r ↦ ih r (hp.2 r)⟩
  | ask q k ih => exact ⟨hp.1, fun a ↦ ih a (hp.2 a)⟩
  | begin k ih => exact fun r ↦ ih r (hp r)
  | isolate iso k ih => exact fun r ↦ ih r (hp r)
  | commit k ih => exact fun r ↦ ih r (hp r)
  | rollback k ih => exact fun u ↦ ih u (hp u)

/-- The program begins no transaction. -/
def Autocommits : Prog Stmt Res Err Ask Ans α → Prop
  | .pure _ => True
  | .sql _ k => ∀ r, (k r).Autocommits
  | .ask _ k => ∀ a, (k a).Autocommits
  | .begin _ => False
  | .isolate _ k => ∀ r, (k r).Autocommits
  | .commit k => ∀ r, (k r).Autocommits
  | .rollback k => ∀ u, (k u).Autocommits

theorem Autocommits.bind {p : Prog Stmt Res Err Ask Ans α} {f : α → Prog Stmt Res Err Ask Ans β}
    (hp : p.Autocommits) (hf : ∀ a, (f a).Autocommits) : (p.bind f).Autocommits := by
  induction p with
  | pure a => exact hf a
  | sql s k ih => exact fun r ↦ ih r (hp r)
  | ask q k ih => exact fun a ↦ ih a (hp a)
  | begin k ih => exact hp.elim
  | isolate iso k ih => exact fun r ↦ ih r (hp r)
  | commit k ih => exact fun r ↦ ih r (hp r)
  | rollback k ih => exact fun u ↦ ih u (hp u)

instance : LawfulMonad (Prog Stmt Res Err Ask Ans) :=
  LawfulMonad.mk' _ bind_pure (fun _ _ ↦ rfl) bind_assoc

end Prog

end Txn

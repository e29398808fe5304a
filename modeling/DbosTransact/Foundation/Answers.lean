import DbosTransact.Foundation.Program

/-!
# Statements and the answers before them

`Prog.All` speaks of every statement a program can send, whatever it has been told before.
`Prog.heeds` speaks of the statements together with a record `σ` of the answers the program has had
so far, so it can say that a statement carries the value that was computed from an answer.

`Prog.serve` runs a program that sends its statements one by one, outside of any transaction, and
asks nothing: the replies come from a server with a state of its own.
-/

namespace Txn.Prog

variable {Stmt : Type} {Res : Stmt → Type} {Err Ask : Type} {Ans : Ask → Type} {α β σ : Type}
variable (note : σ → (q : Ask) → Ans q → σ) (P : σ → Stmt → Prop)

/-- Every statement the program can send satisfies `P` with the record of the answers before it, and
the program ends with `Q`. -/
def heeds : Prog Stmt Res Err Ask Ans α → (α → σ → Prop) → σ → Prop
  | .pure a, Q, s => Q a s
  | .sql st k, Q, s => P s st ∧ ∀ r, (k r).heeds Q s
  | .ask q k, Q, s => ∀ a, (k a).heeds Q (note s q a)
  | .begin k, Q, s => ∀ r, (k r).heeds Q s
  | .isolate _ k, Q, s => ∀ r, (k r).heeds Q s
  | .commit k, Q, s => ∀ r, (k r).heeds Q s
  | .rollback k, Q, s => ∀ u, (k u).heeds Q s

variable {note P} {Q Q' : α → σ → Prop} {s : σ}

theorem heeds_mono {p : Prog Stmt Res Err Ask Ans α} (h : p.heeds note P Q s)
    (hQ : ∀ a s, Q a s → Q' a s) : p.heeds note P Q' s := by
  induction p generalizing s with
  | pure a => exact hQ a s h
  | sql st k ih => exact ⟨h.1, fun r ↦ ih r (h.2 r)⟩
  | ask q k ih => exact fun a ↦ ih a (h a)
  | begin k ih => exact fun r ↦ ih r (h r)
  | isolate iso k ih => exact fun r ↦ ih r (h r)
  | commit k ih => exact fun r ↦ ih r (h r)
  | rollback k ih => exact fun u ↦ ih u (h u)

theorem heeds_bind {p : Prog Stmt Res Err Ask Ans β} {f : β → Prog Stmt Res Err Ask Ans α}
    (h : p.heeds note P (fun b s ↦ (f b).heeds note P Q s) s) : (p.bind f).heeds note P Q s := by
  induction p generalizing s with
  | pure b => exact h
  | sql st k ih => exact ⟨h.1, fun r ↦ ih r (h.2 r)⟩
  | ask q k ih => exact fun a ↦ ih a (h a)
  | begin k ih => exact fun r ↦ ih r (h r)
  | isolate iso k ih => exact fun r ↦ ih r (h r)
  | commit k ih => exact fun r ↦ ih r (h r)
  | rollback k ih => exact fun u ↦ ih u (h u)

/-- A program that asks nothing of account leaves the record as it is. -/
theorem heeds_of_all {p : Prog Stmt Res Err Ask Ans α}
    (h : p.All (P s) fun q ↦ ∀ a, note s q a = s) : p.heeds note P (fun _ s' ↦ s' = s) s := by
  induction p with
  | pure a => rfl
  | sql st k ih => exact ⟨h.1, fun r ↦ ih r (h.2 r)⟩
  | ask q k ih =>
    intro a
    rw [h.1 a]
    exact ih a (h.2 a)
  | begin k ih => exact fun r ↦ ih r (h r)
  | isolate iso k ih => exact fun r ↦ ih r (h r)
  | commit k ih => exact fun r ↦ ih r (h r)
  | rollback k ih => exact fun u ↦ ih u (h u)

/-! ### Replies from a list -/

/-- The result of a program whose statements are answered one after the other, with the state of
the server afterwards. -/
def serve (reply : σ → (st : Stmt) → Except Err (Res st) × σ) :
    Prog Stmt Res Err Ask Ans α → σ → Option (α × σ)
  | .pure a, s => some (a, s)
  | .sql st k, s => (k (reply s st).1).serve reply (reply s st).2
  | _, _ => none

theorem serve_bind {reply : σ → (st : Stmt) → Except Err (Res st) × σ}
    (p : Prog Stmt Res Err Ask Ans β) (f : β → Prog Stmt Res Err Ask Ans α) :
    (p.bind f).serve reply s = (p.serve reply s).bind fun r ↦ (f r.1).serve reply r.2 := by
  induction p generalizing s with
  | pure b => rfl
  | sql st k ih => exact ih _
  | _ => rfl

end Txn.Prog

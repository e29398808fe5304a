import DbosTransact.Foundation.Program

/-!
# The requests of a program

What a program shows of itself: the requests it sends to the server, with the replies they get, and
its result. What it asks its surroundings leaves no trace, so that two programs can be compared that
ask different questions, such as one that reads a clock and one that is told when to stop.
-/

namespace Txn

variable {Stmt : Type} {Res : Stmt → Type} {Err Ask : Type} {Ans : Ask → Type} {α β : Type}

/-- A request to the server, with its reply. -/
inductive Event (Stmt : Type) (Res : Stmt → Type) (Err : Type) : Type
  | sql (s : Stmt) (r : Except Err (Res s))
  | begin (r : Except Err Unit)
  | isolate (iso : Isolation) (r : Except Err Unit)
  | commit (r : Except Err Unit)
  | rollback

namespace Prog

/-- The program can send these requests, get these replies, and end with the result. -/
inductive Does : Prog Stmt Res Err Ask Ans α → List (Event Stmt Res Err) → α → Prop
  | pure (a : α) : Does (.pure a) [] a
  | sql {s k es a} (r) (h : Does (k r) es a) : Does (.sql s k) (.sql s r :: es) a
  | ask {q k es a} (x) (h : Does (k x) es a) : Does (.ask q k) es a
  | begin {k es a} (r) (h : Does (k r) es a) : Does (.begin k) (.begin r :: es) a
  | isolate {iso k es a} (r) (h : Does (k r) es a) : Does (.isolate iso k) (.isolate iso r :: es) a
  | commit {k es a} (r) (h : Does (k r) es a) : Does (.commit k) (.commit r :: es) a
  | rollback {k es a} (h : Does (k ()) es a) : Does (.rollback k) (.rollback :: es) a

variable {p : Prog Stmt Res Err Ask Ans α} {f : α → Prog Stmt Res Err Ask Ans β}
variable {es es' : List (Event Stmt Res Err)} {a : α} {b : β}

theorem does_pure {a' : α} :
    (Prog.pure a : Prog Stmt Res Err Ask Ans α).Does es a' ↔ es = [] ∧ a' = a := by
  refine ⟨fun h ↦ ?_, ?_⟩
  · cases h
    exact ⟨rfl, rfl⟩
  · rintro ⟨rfl, rfl⟩
    exact .pure a'

theorem does_ask {q : Ask} {k : Ans q → Prog Stmt Res Err Ask Ans α} :
    (Prog.ask q k).Does es a ↔ ∃ x, (k x).Does es a := by
  refine ⟨fun h ↦ ?_, fun ⟨x, h⟩ ↦ .ask x h⟩
  cases h with
  | ask x h => exact ⟨x, h⟩

theorem Does.bind (h : p.Does es a) (h' : (f a).Does es' b) : (p.bind f).Does (es ++ es') b := by
  induction h with
  | pure a => exact h'
  | sql r _ ih => exact .sql r (ih h')
  | ask x _ ih => exact .ask x (ih h')
  | begin r _ ih => exact .begin r (ih h')
  | isolate r _ ih => exact .isolate r (ih h')
  | commit r _ ih => exact .commit r (ih h')
  | rollback _ ih => exact .rollback (ih h')

/-- A run of one program after another is a run of the first and then one of the second. -/
theorem does_bind : (p.bind f).Does es b ↔
    ∃ es₁ es₂ a, es = es₁ ++ es₂ ∧ p.Does es₁ a ∧ (f a).Does es₂ b := by
  refine ⟨fun h ↦ ?_, ?_⟩
  · induction p generalizing es with
    | pure a => exact ⟨[], es, a, rfl, .pure a, h⟩
    | sql s k ih =>
      cases h with
      | sql r h =>
        obtain ⟨es₁, es₂, a, rfl, h₁, h₂⟩ := ih r h
        exact ⟨_, es₂, a, rfl, .sql r h₁, h₂⟩
    | ask q k ih =>
      cases h with
      | ask x h =>
        obtain ⟨es₁, es₂, a, rfl, h₁, h₂⟩ := ih x h
        exact ⟨_, es₂, a, rfl, .ask x h₁, h₂⟩
    | begin k ih =>
      cases h with
      | begin r h =>
        obtain ⟨es₁, es₂, a, rfl, h₁, h₂⟩ := ih r h
        exact ⟨_, es₂, a, rfl, .begin r h₁, h₂⟩
    | isolate iso k ih =>
      cases h with
      | isolate r h =>
        obtain ⟨es₁, es₂, a, rfl, h₁, h₂⟩ := ih r h
        exact ⟨_, es₂, a, rfl, .isolate r h₁, h₂⟩
    | commit k ih =>
      cases h with
      | commit r h =>
        obtain ⟨es₁, es₂, a, rfl, h₁, h₂⟩ := ih r h
        exact ⟨_, es₂, a, rfl, .commit r h₁, h₂⟩
    | rollback k ih =>
      cases h with
      | rollback h =>
        obtain ⟨es₁, es₂, a, rfl, h₁, h₂⟩ := ih () h
        exact ⟨_, es₂, a, rfl, .rollback h₁, h₂⟩
  · rintro ⟨es₁, es₂, a, rfl, h₁, h₂⟩
    exact h₁.bind h₂

end Prog

end Txn

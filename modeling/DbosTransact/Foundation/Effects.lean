import DbosTransact.Foundation.Logic

/-!
# The guarantees of a session in its own postcondition

A session pays its guarantee when it commits, and its postcondition may need what it has paid: that
every transaction in its trace is one of those it may commit. `wp_effects` adds this to any
postcondition.
-/

namespace Txn

variable {Db Key : Type} {Row : Key → Type} {Stmt : Type} {Res : Stmt → Type}
variable {Err Plan Ask : Type} {Ans : Ask → Type} {α : Type}
variable {E : Engine Db Key Row Stmt Res Err Plan} {Γ : Spec Db Key Row Stmt Ask Ans}

/-- The transactions of a trace since `τ₀` all satisfy `G`. -/
def Trace.Since (G : Effect Db Key Row Stmt → Prop) (τ₀ τ : Trace Db Key Row Stmt Ask Ans) : Prop :=
  ∃ es, τ.effects = τ₀.effects ++ es ∧ ∀ e ∈ es, G e

/-- What is guaranteed of every transaction holds of all those that were committed since. -/
theorem wp_effects {G : Effect Db Key Row Stmt → Prop} (hG : ∀ τ e, Γ.guar τ e → G e)
    {p : Prog Stmt Res Err Ask Ans α} {Q : Post Db Key Row Stmt Ask Ans α}
    {c : Conn Db Key Row Stmt} {m : Moment Db} {τ₀ : Trace Db Key Row Stmt Ask Ans}
    (h : wp E Γ p Q c m τ₀) :
    wp E Γ p (fun a c m τ ↦ Q a c m τ ∧ τ₀.Since G τ) c m τ₀ := by
  -- a reply adds to the trace at most a transaction that was paid for
  have replied : ∀ {γ : Type} {m : Moment Db} {τ : Trace Db Key Row Stmt Ask Ans}
      {r : Reply Db Key Row Stmt (Except Err γ)}
      {K K' : Post Db Key Row Stmt Ask Ans (Except Err γ)}, Γ.Replied E m τ r K → τ₀.Since G τ →
      (∀ v c m τ, K v c m τ → τ₀.Since G τ → K' v c m τ) → Γ.Replied E m τ r K' := by
    rintro γ m τ r K K' hr ⟨es, hes, hall⟩ hK hchain
    obtain ⟨hpays, hok, hlost⟩ := hr hchain
    have hadds : τ₀.Since G (τ.commit m r.committed) := by
      refine ⟨es ++ m.effects r.committed, by rw [Trace.effects_commit, hes, List.append_assoc],
        List.forall_mem_append.2 ⟨hall, fun e he ↦ ?_⟩⟩
      obtain ⟨t, ht, rfl⟩ := List.mem_map.1 he
      exact hG _ _ (hpays t (Option.mem_toList.1 ht))
    exact ⟨hpays, hK _ _ _ _ hok hadds, fun hf e ↦ hK _ _ _ _ (hlost hf e) hadds⟩
  have since : ∀ {p : Prog Stmt Res Err Ask Ans α} {c : Conn Db Key Row Stmt} {m : Moment Db}
      {τ : Trace Db Key Row Stmt Ask Ans}, wp E Γ p Q c m τ → τ₀.Since G τ →
      wp E Γ p (fun a c m τ ↦ Q a c m τ ∧ τ₀.Since G τ) c m τ := by
    intro p
    induction p with
    | pure a => exact fun h hτ m₁ h₁ ↦ ⟨h m₁ h₁, hτ⟩
    | sql s k ih =>
      intro c m τ h hτ b hb hi m' hm'
      obtain ⟨hfail, hok⟩ := h b hb hi m' hm'
      exact ⟨fun hf e ↦ ih _ (hfail hf e) hτ,
        fun plan others r hr ↦ replied (hok plan others r hr) hτ fun v _ _ _ hv ↦ ih v hv⟩
    | ask q k ih => exact fun h hτ m₁ h₁ a ha ↦ ⟨(h m₁ h₁ a ha).1, ih _ (h m₁ h₁ a ha).2 hτ⟩
    | begin k ih =>
      exact fun h hτ m₁ h₁ ↦ ⟨fun hf e ↦ ih _ ((h m₁ h₁).1 hf e) hτ, ih _ (h m₁ h₁).2 hτ⟩
    | isolate iso k ih =>
      exact fun h hτ m₁ h₁ ↦ ⟨fun hf e ↦ ih _ ((h m₁ h₁).1 hf e) hτ,
        replied (h m₁ h₁).2 hτ fun v _ _ _ hv ↦ ih v hv⟩
    | commit k ih =>
      exact fun h hτ m₁ h₁ ↦ ⟨fun hf e ↦ ih _ ((h m₁ h₁).1 hf e) hτ,
        replied (h m₁ h₁).2 hτ fun v _ _ _ hv ↦ ih v hv⟩
    | rollback k ih => exact fun h hτ m₁ h₁ ↦ ih _ (h m₁ h₁) hτ
  exact since h ⟨[], by simp, by simp⟩

end Txn

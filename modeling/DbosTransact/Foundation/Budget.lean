import DbosTransact.Foundation.WriteOnce

/-!
# What a row has to spend

A row may keep an account of the transactions of some kind that were committed on it. If a
transaction of this kind adds to the account, no other write takes from it, and the account has a
bound `B`, then `B` such transactions at most are committed (`Consistent.countP_add_le`). Here some
transactions may also clear the account: each of them pays for another `B`
(`Consistent.countP_le_mul`).
-/

namespace Txn.System

variable {Db Key : Type} {Row : Key → Type} {Stmt : Type} {Res : Stmt → Type}
variable {Err Plan Ask : Type} {Ans : Ask → Type} {ρ : Type}
variable {E : Engine Db Key Row Stmt Res Err Plan}
variable {S : System Db Key Row Stmt Res Err Ask Ans ρ} {db₀ : Db} {k : Key}

/-- The state in which a commit was made. -/
theorem stateAt_eq_of_commit (hC : Consistent E db₀ S) {n : ℕ} {c : Commit Db Key Row Stmt}
    (hc : S.history[n]? = some c) : stateAt E db₀ S.history n = c.moment.db := by
  obtain ⟨hxid, -, hshows, -, -⟩ := hC.commit hc
  rw [hshows.db, hxid]

/-- One write after the other, a transaction keeps what each of its writes keeps. -/
theorem keeps_of_commit (hC : Consistent E db₀ S) {n : ℕ} {c : Commit Db Key Row Stmt}
    (hc : S.history[n]? = some c) {P : Option (Row k) → Prop}
    (hP : P (E.look c.moment.db k))
    (hkeep : ∀ old new s, ⟨k, old, new, s⟩ ∈ c.writes → P old → P new) :
    P (E.look (E.apply c.moment.db c.writes) k) :=
  (hC.commit hc).2.2.2.1.keeps hP hkeep

/-- **A budget that is refilled.** Let the account `μ` of a row have the bound `B`. If every
transaction in `p` adds to it, and only those in `q`, which are not in `p`, take from it, then the
number of transactions in `p` is at most `B` for the beginning and for each transaction in `q`. -/
theorem Consistent.countP_le_mul (hC : Consistent E db₀ S) (μ : Option (Row k) → ℕ) {B : ℕ}
    (hB : ∀ r, μ r ≤ B) {p q : Commit Db Key Row Stmt → Bool}
    (hmono : ∀ c ∈ S.history, q c = false →
      ∀ old new s, (⟨k, old, new, s⟩ : Write Key Row Stmt) ∈ c.writes → μ old ≤ μ new)
    (hstep : ∀ (n : ℕ) c, S.history[n]? = some c → p c = true → q c = false ∧
      μ (E.look c.moment.db k) < μ (E.look (E.apply c.moment.db c.writes) k)) :
    S.history.countP p ≤ B * (1 + S.history.countP q) := by
  -- by induction on the number of commits: what was spent is in the account or was cleared
  have upto : ∀ n ≤ S.history.length, (S.history.take n).countP p ≤
      μ (E.look (stateAt E db₀ S.history n) k) + B * (S.history.take n).countP q := by
    intro n
    induction n with
    | zero => simp
    | succ n ih =>
      intro hn
      have hlt : n < S.history.length := hn
      have hc : S.history[n]? = some S.history[n] := List.getElem?_eq_getElem hlt
      have hbefore := stateAt_eq_of_commit hC hc
      have hspent := ih hlt.le
      rw [hbefore] at hspent
      rw [List.take_add_one, hc, List.countP_append, List.countP_append, stateAt_succ db₀ hc,
        hbefore, Nat.mul_add]
      simp only [Option.toList_some, List.countP_singleton]
      rcases hq : q S.history[n] with - | -
      · have hle : μ (E.look S.history[n].moment.db k) ≤
            μ (E.look (E.apply S.history[n].moment.db S.history[n].writes) k) :=
          keeps_of_commit hC hc (P := fun r ↦ μ (E.look S.history[n].moment.db k) ≤ μ r) le_rfl
            fun old new s hw hold ↦ hold.trans (hmono _ (List.getElem_mem hlt) hq old new s hw)
        rcases hp : p S.history[n] with - | -
        · simp only [Bool.false_eq_true, if_false]
          omega
        · have hinc := (hstep n _ hc hp).2
          simp only [if_true, Bool.false_eq_true, if_false]
          omega
      · have hnot : p S.history[n] = false := by
          by_contra hp
          rw [(hstep n _ hc (by simpa using hp)).1] at hq
          cases hq
        have hbound := hB (E.look S.history[n].moment.db k)
        simp only [hnot, Bool.false_eq_true, if_false, if_true]
        omega
  have hall := upto S.history.length le_rfl
  rw [List.take_length] at hall
  have hbound := hB (E.look (stateAt E db₀ S.history S.history.length) k)
  rw [Nat.mul_add, Nat.mul_one]
  omega

end Txn.System

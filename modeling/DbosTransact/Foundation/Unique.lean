import DbosTransact.Foundation.System

/-!
# Unique indexes

Rows that occupy a slot (the value of an indexed column, say) and a server that lets no two rows
occupy the same one.

A transaction does not see the rows the others have written and not yet committed, so a check of
the state it sees is not enough: a statement that puts a row into a slot has to wait while another
transaction is about to put one there. `Enforces` asks this of every statement, and only this, and
`indexed_of_run` concludes that in no reachable state two rows occupy the same slot, whatever
programs are run. The invariant behind it is about the open transactions: none of them would leave
two rows in one slot if it committed now, and no two of them have put rows into the same one
(`System.Indexed`).
-/

namespace Txn

section

variable {Db Key : Type} {Row : Key → Type} {Stmt : Type}

/-- Of the writes to a row the last one decides what is found there, whatever they started from. -/
theorem Store.exists_last_write (S : Store Db Key Row) {ws : List (Write Key Row Stmt)} {k : Key}
    (h : ∃ w ∈ ws, w.key = k) :
    ∃ w ∈ ws, w.key = k ∧ ∀ db, S.look (S.apply db ws) w.key = w.new := by
  induction ws with
  | nil =>
    obtain ⟨w, hw, -⟩ := h
    cases hw
  | cons v ws ih =>
    by_cases hlater : ∃ w ∈ ws, w.key = k
    · obtain ⟨w, hw, hk, hlook⟩ := ih hlater
      exact ⟨w, List.mem_cons_of_mem _ hw, hk, fun db ↦ by rw [S.apply_cons, hlook]⟩
    · obtain ⟨w, hw, rfl⟩ := h
      obtain rfl : w = v := (List.mem_cons.1 hw).resolve_right fun hw ↦ hlater ⟨w, hw, rfl⟩
      refine ⟨w, List.mem_cons_self, rfl, fun db ↦ ?_⟩
      rw [S.apply_cons, S.look_apply_of_forall_ne fun o ho heq ↦ hlater ⟨o, ho, heq⟩,
        S.look_put_self]

variable {Res : Stmt → Type} {Err Plan Ask : Type} {Ans : Ask → Type} {ρ σ : Type}
variable (E : Engine Db Key Row Stmt Res Err Plan) (slot : (k : Key) → Row k → Option σ)

/-- The row under `k` occupies the slot `x`. -/
def Occupies (db : Db) (k : Key) (x : σ) : Prop := ∃ r, E.look db k = some r ∧ slot k r = some x

/-- No two rows occupy the same slot. -/
def UniqueIn (db : Db) : Prop :=
  ∀ k k' x, Occupies E slot db k x → Occupies E slot db k' x → k = k'

/-- The write leaves a row in the slot `x`. -/
def Write.Takes (w : Write Key Row Stmt) (x : σ) : Prop :=
  ∃ r, w.new = some r ∧ slot w.key r = some x

/-- Every statement respects the index: a row that it brings into a slot is the only one there, and
no other transaction has left a row in that slot. -/
def Enforces : Prop :=
  ∀ {plan iso st base cur others} {r : Except Err (Res st)} {ws : List (Write Key Row Stmt)},
    E.eval plan iso st base cur others = some (r, ws) →
    ∀ k x, Occupies E slot (E.apply cur ws) k x → Occupies E slot cur k x ∨
      (∀ k', Occupies E slot (E.apply cur ws) k' x → k' = k) ∧ ∀ o ∈ others, ¬ o.Takes slot x

variable {E slot} {db db' : Db} {ws : List (Write Key Row Stmt)} {k : Key} {x : σ}

theorem occupies_apply_of_forall_ne (h : ∀ w ∈ ws, w.key ≠ k) :
    Occupies E slot (E.apply db ws) k x ↔ Occupies E slot db k x := by
  rw [Occupies, E.look_apply_of_forall_ne h, Occupies]

/-- A row that is written occupies the slot that its last write has put it into. -/
theorem takes_of_occupies (h : ∃ w ∈ ws, w.key = k) (hx : Occupies E slot (E.apply db ws) k x) :
    ∃ w ∈ ws, w.key = k ∧ w.Takes slot x := by
  obtain ⟨w, hw, rfl, hlook⟩ := E.exists_last_write h
  obtain ⟨r, hr, hslot⟩ := hx
  rw [hlook db] at hr
  exact ⟨w, hw, rfl, r, hr, hslot⟩

theorem occupies_apply_congr (h : ∃ w ∈ ws, w.key = k) (hx : Occupies E slot (E.apply db ws) k x)
    (db' : Db) : Occupies E slot (E.apply db' ws) k x := by
  obtain ⟨w, hw, rfl, hlook⟩ := E.exists_last_write h
  obtain ⟨r, hr, hslot⟩ := hx
  rw [hlook db] at hr
  exact ⟨r, (hlook db').trans hr, hslot⟩

/-- A slot is occupied after some writes by one of the rows written, or was so before. -/
theorem written_or_occupies (hx : Occupies E slot (E.apply db ws) k x) :
    (∃ w ∈ ws, w.key = k) ∨ (∀ w ∈ ws, w.key ≠ k) ∧ Occupies E slot db k x := by
  by_cases h : ∃ w ∈ ws, w.key = k
  · exact Or.inl h
  · have hne : ∀ w ∈ ws, w.key ≠ k := fun w hw heq ↦ h ⟨w, hw, heq⟩
    exact Or.inr ⟨hne, (occupies_apply_of_forall_ne hne).1 hx⟩

namespace System

variable {valid : Moment Db → (q : Ask) → Ans q → Bool}
variable {S S' : System Db Key Row Stmt Res Err Ask Ans ρ} {a : Option (Answer Db Ask Ans)}

/-- The open transactions respect the index, each on its own and next to each other. -/
structure Indexed (E : Engine Db Key Row Stmt Res Err Plan) (slot : (k : Key) → Row k → Option σ)
    (S : System Db Key Row Stmt Res Err Ask Ans ρ) : Prop where
  committed : UniqueIn E slot S.moment.db
  view : ∀ {i s}, S.sessions.lookup i = some s →
    UniqueIn E slot (E.apply S.moment.db s.conn.writes)
  apart : ∀ {i j s t}, i ≠ j → S.sessions.lookup i = some s → S.sessions.lookup j = some t →
    ∀ w ∈ s.conn.writes, ∀ o ∈ t.conn.writes, ∀ x,
      Occupies E slot (E.apply S.moment.db s.conn.writes) w.key x →
        ¬ Occupies E slot (E.apply S.moment.db t.conn.writes) o.key x

/-- The same of session `i` with the writes `ws` in place of its own. -/
structure Fits (E : Engine Db Key Row Stmt Res Err Plan) (slot : (k : Key) → Row k → Option σ)
    (S : System Db Key Row Stmt Res Err Ask Ans ρ) (i : ℕ)
    (ws : List (Write Key Row Stmt)) : Prop where
  view : UniqueIn E slot (E.apply S.moment.db ws)
  apart : ∀ {j t}, j ≠ i → S.sessions.lookup j = some t → ∀ w ∈ ws, ∀ o ∈ t.conn.writes, ∀ x,
    Occupies E slot (E.apply S.moment.db ws) w.key x →
      ¬ Occupies E slot (E.apply S.moment.db t.conn.writes) o.key x

theorem Indexed.fits (hI : Indexed E slot S) {i : ℕ}
    {s : Session Db Key Row Stmt Res Err Ask Ans ρ} (hs : S.sessions.lookup i = some s) :
    Fits E slot S i s.conn.writes :=
  ⟨hI.view hs, fun hj ht ↦ hI.apart hj.symm hs ht⟩

/-- The writes of a statement fit if those before it did. -/
theorem Indexed.fits_append (hE : Enforces E slot) (hI : Indexed E slot S) {i : ℕ}
    {s : Session Db Key Row Stmt Res Err Ask Ans ρ} (hs : S.sessions.lookup i = some s)
    {ws : List (Write Key Row Stmt)}
    (hws : Session.Writable E (S.others i) (E.apply S.moment.db s.conn.writes) ws) :
    Fits E slot S i (s.conn.writes ++ ws) := by
  rcases hws.evaluated with rfl | ⟨plan, iso, st, base, r, heval⟩
  · rw [List.append_nil]
    exact hI.fits hs
  have hbefore := hI.view hs
  refine ⟨?_, fun {j t} hj ht w hw o ho x hx hx' ↦ ?_⟩
  · rw [E.apply_append]
    intro k k' x hk hk'
    rcases hE heval k x hk with hk₀ | ⟨halone, -⟩
    · rcases hE heval k' x hk' with hk₀' | ⟨halone, -⟩
      · exact hbefore k k' x hk₀ hk₀'
      · exact halone k hk
    · exact (halone k' hk').symm
  · rw [E.apply_append] at hx
    rcases hE heval w.key x hx with hx | ⟨-, hfree⟩
    · rcases written_or_occupies hx with ⟨v, hv, hk⟩ | ⟨hne, hdb⟩
      · exact hI.apart hj.symm hs ht v hv o ho x (hk ▸ hx) hx'
      · -- the row is still the committed one, which the other transaction has not touched
        have hnew : w ∈ ws := (List.mem_append.1 hw).resolve_left fun hw ↦ hne w hw rfl
        have hother := fun v hv ↦ (hws.free w hnew v (mem_others.2 ⟨j, t, hj, ht, hv⟩)).symm
        exact hother o ho
          (hI.view ht _ _ x hx' ((occupies_apply_of_forall_ne hother).2 hdb))
    · obtain ⟨v, hv, -, htakes⟩ := takes_of_occupies ⟨o, ho, rfl⟩ hx'
      exact hfree v (mem_others.2 ⟨j, t, hj, ht, hv⟩) htakes

/-- Replacing a session by one whose writes fit, without a commit. -/
theorem Indexed.insert (hI : Indexed E slot S) {i : ℕ}
    {s' : Session Db Key Row Stmt Res Err Ask Ans ρ} (hs' : Fits E slot S i s'.conn.writes) :
    Indexed E slot (S.update E i s' none a) := by
  refine ⟨hI.committed, fun {j t} ht ↦ ?_, fun {j k t u} hjk ht hu ↦ ?_⟩
  · rw [sessions_update] at ht
    by_cases hj : j = i
    · subst hj
      rw [AList.lookup_insert] at ht
      cases ht
      exact hs'.view
    · rw [AList.lookup_insert_ne hj] at ht
      exact hI.view ht
  · rw [sessions_update] at ht hu
    by_cases hj : j = i
    · subst hj
      rw [AList.lookup_insert] at ht
      cases ht
      rw [AList.lookup_insert_ne hjk.symm] at hu
      exact hs'.apart hjk.symm hu
    · rw [AList.lookup_insert_ne hj] at ht
      by_cases hk : k = i
      · subst hk
        rw [AList.lookup_insert] at hu
        cases hu
        exact fun w hw o ho x hx hx' ↦ hs'.apart hj ht o ho w hw x hx' hx
      · rw [AList.lookup_insert_ne hk] at hu
        exact hI.apart hjk ht hu

theorem Indexed.fits_nil (hI : Indexed E slot S) (i : ℕ) : Fits E slot S i [] :=
  ⟨hI.committed, fun _ _ w hw ↦ by cases hw⟩

/-- Committing writes that fit. -/
theorem Indexed.insert_committed (hL : Locked E S) (hI : Indexed E slot S) {i : ℕ}
    {s s' : Session Db Key Row Stmt Res Err Ask Ans ρ} (hs : S.sessions.lookup i = some s)
    {ws : List (Write Key Row Stmt)} (hfree : ∀ w ∈ ws, ∀ o ∈ S.others i, w.key ≠ o.key)
    (hfits : Fits E slot S i (s.conn.writes ++ ws)) (hs' : s'.conn.writes = [])
    (snap : Option (Moment Db)) :
    Indexed E slot (S.update E i s' (some (snap, s.conn.writes ++ ws)) a) := by
  -- the rows written are none of those another transaction has written
  have hdisjoint : ∀ {j t}, j ≠ i → S.sessions.lookup j = some t →
      ∀ w ∈ s.conn.writes ++ ws, ∀ o ∈ t.conn.writes, w.key ≠ o.key := by
    intro j t hj ht w hw o ho
    rcases List.mem_append.1 hw with hw | hw
    · exact hL.disjoint hj.symm hs ht w hw o ho
    · exact hfree w hw o (mem_others.2 ⟨j, t, hj, ht, ho⟩)
  have hmoment : (S.update E i s' (some (snap, s.conn.writes ++ ws)) a).moment.db =
      E.apply S.moment.db (s.conn.writes ++ ws) := by
    rw [moment_update, Moment.advance_some]
    rfl
  -- a row another transaction has written next to one it has not
  have hmixed : ∀ {j t}, j ≠ i → S.sessions.lookup j = some t → ∀ o ∈ t.conn.writes, ∀ k x,
      Occupies E slot (E.apply (E.apply S.moment.db (s.conn.writes ++ ws)) t.conn.writes) o.key x →
      (∀ o ∈ t.conn.writes, o.key ≠ k) →
      Occupies E slot (E.apply S.moment.db (s.conn.writes ++ ws)) k x → o.key = k := by
    intro j t hj ht o ho k x hx hne hk
    have hx := occupies_apply_congr ⟨o, ho, rfl⟩ hx S.moment.db
    rcases written_or_occupies hk with ⟨w, hw, rfl⟩ | ⟨-, hk⟩
    · exact (hfits.apart hj ht w hw o ho x hk hx).elim
    · exact hI.view ht _ _ x hx ((occupies_apply_of_forall_ne hne).2 hk)
  refine ⟨by rw [hmoment]; exact hfits.view, fun {j t} ht ↦ ?_, fun {j k t u} hjk ht hu ↦ ?_⟩
  · rw [hmoment]
    rw [sessions_update] at ht
    by_cases hj : j = i
    · subst hj
      rw [AList.lookup_insert] at ht
      cases ht
      rw [hs']
      exact hfits.view
    · rw [AList.lookup_insert_ne hj] at ht
      intro k k' x hk hk'
      rcases written_or_occupies hk with ⟨o, ho, rfl⟩ | ⟨hne, hk₀⟩
      · rcases written_or_occupies hk' with ⟨o', ho', rfl⟩ | ⟨hne', hk₀'⟩
        · exact hI.view ht _ _ x (occupies_apply_congr ⟨o, ho, rfl⟩ hk _)
            (occupies_apply_congr ⟨o', ho', rfl⟩ hk' _)
        · exact hmixed hj ht o ho k' x hk hne' hk₀'
      · rcases written_or_occupies hk' with ⟨o', ho', rfl⟩ | ⟨-, hk₀'⟩
        · exact (hmixed hj ht o' ho' k x hk' hne hk₀).symm
        · exact hfits.view _ _ x hk₀ hk₀'
  · rw [hmoment]
    rw [sessions_update] at ht hu
    intro w hw o ho x hx hx'
    by_cases hj : j = i
    · subst hj
      rw [AList.lookup_insert] at ht
      cases ht
      rw [hs'] at hw
      cases hw
    · rw [AList.lookup_insert_ne hj] at ht
      by_cases hk : k = i
      · subst hk
        rw [AList.lookup_insert] at hu
        cases hu
        rw [hs'] at ho
        cases ho
      · rw [AList.lookup_insert_ne hk] at hu
        exact hI.apart hjk ht hu w hw o ho x (occupies_apply_congr ⟨w, hw, rfl⟩ hx _)
          (occupies_apply_congr ⟨o, ho, rfl⟩ hx' _)

theorem Indexed.step (hE : Enforces E slot) (hL : Locked E S) (hI : Indexed E slot S)
    {l : Label Stmt Res Err Plan Ask Ans ρ} (h : S.step E valid l = some S') :
    Indexed E slot S' := by
  cases steps_of_step h with
  | tick d => exact ⟨hI.committed, hI.view, hI.apart⟩
  | crash i =>
    have herase :
        ∀ {j t}, (S.sessions.erase i).lookup j = some t → S.sessions.lookup j = some t := by
      intro j t ht
      by_cases hj : j = i
      · subst hj
        rw [AList.lookup_erase] at ht
        cases ht
      · rwa [AList.lookup_erase_ne hj] at ht
    exact ⟨hI.committed, fun ht ↦ hI.view (herase ht),
      fun hjk ht hu ↦ hI.apart hjk (herase ht) (herase hu)⟩
  | spawn hnone hnew hunasked => exact hI.insert (hI.fits_nil _)
  | session hl _ hs _ hstep =>
    cases hstep.moves with
    | extend ws hws hs' => exact hI.insert (hs' ▸ hI.fits_append hE hs hws)
    | release hs' => exact hI.insert (hs' ▸ hI.fits_nil _)
    | commit snap ws all hall hws hs' hsnap =>
      subst hall
      exact hI.insert_committed hL hs hws.free (hI.fits_append hE hs hws) hs' snap

/-- **Unique indexes.** In no reachable state two rows occupy the same slot. -/
theorem indexed_of_run (hE : Enforces E slot) {db : Db} {time : ℤ} (hdb : UniqueIn E slot db)
    {ok : System Db Key Row Stmt Res Err Ask Ans ρ → Label Stmt Res Err Plan Ask Ans ρ → Prop}
    (h : Run (step E valid) ok (init db time) S) : Indexed E slot S := by
  have hboth : Locked E S ∧ Indexed E slot S := by
    refine h.invariant (P := fun S ↦ Locked E S ∧ Indexed E slot S) ⟨locked_init db time, ?_⟩
      fun S l S' ⟨hL, hI⟩ _ hs ↦ ⟨hL.step hs, hI.step hE hL hs⟩
    exact ⟨hdb, fun h ↦ by simp [init] at h, fun _ h ↦ by simp [init] at h⟩
  exact hboth.2

/-- Nor in any state on the way to a reachable one. -/
theorem uniqueIn_stateAt (hE : Enforces E slot) {db : Db} {time : ℤ} (hdb : UniqueIn E slot db)
    {ok : System Db Key Row Stmt Res Err Ask Ans ρ → Label Stmt Res Err Plan Ask Ans ρ → Prop}
    (h : Run (step E valid) ok (init db time) S) {n : ℕ} (hn : n ≤ S.history.length) :
    UniqueIn E slot (stateAt E db S.history n) := by
  obtain ⟨S₁, h₁, hhist, -⟩ := exists_state_at h hn
  have hdb₁ : S₁.moment.db = stateAt E db S.history n := by
    rw [(consistent_of_run h₁).now.2, hhist, stateAt]
  rw [← hdb₁]
  exact (indexed_of_run hE hdb h₁).committed

end System

end

end Txn

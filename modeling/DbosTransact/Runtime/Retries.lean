import Mathlib.Data.ENat.Lattice
import DbosTransact.Runtime.Replay
import DbosTransact.Runtime.StoredErrors

/-!
# The retries of a step

`run_step_with` runs its closure until it succeeds, but not more than `max_retries + 1` times: the
first run stands before the loop of `execute_step_with_retry`, and each turn of the loop is one
more. `retried` says what a step comes to, read off the outcomes that all the runs of its closure
would have. `step_retried` says that the session that makes the call runs the closure just often
enough to learn that much (`firstOk`), returns it, and leaves it as the one row of the step, while
the database serves it and no other session records the step.

A later call finds that row and runs no closure. What it returns is the outcome if that is a value;
an error comes back as its text, without the code (`Runtime.StoredErrors`), and the error that
says that the retries are exhausted has a code.
-/

namespace Dbos

open Txn

/-! ### What the runs of a closure come to -/

section

variable {R : Type}

/-- How many runs of a closure it takes to the first success: infinitely many if there is none. -/
noncomputable def firstOk (outcome : ℕ → Except DbosError R) : ℕ∞ :=
  ⨅ (j : ℕ) (_ : (outcome j).isOk = true), ((j + 1 : ℕ) : ℕ∞)

/-- The text of an outcome that is an error. -/
def errorText : Except DbosError R → String
  | .ok _ => ""
  | .error e => e.display

/-- What a step with `n` retries comes to, given the outcomes of the runs of its closure. -/
def retried (workflowId stepName : String) (n : ℕ) (outcome : ℕ → Except DbosError R) :
    Except DbosError R :=
  match (List.range (n + 1)).find? fun j ↦ (outcome j).isOk with
  | some j => outcome j
  | none =>
    if n = 0 then outcome 0
    else .error (.maxStepRetriesExceeded workflowId stepName n
      ("\n".intercalate ((List.range (n + 1)).map fun j ↦ errorText (outcome j))))

/-- The outcomes `outs` are those of all the runs of a step with `n` retries, which returns `res`.
-/
inductive Retried (w name : String) (n : ℕ) :
    List (Except DbosError R) → Except DbosError R → Prop
  | ok (es : List DbosError) (v : R) : es.length ≤ n →
      Retried w name n (es.map .error ++ [.ok v]) (.ok v)
  | single (e : DbosError) : n = 0 → Retried w name n [.error e] (.error e)
  | exceeded (es : List DbosError) : n ≠ 0 → es.length = n + 1 →
      Retried w name n (es.map .error) (.error (.maxStepRetriesExceeded w name n
        ("\n".intercalate (es.map DbosError.display))))

variable {w name : String} {n : ℕ} {outcome : ℕ → Except DbosError R}

theorem firstOk_eq {j : ℕ} (hj : (outcome j).isOk = true)
    (hfirst : ∀ i < j, (outcome i).isOk = false) : firstOk outcome = (j + 1 : ℕ) := by
  refine le_antisymm (iInf₂_le j hj) (le_iInf₂ fun i hi ↦ ?_)
  have hle : j ≤ i := by
    by_contra hlt
    rw [hfirst i (by omega)] at hi
    cases hi
  exact_mod_cast Nat.succ_le_succ hle

theorem lt_firstOk (h : ∀ j ≤ n, (outcome j).isOk = false) :
    ((n + 1 : ℕ) : ℕ∞) ≤ firstOk outcome := by
  refine le_iInf₂ fun i hi ↦ ?_
  have hlt : n < i := by
    by_contra hle
    rw [h i (by omega)] at hi
    cases hi
  exact_mod_cast (Nat.succ_lt_succ hlt).le

theorem retried_of_ok {j : ℕ} (hj : (outcome j).isOk = true) (hle : j ≤ n)
    (hfirst : ∀ i < j, (outcome i).isOk = false) : retried w name n outcome = outcome j := by
  have hfind : (List.range (n + 1)).find? (fun j ↦ (outcome j).isOk) = some j := by
    rw [List.find?_range_eq_some]
    exact ⟨hj, List.mem_range.2 (by omega), fun i hi ↦ by simp [hfirst i hi]⟩
  rw [retried, hfind]

theorem retried_of_errors (h : ∀ j ≤ n, (outcome j).isOk = false) :
    retried w name n outcome = if n = 0 then outcome 0
      else .error (.maxStepRetriesExceeded w name n
        ("\n".intercalate ((List.range (n + 1)).map fun j ↦ errorText (outcome j)))) := by
  have hfind : (List.range (n + 1)).find? (fun j ↦ (outcome j).isOk) = none := by
    rw [List.find?_range_eq_none]
    exact fun j hj ↦ by simp [h j (by omega)]
  rw [retried, hfind]

theorem Retried.mem_of_ok {outs : List (Except DbosError R)} {v : R}
    (h : Retried w name n outs (.ok v)) : .ok v ∈ outs := by
  cases h with
  | ok es v hes => simp

/-- The runs that were made decide what the step comes to, whatever the outcomes of further runs
would be. -/
theorem Retried.eq {outs : List (Except DbosError R)} {res : Except DbosError R}
    (h : Retried w name n outs res) (houtcome : ∀ j x, outs[j]? = some x → outcome j = x) :
    (outs.length : ℕ∞) = min (firstOk outcome) (n + 1 : ℕ) ∧ res = retried w name n outcome := by
  cases h with
  | ok es v hes =>
    have hfirst : ∀ i < es.length, (outcome i).isOk = false := by
      intro i hi
      have herror : outcome i = .error es[i] :=
        houtcome i _ (by rw [List.getElem?_append_left (by simpa using hi)]; simp [hi])
      rw [herror]
      rfl
    have hlast : outcome es.length = .ok v := houtcome es.length (.ok v) (by simp)
    have hok : (outcome es.length).isOk = true := by rw [hlast]; rfl
    refine ⟨?_, by rw [retried_of_ok hok hes hfirst, hlast]⟩
    rw [firstOk_eq hok hfirst, min_eq_left (by exact_mod_cast Nat.succ_le_succ hes)]
    simp
  | single e hn =>
    subst hn
    have hzero : outcome 0 = .error e := houtcome 0 _ rfl
    have hall : ∀ j ≤ 0, (outcome j).isOk = false := by
      rintro j hj
      rw [Nat.le_zero.1 hj, hzero]
      rfl
    exact ⟨by rw [min_eq_right (lt_firstOk hall)]; rfl,
      by rw [retried_of_errors hall, if_pos rfl, hzero]⟩
  | exceeded es hn hes =>
    have herror : ∀ j, ∀ hj : j < es.length, outcome j = .error es[j] := fun j hj ↦
      houtcome j _ (by simp [hj])
    have hall : ∀ j ≤ n, (outcome j).isOk = false := by
      intro j hj
      rw [herror j (by omega)]
      rfl
    have htexts : (List.range (n + 1)).map (fun j ↦ errorText (outcome j)) =
        es.map DbosError.display := by
      refine List.ext_getElem (by simp [hes]) fun j hj _ ↦ ?_
      simp only [List.getElem_map, List.getElem_range]
      rw [herror j (by simpa [hes] using hj)]
      rfl
    exact ⟨by rw [min_eq_right (lt_firstOk hall), List.length_map, hes],
      by rw [retried_of_errors hall, if_neg hn, htexts]⟩

end

/-! ### One call -/

/-- A call may look its steps up: the workflow is there and not cancelled. -/
def Db.Callable (db : Db) (w : String) : Prop := statusGuard w (db.statusOf w) = .ok ()

theorem Db.Callable.isSome {db : Db} {w : String} (h : db.Callable w) :
    (db.workflow w).isSome = true := by
  rw [Db.Callable, Db.statusOf] at h
  cases hrow : db.workflow w with
  | none =>
    rw [hrow] at h
    cases h
  | some r => rfl

section

/-- A session whose requests succeed, and whose step nobody else records. `A` is what it asks. -/
def stepSpec (valid : DbMoment → (q : Ask) → q.Ans → Bool) (w : String) (k : ℕ) (A : Ask → Prop) :
    DbSpec where
  rely m m' := m.Before m' ∧ (m.db.Callable w → m'.db.Callable w) ∧
    m'.db.operation w k = m.db.operation w k
  rely_refl m := ⟨.refl m, id, rfl⟩
  rely_trans h₁ h₂ := ⟨h₁.1.trans h₂.1, fun h ↦ h₂.2.1 (h₁.2.1 h), h₂.2.2.trans h₁.2.2⟩
  valid := valid
  guar _ _ := True
  may _ a := A a.ask
  faulty := False

variable {valid : DbMoment → (q : Ask) → q.Ans → Bool} {w name : String} {k : ℕ} {A : Ask → Prop}
variable {m : DbMoment} {τ : DbTrace}

theorem ignoresReads_stepSpec : IgnoresReads (stepSpec valid w k A) :=
  ⟨fun m ↦ ⟨m.before_after server [], id, rfl⟩, fun _ _ _ ↦ trivial⟩

/-- The lookup of the step succeeds. -/
theorem wpM_lookup_step (hlive : m.db.Callable w) {found : Option RecordedOperation}
    (hfound : recordedAt w k name (m.db.operation w k) = .ok found) :
    wpM (stepSpec valid w k A) (checkOperationExecution w k name)
      (fun recorded c m' τ' ↦ recorded = found ∧ c = .idle ∧ (stepSpec valid w k A).rely m m' ∧
        τ'.answers = τ.answers)
      (fun _ _ _ _ ↦ False) .idle m τ := by
  rw [checkOperationExecution_eq]
  refine wpM_read_answers ignoresReads_stepSpec (g := fun db ↦ db.statusOf w) (fun _ ↦ rfl)
    (fun _ _ _ hf _ ↦ hf.elim) fun b m₁ τ₁ hb hm₁ hτ₁ ↦ ?_
  have hguard : statusGuard w (b.db.statusOf w) = .ok () := hb.2.1 hlive
  rw [hguard]
  have hm₀₁ := (stepSpec valid w k A).rely_trans hb hm₁
  refine wpM_bind (wpM_ofExcept (fun _ m₂ _ hm₂ ↦ ?_) fun e _ he _ ↦ by cases he)
  refine wpM_read_answers ignoresReads_stepSpec (g := fun db ↦ db.operation w k) (fun _ ↦ rfl)
    (fun _ _ _ hf _ ↦ hf.elim) fun b' m₃ τ₃ hb' hm₃ hτ₃ ↦ ?_
  have hm₀b' := (stepSpec valid w k A).rely_trans hm₀₁
    ((stepSpec valid w k A).rely_trans hm₂ hb')
  rw [hm₀b'.2.2, hfound]
  refine wpM_ofExcept (fun recorded m₄ hok hm₄ ↦ ?_) fun e _ he _ ↦ by cases he
  cases hok
  exact ⟨rfl, rfl, (stepSpec valid w k A).rely_trans hm₀b'
    ((stepSpec valid w k A).rely_trans hm₃ hm₄), hτ₃.trans hτ₁⟩

variable {R : Type} {closure : ℕ → Except DbosError R}

/-- The outcomes of the runs of the closure among the answers of a session. -/
def outcomes (closure : ℕ → Except DbosError R) (answers : List DbAnswer) :
    List (Except DbosError R) :=
  answers.filterMap fun a ↦
    match a with
    | ⟨_, .runClosure _ _, stamp⟩ => some (closure stamp)
    | _ => none

theorem exists_of_mem_outcomes {answers : List DbAnswer} {x : Except DbosError R}
    (hx : x ∈ outcomes closure answers) : ∃ stamp, x = closure stamp := by
  obtain ⟨⟨m, q, ans⟩, -, hx⟩ := List.mem_filterMap.1 hx
  cases q with
  | runClosure w k => exact ⟨ans, (Option.some.inj hx).symm⟩
  | _ => cases hx

theorem outcomes_note_runClosure (closure : ℕ → Except DbosError R) (m : DbMoment) (stamp : ℕ) :
    outcomes closure (τ.note ⟨m, .runClosure w k, stamp⟩).answers =
      outcomes closure τ.answers ++ [closure stamp] := by
  simp [outcomes]

theorem outcomes_note_now (m : DbMoment) (now : ℤ) :
    outcomes closure (τ.note ⟨m, .now, now⟩).answers = outcomes closure τ.answers := by
  simp [outcomes]

/-- One run of the closure. -/
theorem wpM_runClosure {Γ : DbSpec} {Q : DbPost (Except DbosError R)} {X : DbPost DbosError}
    {c : DbConn}
    (h : ∀ m' stamp, Γ.rely m m' → Γ.may τ ⟨m', .runClosure w k, stamp⟩ ∧
      ∀ m'', Γ.rely m' m'' → Q (closure stamp) c m'' (τ.note ⟨m', .runClosure w k, stamp⟩)) :
    wpM Γ (runClosure w k closure) Q X c m τ := by
  rw [runClosure, ← bind_pure_comp]
  exact wpM_ask fun m' hm' stamp _ ↦ ⟨(h m' stamp hm').1, wpM_pure (h m' stamp hm').2⟩

/-- The turns of the loop, by induction on how many are left: each runs the closure once more, and
the errors so far are carried along. -/
theorem wpM_retryStep {n : ℕ} (hA : A (.runClosure w k)) (left : ℕ) (errors : List String) :
    wpM (stepSpec valid w k A) (retryStep (runClosure w k closure) name w n left errors)
      (fun res c m' τ' ↦ c = .idle ∧ (stepSpec valid w k A).rely m m' ∧ ∃ es : List DbosError,
        (∃ v, es.length < left ∧ res = .ok v ∧ outcomes closure τ'.answers =
          outcomes closure τ.answers ++ (es.map .error ++ [.ok v])) ∨
        (es.length = left ∧ outcomes closure τ'.answers =
            outcomes closure τ.answers ++ es.map .error ∧
          res = .error (.maxStepRetriesExceeded w name n
            ("\n".intercalate (errors ++ es.map DbosError.display)))))
      (fun _ _ _ _ ↦ False) .idle m τ := by
  induction left generalizing errors m τ with
  | zero =>
    exact wpM_pure fun m' hm' ↦ ⟨rfl, hm', [], Or.inr ⟨rfl, by simp, by simp⟩⟩
  | succ left ih =>
    refine wpM_bind (wpM_runClosure fun m₁ stamp hm₁ ↦ ⟨hA, fun m₂ hm₂ ↦ ?_⟩)
    have hm₀₂ := (stepSpec valid w k A).rely_trans hm₁ hm₂
    cases hrun : closure stamp with
    | ok v =>
      exact wpM_pure fun m' hm' ↦ ⟨rfl, (stepSpec valid w k A).rely_trans hm₀₂ hm', [],
        Or.inl ⟨v, Nat.succ_pos left, rfl, by rw [outcomes_note_runClosure, hrun]; rfl⟩⟩
    | error e =>
      refine wpM_mono (ih (errors ++ [e.display])) ?_ fun _ _ _ _ h ↦ h
      rintro res c m₃ τ₃ ⟨rfl, hm₃, es, hcase⟩
      rw [outcomes_note_runClosure, hrun] at hcase
      refine ⟨rfl, (stepSpec valid w k A).rely_trans hm₀₂ hm₃, e :: es, ?_⟩
      rcases hcase with ⟨v, hlen, rfl, houts⟩ | ⟨hlen, houts, rfl⟩
      · exact Or.inl ⟨v, Nat.succ_lt_succ hlen, rfl, by rw [houts]; simp⟩
      · exact Or.inr ⟨congrArg (· + 1) hlen, by rw [houts]; simp, by simp⟩

/-- All the runs of a step. -/
theorem wpM_executeStepWithRetry (n : ℕ) (hA : A (.runClosure w k)) :
    wpM (stepSpec valid w k A) (executeStepWithRetry (runClosure w k closure) name w n)
      (fun res c m' τ' ↦ c = .idle ∧ (stepSpec valid w k A).rely m m' ∧ ∃ outs,
        outcomes closure τ'.answers = outcomes closure τ.answers ++ outs ∧
        Retried w name n outs res)
      (fun _ _ _ _ ↦ False) .idle m τ := by
  refine wpM_bind (wpM_runClosure fun m₁ stamp hm₁ ↦ ⟨hA, fun m₂ hm₂ ↦ ?_⟩)
  have hm₀₂ := (stepSpec valid w k A).rely_trans hm₁ hm₂
  have hnote := outcomes_note_runClosure (τ := τ) (w := w) (k := k) closure m₁ stamp
  cases hrun : closure stamp with
  | ok v =>
    rw [hrun] at hnote
    exact wpM_pure fun m' hm' ↦ ⟨rfl, (stepSpec valid w k A).rely_trans hm₀₂ hm', _, hnote,
      .ok [] v (Nat.zero_le n)⟩
  | error e =>
    rw [hrun] at hnote
    dsimp only
    split
    · exact wpM_pure fun m' hm' ↦ ⟨rfl, (stepSpec valid w k A).rely_trans hm₀₂ hm', _, hnote,
        .single e (by assumption)⟩
    · rename_i hn
      refine wpM_mono (wpM_retryStep hA n [e.display]) ?_ fun _ _ _ _ h ↦ h
      rintro res c m₃ τ₃ ⟨rfl, hm₃, es, hcase⟩
      rw [hnote] at hcase
      refine ⟨rfl, (stepSpec valid w k A).rely_trans hm₀₂ hm₃, ?_⟩
      -- the first run counts as one of the failures
      rcases hcase with ⟨v, hlen, rfl, houts⟩ | ⟨hlen, houts, rfl⟩
      · exact ⟨(e :: es).map .error ++ [.ok v], by rw [houts]; simp, .ok (e :: es) v hlen⟩
      · exact ⟨(e :: es).map .error, by rw [houts]; simp,
          .exceeded (e :: es) hn (congrArg (· + 1) hlen)⟩

variable [SerdeJson] [Serde R]

/-- The checkpoint of a step that nobody has recorded yet. -/
theorem wpM_recordStep_free (closure : ℕ → Except DbosError R) (hA : A .now)
    (hlive : m.db.Callable w) (hfree : m.db.operation w k = none) {res : Except DbosError R}
    {output error : Option String} (hcolumns : stepColumns res = .ok (output, error)) :
    wpM (stepSpec valid w k A) (recordStep w k name res)
      (fun _ c m' τ' ↦ c = .idle ∧ outcomes closure τ'.answers = outcomes closure τ.answers ∧
        ∃ now, m'.db.operation w k =
          some ⟨name, output, error, none, some now, some now, some Format.portable.name⟩)
      (fun _ _ _ _ ↦ False) .idle m τ := by
  rw [recordStep, hcolumns]
  refine wpM_bind (wpM_ofExcept (fun columns m₁ hok hm₁ ↦ ?_) fun e _ he _ ↦ by cases he)
  cases hok
  dsimp only
  rw [recordOperationResult]
  refine wpM_ask fun m₂ hm₂ now _ ↦ ⟨hA, ?_⟩
  have hm := (stepSpec valid w k A).rely_trans hm₁ hm₂
  refine wpM_execute_idle (fun b m₃ e hb hm₃ hwhy ↦ ?_) fun b m₃ v a ch hb hm₃ hv hrun ↦ ?_
  · -- the server has no reason to refuse the row
    exfalso
    have hm' := (stepSpec valid w k A).rely_trans hm ((stepSpec valid w k A).rely_trans hb hm₃)
    rcases hwhy with hf | ⟨v, hv, hfail⟩
    · exact hf
    · have hnone : (store.look v.cur (.operationOutputs w k)).isSome = false := by
        rw [hv.cur]
        exact Option.isSome_eq_false_iff.2 (Option.isNone_iff_eq_none.2 (hm'.2.2.trans hfree))
      have hworkflow : (v.cur.workflow w).isSome = true := by
        rw [hv.cur]
        exact (hm'.2.1 hlive).isSome
      simp only [Stmt.run, View.insert, hnone, hworkflow] at hfail
      split at hfail <;> cases hfail
  · obtain ⟨-, -, rfl⟩ := View.insert_done hrun
    refine ⟨trivial, wpM_pure fun m₄ hm₄ ↦ ⟨rfl, outcomes_note_now m₂ now, now, ?_⟩,
      fun hf ↦ hf.elim⟩
    have hlook := server.look_apply_of_mem m₃.db (by simp) (List.mem_singleton_self (recordWrite w k
      ⟨name, output, error, none, some now, some now, some Format.portable.name⟩))
    rw [hm₄.2.2]
    exact hlook

/-- What the columns of a step hold can be read back. -/
def SerdeRoundTrip (v : R) : Prop :=
  ∃ text, encodeValue v .portable = .ok text ∧
    decodeValue R (some text) (some Format.portable.name) = .ok v

/-- What a later call gets for the outcome of a step: of an error, the text. -/
def replayed (res : Except DbosError R) : Except DbosError R :=
  res.mapError fun e ↦ .other e.display

/-- The row that holds the outcome of a step. -/
def OperationRow.Holds (row : OperationRow) (name : String) (res : Except DbosError R) : Prop :=
  row.functionName = name ∧ row.childWorkflowId = none ∧
    row.serialization = some Format.portable.name ∧ stepColumns res = .ok (row.output, row.error)

/-- The outcome of a step can be stored, and what is stored is read as what a replay gives. -/
theorem exists_stepColumns {res : Except DbosError R} (hres : ∀ v, res = .ok v → SerdeRoundTrip v) :
    ∃ output error, stepColumns res = .ok (output, error) ∧
      decodeStep R ⟨output, error, some Format.portable.name⟩ = replayed res := by
  cases res with
  | ok v =>
    obtain ⟨text, hencode, hdecode⟩ := hres v rfl
    exact ⟨some text, none, by rw [stepColumns, hencode]; rfl, hdecode⟩
  | error e =>
    exact ⟨none, _, rfl, congrArg Except.error (decodedStepError_serialize e.display)⟩

/-- A step that nobody has recorded yet runs its closure and is recorded. -/
theorem wpM_runStepWith {n : ℕ} (ctx : WorkflowContext) (hctx : ctx.withinStep = false)
    (hw : ctx.state.workflowId = w) (hA : A .now ∧ A (.runClosure w k)) (hlive : m.db.Callable w)
    (hfree : m.db.operation w k = none)
    (hclosure : ∀ stamp v, closure stamp = .ok v → SerdeRoundTrip v)
    {Q : DbPost R} {X : DbPost DbosError}
    (h : ∀ res m' τ', (∃ outs, outcomes closure τ'.answers = outcomes closure τ.answers ++ outs ∧
        Retried w name n outs res) → (∃ row, m'.db.operation w k = some row ∧ row.Holds name res) →
      match res with
      | .ok v => Q v .idle m' τ'
      | .error e => X e .idle m' τ') :
    wpM (stepSpec valid w k A) (ctx.runStepWith k name n closure) Q X .idle m τ := by
  have hrun : ¬ ctx.withinStep = true := by simp [hctx]
  rw [WorkflowContext.runStepWith, if_neg hrun, WorkflowContext.durableStep, hw, replayStep,
    bind_assoc]
  refine wpM_bind (wpM_mono (wpM_lookup_step hlive (recordedAt_eq_none.2 hfree)) ?_
    fun _ _ _ _ hf ↦ hf.elim)
  rintro recorded c m₁ τ₁ ⟨rfl, rfl, hm₁, hτ₁⟩
  refine wpM_bind (wpM_pure fun m₂ hm₂ ↦ ?_)
  refine wpM_bind (wpM_mono (wpM_executeStepWithRetry n hA.2) ?_ fun _ _ _ _ hf ↦ hf.elim)
  rintro res c m₃ τ₃ ⟨rfl, hm₃, outs, houts, hretried⟩
  have hm := (stepSpec valid w k A).rely_trans hm₁ ((stepSpec valid w k A).rely_trans hm₂ hm₃)
  have hres : ∀ v, res = .ok v → SerdeRoundTrip v := by
    rintro v rfl
    have hmem : (.ok v : Except DbosError R) ∈ outcomes closure τ₃.answers := by
      rw [houts]
      exact List.mem_append_right _ hretried.mem_of_ok
    obtain ⟨stamp, hstamp⟩ := exists_of_mem_outcomes hmem
    exact hclosure stamp v hstamp.symm
  obtain ⟨output, error, hcolumns, -⟩ := exists_stepColumns hres
  refine wpM_bind (wpM_mono (wpM_recordStep_free closure hA.1 (hm.2.1 hlive)
    (hm.2.2.trans hfree) hcolumns)
    ?_ fun _ _ _ _ hf ↦ hf.elim)
  rintro - c m₄ τ₄ ⟨rfl, hτ₄, now, hrow⟩
  have hfinal : ∀ m₅, (stepSpec valid w k A).rely m₄ m₅ → _ := fun m₅ hm₅ ↦
    h res m₅ τ₄ ⟨outs, by rw [hτ₄, houts, hτ₁], hretried⟩
      ⟨_, hm₅.2.2.trans hrow, rfl, rfl, rfl, hcolumns⟩
  refine wpM_ofExcept (fun v m₅ hok hm₅ ↦ ?_) fun e m₅ herror hm₅ ↦ ?_
  · subst hok
    exact hfinal m₅ hm₅
  · subst herror
    exact hfinal m₅ hm₅

/-- A step that is recorded runs nothing. -/
theorem wpM_runStepWith_replay {n : ℕ} (ctx : WorkflowContext) (hctx : ctx.withinStep = false)
    (hw : ctx.state.workflowId = w) (hlive : m.db.Callable w) {row : OperationRow}
    (hrow : m.db.operation w k = some row) {res : Except DbosError R} (hholds : row.Holds name res)
    (hres : ∀ v, res = .ok v → SerdeRoundTrip v) :
    wpM (stepSpec valid w k A) (ctx.runStepWith k name n closure)
      (fun v _ _ _ ↦ replayed res = .ok v) (fun e _ _ _ ↦ replayed res = .error e) .idle m τ := by
  have hrun : ¬ ctx.withinStep = true := by simp [hctx]
  obtain ⟨hname, -, hser, hcolumns⟩ := hholds
  obtain ⟨output, error, hcolumns', hdecode⟩ := exists_stepColumns hres
  rw [WorkflowContext.runStepWith, if_neg hrun, WorkflowContext.durableStep, hw, replayStep,
    bind_assoc]
  refine wpM_bind (wpM_mono (wpM_lookup_step hlive
    (recordedAt_eq_some.2 ⟨row, hrow, hname, rfl⟩)) ?_ fun _ _ _ _ hf ↦ hf.elim)
  rintro recorded c m₁ τ₁ ⟨rfl, rfl, -, -⟩
  obtain ⟨rfl, rfl⟩ := Prod.mk.inj (Except.ok.inj (hcolumns'.symm.trans hcolumns))
  rw [decodeStep] at hdecode
  rw [hser]
  refine wpM_bind (wpM_mono (Q := fun r _ _ _ ↦ r = some (replayed res)) ?_ ?_
    fun _ _ _ _ h ↦ h)
  · cases herror : row.error with
    | some err =>
      rw [herror] at hdecode
      exact wpM_pure fun _ _ ↦ congrArg some hdecode
    | none =>
      rw [herror] at hdecode
      refine wpM_bind (wpM_ofExcept (fun v m₂ hv _ ↦ ?_) fun e m₂ he _ ↦ hdecode.symm.trans he)
      exact wpM_pure fun _ _ ↦ congrArg some (hv.symm.trans hdecode)
  · rintro r c m₂ τ₂ rfl
    exact wpM_ofExcept (fun v _ hv _ ↦ hv) fun e _ he _ ↦ he

end

/-! ### Runs -/

section

variable [SerdeJson] {V : Type} {valid : DbMoment → (q : Ask) → q.Ans → Bool}
variable {executor : ℕ → DbosInner} {ops : ℕ → Operation V} {db₀ : Db} {time : ℤ}
variable {S₀ S : RuntimeSystem V}

/-- The database serves session `i`, a call of step `k` of `w`: its requests do not fail, the
workflow is there and not cancelled, and no other session writes to the row of the step. -/
structure ServesStep (valid : DbMoment → (q : Ask) → q.Ans → Bool) (i : ℕ) (w : String) (k : ℕ)
    (S : RuntimeSystem V) (l : RuntimeLabel V) : Prop where
  fine : l.faults i = false
  callable : ∀ S' ∈ System.step server valid S l, S'.moment.db.Callable w
  untouched : l.concerns i = false → ∀ S' ∈ System.step server valid S l,
    S'.moment.db.operation w k = S.moment.db.operation w k

/-- What a session has returned that calls step `k` of `w`, by what it meets on its own from the
state it is started in: there the row of the step is as it was. -/
theorem post_of_servesStep {w : String} {k : ℕ} {A : Ask → Prop} {Q : DbPost (OperationResult V)}
    (h₀ : Run (System.step server valid) (fun _ l ↦ Carries executor ops l)
      (System.init db₀ time) S₀) {i : ℕ} (hnew : S₀.unused i = true)
    (hlive : S₀.moment.db.Callable w)
    (h : Run (System.step server valid)
      (fun S l ↦ Carries executor ops l ∧ ServesStep valid i w k S l) S₀ S)
    (hwp : ∀ m : DbMoment, m.db.Callable w →
      m.db.operation w k = S₀.moment.db.operation w k →
      wp server (stepSpec valid w k A) ((ops i).program (executor i)) Q .idle m {}) :
    (∀ r, Returned S i r → ∃ c, Q r c S.moment (S.traceOf i)) ∧
      ∀ a ∈ S.answers, a.1 = i → A a.2.ask := by
  have hunused : ∀ {S : RuntimeSystem V}, S.unused i = true → ∀ c ∈ S.history, c.session ≠ i := by
    intro S hS
    simp only [System.unused, Bool.and_eq_true, List.all_eq_true, bne_iff_ne] at hS
    exact hS.1.2
  -- as long as session `i` has committed nothing, the row of the step is as it was
  let P : RuntimeSystem V → Prop := fun S ↦ S.moment.db.Callable w ∧
    ((∀ c ∈ S.history, c.session ≠ i) → S.moment.db.operation w k = S₀.moment.db.operation w k)
  have hstep : ∀ S l S', P S → Carries executor ops l ∧ ServesStep valid i w k S l →
      System.step server valid S l = some S' → P S' := by
    intro S l S' hP hok hs
    refine ⟨hok.2.callable S' hs, fun hnone ↦ ?_⟩
    have hbefore : ∀ c ∈ S.history, c.session ≠ i := by
      rcases System.history_of_step hs with heq | ⟨c, heq⟩
      · rw [← heq]
        exact hnone
      · exact fun d hd ↦ hnone d (by rw [heq]; exact List.mem_append_left _ hd)
    cases hl : l.concerns i with
    | false => exact (hok.2.untouched hl S' hs).trans (hP.2 hbefore)
    | true =>
      rw [System.db_of_step_of_forall_ne hs hl hnone]
      exact hP.2 hbefore
  obtain ⟨-, -, Γ, Q', hΓ, hQ, hS, -⟩ := System.sound_session_beside (E := server)
    (stepSpec valid w k A) Q (i := i) (P := P) rfl
    (fun S l hok hl ↦ by
      rw [hok.2.fine] at hl
      cases hl)
    h₀ hnew ⟨hlive, fun _ ↦ rfl⟩
    (fun S p hP hok hfree ↦ by
      rw [hok.1 i p rfl]
      exact hwp S.moment hP.1 (hP.2 (hunused hfree)))
    hstep
    (fun S l S' _ hP' hok hs hl ↦ ⟨(System.steps_of_step hs).before, fun _ ↦ hP'.1,
      hok.2.untouched hl S' hs⟩) h
  refine ⟨?_, fun a ha hi ↦ ?_⟩
  · rintro r ⟨s, hs, hret⟩
    refine ⟨s.conn, ?_⟩
    have hpost := hS.returned hs hret
    rwa [hQ] at hpost
  · obtain ⟨τ, -, -, hmay⟩ := hS.may a ha
    rw [hi, hΓ] at hmay
    exact hmay

/-- The result of a session that calls a step. -/
def asReply (res : Except DbosError V) : Except DbosError (OperationValue V) :=
  res.map fun v ↦ .reply (.value v)

/-- **Retries.** Session `i` of a run calls a step with `n` retries that nobody has recorded yet,
and the database serves it. When it has returned, whatever sequence of outcomes the runs of its
closure begin: it has run the closure up to the first success, but not more than `n + 1` times; it
returns what the step comes to; and that is what the row of the step holds. A session that calls the
step later, while the database serves it and the row is left alone, runs no user code. It returns
the outcome if that is a value, and an uncoded error with its text if it is an error. -/
theorem step_retried
    (h₀ : Run (System.step server valid) (fun _ l ↦ Carries executor ops l)
      (System.init db₀ time) S₀) {i : ℕ} (hnew : S₀.unused i = true) {state : WorkflowState}
    {k : ℕ} {name : String} {n : ℕ} [codec : Serde V] {closure : ℕ → Except DbosError V}
    (hop : ops i = .durable state false k (.runStepWith name n codec closure))
    (hlive : S₀.moment.db.Callable state.workflowId)
    (hfree : S₀.moment.db.operation state.workflowId k = none)
    (hclosure : ∀ stamp v, closure stamp = .ok v → SerdeRoundTrip v)
    (h : Run (System.step server valid)
      (fun S l ↦ Carries executor ops l ∧ ServesStep valid i state.workflowId k S l) S₀ S)
    {r : OperationResult V} (hret : Returned S i r) (outcome : ℕ → Except DbosError V)
    (houtcome : ∀ j x, (outcomes closure (S.traceOf i).answers)[j]? = some x → outcome j = x) :
    ((outcomes closure (S.traceOf i).answers).length : ℕ∞) = min (firstOk outcome) (n + 1 : ℕ) ∧
    r.2 = asReply (retried state.workflowId name n outcome) ∧
    (∃ row, S.moment.db.operation state.workflowId k = some row ∧
      row.Holds name (retried state.workflowId name n outcome)) ∧
    ∀ {j : ℕ} {state' : WorkflowState} {n' : ℕ} {closure' : ℕ → Except DbosError V}
      {S' : RuntimeSystem V} {r' : OperationResult V}, S.unused j = true →
      ops j = .durable state' false k (.runStepWith name n' codec closure') →
      state'.workflowId = state.workflowId →
      Run (System.step server valid)
        (fun S l ↦ Carries executor ops l ∧ ServesStep valid j state.workflowId k S l) S S' →
      Returned S' j r' →
      (∀ a ∈ S'.answers, a.1 = j → a.2.ask.isUserCode = false) ∧
        r'.2 = asReply (replayed (retried state.workflowId name n outcome)) := by
  -- the call that records the step
  obtain ⟨hpost, -⟩ := post_of_servesStep (A := fun _ ↦ True)
    (Q := fun r _ m τ ↦ ∃ res, Retried state.workflowId name n (outcomes closure τ.answers) res ∧
      (∃ row, m.db.operation state.workflowId k = some row ∧ row.Holds name res) ∧
      r.2 = asReply res) h₀ hnew hlive h fun m hm hrow ↦ by
    rw [hop]
    refine wp_program (wpM_map (wpM_map (wpM_runStepWith ⟨executor i, state, false⟩ rfl rfl
      ⟨trivial, trivial⟩ hm (hrow.trans hfree) hclosure fun res m' τ' hruns hrow ↦ ?_)))
    obtain ⟨outs, houts, hretried⟩ := hruns
    obtain rfl : outcomes closure τ'.answers = outs := houts
    cases res with
    | ok v => exact ⟨_, hretried, hrow, rfl⟩
    | error e => exact ⟨_, hretried, hrow, rfl⟩
  obtain ⟨c, res, hretried, ⟨row, hrow, hholds⟩, hr⟩ := hpost r hret
  obtain ⟨hlength, rfl⟩ := hretried.eq houtcome
  refine ⟨hlength, hr, ⟨row, hrow, hholds⟩, ?_⟩
  intro j state' n' closure' S' r' hunused hop' hw h' hret'
  -- a later call finds the row
  have hres : ∀ v, retried state.workflowId name n outcome = .ok v → SerdeRoundTrip v := by
    intro v hv
    rw [hv] at hretried
    obtain ⟨stamp, hstamp⟩ := exists_of_mem_outcomes hretried.mem_of_ok
    exact hclosure stamp v hstamp.symm
  have hcarries : Run (System.step server valid) (fun _ l ↦ Carries executor ops l)
      (System.init db₀ time) S := h₀.trans (h.mono fun _ _ hok ↦ hok.1)
  have hcallable : S.moment.db.Callable state.workflowId :=
    h.invariant (P := fun S ↦ S.moment.db.Callable state.workflowId) hlive
      fun S l S' _ hok hs ↦ hok.2.callable S' hs
  obtain ⟨hpost', hanswers⟩ := post_of_servesStep (A := fun q ↦ q.isUserCode = false)
    (Q := fun r _ _ _ ↦ r.2 = asReply (replayed (retried state.workflowId name n outcome)))
    hcarries hunused hcallable h' fun m hm hsame ↦ by
    rw [hop']
    refine wp_program (wpM_map (wpM_map (wpM_mono (wpM_runStepWith_replay
      ⟨executor j, state', false⟩ rfl hw hm (hsame.trans hrow) hholds hres) ?_ ?_)))
    · rintro v c m τ hv
      rw [hv]
      rfl
    · rintro e c m τ he
      rw [he]
      rfl
  exact ⟨hanswers, (hpost' r' hret').choose_spec⟩

end

/-! ### A step that always fails -/

section

local instance retriesJson : SerdeJson := JsonText.jsonText

/-- Step 0 of `w` is called with one retry, and its closure always fails. -/
def doomedOps (_ : ℕ) : Operation ℤ :=
  .durable ⟨"w", {}⟩ false 0 (.runStepWith "s" 1 inferInstance fun _ ↦ .error (.other "e"))

/-- Session 0 calls the step: a lookup, two runs of the closure, and the checkpoint. -/
def doomedCall : List (RuntimeLabel ℤ) :=
  .spawn 0 ((doomedOps 0).program (anyName "a")) ::
    (sendOne 0 ++ sendOne 0 ++ answerOne 0 5 ++ answerOne 0 5 ++ answerOne 0 5 ++ sendOne 0)

/-- Session 1 calls it again. -/
def doomedReplay : List (RuntimeLabel ℤ) :=
  .spawn 1 ((doomedOps 1).program (anyName "a")) :: (sendOne 1 ++ sendOne 1)

/-- Whether the database serves session `i` in a step. -/
def isServed (i : ℕ) (S : RuntimeSystem ℤ) (l : RuntimeLabel ℤ) : Bool :=
  !l.faults i && (System.step server (fun _ _ _ ↦ true) S l).all fun S' ↦
    (statusGuard "w" (S'.moment.db.statusOf "w")).isOk &&
      (l.concerns i || S'.moment.db.operation "w" 0 = S.moment.db.operation "w" 0)

theorem servesStep_of_isServed {i : ℕ} {S : RuntimeSystem ℤ} {l : RuntimeLabel ℤ}
    (h : isServed i S l = true) : ServesStep (fun _ _ _ ↦ true) i "w" 0 S l := by
  rw [isServed, Bool.and_eq_true, Bool.not_eq_true', Option.all_eq_true] at h
  refine ⟨h.1, fun S' hS' ↦ ?_, fun hl S' hS' ↦ ?_⟩
  · have hok := (Bool.and_eq_true _ _ ▸ h.2 S' hS').1
    rw [Db.Callable]
    cases hguard : statusGuard "w" (S'.moment.db.statusOf "w") with
    | ok u => rfl
    | error e =>
      rw [hguard] at hok
      cases hok
  · have hsame := (Bool.and_eq_true _ _ ▸ h.2 S' hS').2
    rw [hl, Bool.false_or] at hsame
    exact of_decide_eq_true hsame

/-- The code of the error a session has returned. -/
def returnedCode
    (s : Session Db Key Row Stmt Stmt.Res SqlError Ask Ask.Ans (OperationResult ℤ)) :
    Option DbosErrorCode :=
  match s.prog with
  | .pure (_, .error e) => some e.code
  | _ => none

theorem exists_of_returnedCode {S : RuntimeSystem ℤ} {i : ℕ} {code : DbosErrorCode}
    (h : (S.sessions.lookup i).bind returnedCode = some code) :
    ∃ r e, Returned S i r ∧ r.2 = .error e ∧ e.code = code := by
  obtain ⟨s, hs, hret⟩ := Option.bind_eq_some_iff.1 h
  unfold returnedCode at hret
  split at hret
  · rename_i op e hprog
    exact ⟨_, e, ⟨s, hs, hprog⟩, rfl, Option.some.inj hret⟩
  · cases hret

/-- The call fails with the code of exhausted retries, and its replay with none. -/
theorem doomed_run : (exec (fun S l ↦
    if isServed 0 S l then System.step server (fun _ _ _ ↦ true) S l else none)
    (System.init oneWaiting 0) doomedCall).any (fun S ↦
      (S.sessions.lookup 0).bind returnedCode = some .maxStepRetriesExceeded && S.unused 1 &&
      (exec (fun S l ↦ if isServed 1 S l then System.step server (fun _ _ _ ↦ true) S l else none)
        S doomedReplay).any fun S' ↦
          (S'.sessions.lookup 1).bind returnedCode = some .unspecified) = true := by
  decide +kernel

theorem carries_doomed {ls : List (RuntimeLabel ℤ)}
    (h : ∀ e ∈ ls.filterMap spawnedOperation, e.1 = 0 ∧ e.2 = (doomedOps 0).program (anyName "a") ∨
      e.1 = 1 ∧ e.2 = (doomedOps 1).program (anyName "a")) :
    ∀ l ∈ ls, Carries (fun _ ↦ anyName "a") doomedOps l := by
  rintro l hl i p rfl
  rcases h (i, p) (List.mem_filterMap.2 ⟨_, hl, rfl⟩) with ⟨rfl, rfl⟩ | ⟨rfl, rfl⟩
  · rfl
  · rfl

/-- The call and its replay. -/
theorem step_retried_doomed : ∃ S S' r r',
    exec (System.step server fun _ _ _ ↦ true) (System.init oneWaiting 0) doomedCall = some S ∧
    exec (System.step server fun _ _ _ ↦ true) S doomedReplay = some S' ∧
    Returned S 0 r ∧ Returned S' 1 r' ∧
    r.2 = asReply (retried "w" "s" 1 fun _ ↦ .error (.other "e")) ∧
    r'.2 = asReply (replayed (retried "w" "s" 1 fun _ ↦ .error (.other "e"))) := by
  obtain ⟨S, hS, hdone⟩ := (Option.any_eq_true _ _).1 doomed_run
  rw [Bool.and_eq_true, Bool.and_eq_true, decide_eq_true_eq] at hdone
  obtain ⟨⟨hcode, hunused⟩, hreplay⟩ := hdone
  obtain ⟨S', hS', hcode'⟩ := (Option.any_eq_true _ _).1 hreplay
  obtain ⟨r, -, hret, -⟩ := exists_of_returnedCode hcode
  obtain ⟨r', -, hret', -⟩ := exists_of_returnedCode (of_decide_eq_true hcode')
  have hrun : Run (System.step server fun _ _ _ ↦ true) (fun S l ↦
      Carries (fun _ ↦ anyName "a") doomedOps l ∧ ServesStep (fun _ _ _ ↦ true) 0 "w" 0 S l)
      (System.init oneWaiting 0) S :=
    Run.of_exec_checked hS fun S l hl hcheck ↦
      ⟨carries_doomed (by
        intro e he
        rw [List.mem_singleton.1 he]
        exact Or.inl ⟨rfl, rfl⟩) l hl, servesStep_of_isServed hcheck⟩
  have hrun' : Run (System.step server fun _ _ _ ↦ true) (fun S l ↦
      Carries (fun _ ↦ anyName "a") doomedOps l ∧ ServesStep (fun _ _ _ ↦ true) 1 "w" 0 S l) S S' :=
    Run.of_exec_checked hS' fun S l hl hcheck ↦
      ⟨carries_doomed (by
        intro e he
        rw [List.mem_singleton.1 he]
        exact Or.inr ⟨rfl, rfl⟩) l hl, servesStep_of_isServed hcheck⟩
  have hstart : Run (System.step server fun _ _ _ ↦ true)
      (fun _ l ↦ Carries (fun _ ↦ anyName "a") doomedOps l) (System.init oneWaiting 0)
      (System.init oneWaiting 0) := .refl
  have hlive : oneWaiting.Callable "w" := rfl
  have hfree : oneWaiting.operation "w" 0 = none := rfl
  have hop : doomedOps 0 = .durable ⟨"w", {}⟩ false 0
      (.runStepWith "s" 1 inferInstance fun _ ↦ .error (.other "e")) := rfl
  obtain ⟨-, hr, -, hlater⟩ := step_retried hstart (by simp [System.unused, System.init]) hop hlive
    hfree (fun _ _ h ↦ by cases h) hrun hret (fun _ ↦ .error (.other "e")) fun j x hx ↦ by
      obtain ⟨stamp, hstamp⟩ := exists_of_mem_outcomes (List.mem_of_getElem? hx)
      exact hstamp.symm
  exact ⟨S, S', r, r', exec_of_checked hS, exec_of_checked hS', hret, hret', hr,
    (hlater hunused rfl rfl hrun' hret').2⟩

/-- The replay of exhausted retries does not return the error of the call: its code is lost. -/
theorem replay_loses_code : ∃ S S' r r' e e',
    exec (System.step server fun _ _ _ ↦ true) (System.init oneWaiting 0) doomedCall = some S ∧
    exec (System.step server fun _ _ _ ↦ true) S doomedReplay = some S' ∧
    Returned S 0 r ∧ Returned S' 1 r' ∧ r.2 = .error e ∧ r'.2 = .error e' ∧
    e.code = .maxStepRetriesExceeded ∧ e'.code = .unspecified := by
  obtain ⟨S, hS, hdone⟩ := (Option.any_eq_true _ _).1 doomed_run
  rw [Bool.and_eq_true, Bool.and_eq_true, decide_eq_true_eq] at hdone
  obtain ⟨⟨hcode, -⟩, hreplay⟩ := hdone
  obtain ⟨S', hS', hcode'⟩ := (Option.any_eq_true _ _).1 hreplay
  obtain ⟨r, e, hret, hr, he⟩ := exists_of_returnedCode hcode
  obtain ⟨r', e', hret', hr', he'⟩ := exists_of_returnedCode (of_decide_eq_true hcode')
  exact ⟨S, S', r, r', e, e', exec_of_checked hS, exec_of_checked hS', hret, hret', hr, hr', he,
    he'⟩

end

end Dbos

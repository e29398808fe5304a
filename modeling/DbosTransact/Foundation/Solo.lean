import DbosTransact.Foundation.Program
import DbosTransact.Foundation.Run

/-!
# One client that may be stopped anywhere

The operational semantics of a single client that runs the same program again and again, for servers
whose statements need not be atomic: a statement that is interrupted outside a transaction may leave
something behind (`Backend.torn`). Any request may fail, the reply to one that was carried out may
be lost, and the client may stop for good between any two of them.

`wp` says of a program that every state it commits is related to the one before by `G`, and what
holds when it returns; with `faulty` false it speaks of a run in which nothing fails. `rel_of_run`
is what this comes to for any number of interrupted calls, and `returns` says that a call that is
left alone comes to its end.
-/

namespace Txn.Solo

/-- A program that asks its surroundings nothing. -/
abbrev Script (Stmt : Type) (Res : Stmt → Type) (Err α : Type) : Type :=
  Prog Stmt Res Err Empty (fun _ ↦ Empty) α

/-- A database server. -/
structure Backend (Db Stmt : Type) (Res : Stmt → Type) (Err : Type) where
  run : (s : Stmt) → Db → Except Err (Res s × Db)
  /-- What a statement may leave behind that is interrupted outside a transaction. -/
  torn : Stmt → Db → List Db
  /-- The error of a statement sent to a transaction that has already failed. -/
  abortedErr : Err

/-- The state of a connection. A transaction works on a copy. -/
inductive Conn (Db : Type)
  | idle
  | active (work : Db)
  | aborted

/-- The database, and the rest of the call that is in progress. -/
structure State (Db Stmt : Type) (Res : Stmt → Type) (Err α : Type) where
  db : Db
  call : Option (Script Stmt Res Err α × Conn Db) := none

/-- What may happen next. -/
inductive Label (Err : Type)
  /-- The program is called. -/
  | call
  /-- The next request is carried out. -/
  | next
  /-- The next request fails without effect. -/
  | fail (e : Err)
  /-- The next request is carried out, but the client is told it failed. -/
  | lost (e : Err)
  /-- The next request is interrupted, with effect `n`. -/
  | interrupt (n : ℕ) (e : Err)
  /-- The client stops. -/
  | crash

variable {Db Stmt : Type} {Res : Stmt → Type} {Err α β : Type}

/-- The connection after a request on it failed. -/
def Conn.abort : Conn Db → Conn Db
  | idle => idle
  | _ => aborted

/-- What the client is told. -/
def told (lost : Option Err) (r : Except Err β) : Except Err β :=
  match lost with
  | none => r
  | some e => .error e

/-- Carry out the next request of a program. -/
def serve (B : Backend Db Stmt Res Err) (lost : Option Err) :
    Script Stmt Res Err α → Conn Db → Db → Option (Script Stmt Res Err α × Conn Db × Db)
  | .pure _, _, _ => none
  | .ask q _, _, _ => nomatch q
  | .sql s k, .idle, db =>
    match B.run s db with
    | .error e => some (k (told lost (.error e)), .idle, db)
    | .ok (r, db') => some (k (told lost (.ok r)), .idle, db')
  | .sql s k, .active work, db =>
    match B.run s work with
    | .error e => some (k (told lost (.error e)), .aborted, db)
    | .ok (r, work') =>
      some (k (told lost (.ok r)), if lost.isSome then .aborted else .active work', db)
  | .sql _ k, .aborted, db => some (k (told lost (.error B.abortedErr)), .aborted, db)
  | .begin k, c, db => some (k (told lost (.ok ())), if lost.isSome then c else .active db, db)
  | .isolate _ k, c, db => some (k (told lost (.ok ())), if lost.isSome then c.abort else c, db)
  | .commit k, .active work, _ => some (k (told lost (.ok ())), .idle, work)
  | .commit k, _, db => some (k (told lost (.ok ())), .idle, db)
  | .rollback k, _, db => some (k (), .idle, db)

/-- The next request of a program fails without effect. -/
def refuse (e : Err) : Script Stmt Res Err α → Conn Db → Option (Script Stmt Res Err α × Conn Db)
  | .sql _ k, c => some (k (.error e), c.abort)
  | .begin k, c => some (k (.error e), c)
  | .isolate _ k, c => some (k (.error e), c.abort)
  | .commit k, _ => some (k (.error e), .idle)
  | _, _ => none

/-- The next statement of a program is interrupted. -/
def tear (B : Backend Db Stmt Res Err) (n : ℕ) (e : Err) :
    Script Stmt Res Err α → Conn Db → Db → Option (Script Stmt Res Err α × Conn Db × Db)
  | .sql s k, .idle, db => (B.torn s db)[n]?.map fun db' ↦ (k (.error e), .idle, db')
  | _, _, _ => none

/-- Whether the call has returned `a`. -/
def State.Returned (S : State Db Stmt Res Err α) (a : α) : Prop :=
  ∃ c, S.call = some (.pure a, c)

/-- Whether no call is in progress. -/
def State.free (S : State Db Stmt Res Err α) : Bool :=
  match S.call with
  | none => true
  | some (.pure _, _) => true
  | _ => false

/-- One step of a client that calls `p`. -/
def step (B : Backend Db Stmt Res Err) (p : Script Stmt Res Err α) (S : State Db Stmt Res Err α) :
    Label Err → Option (State Db Stmt Res Err α)
  | .call => if S.free then some { S with call := some (p, .idle) } else none
  | .crash => some { S with call := none }
  | .next => do
    let (q, c, db) ← S.call.bind fun s ↦ serve B none s.1 s.2 S.db
    return ⟨db, some (q, c)⟩
  | .lost e => do
    let (q, c, db) ← S.call.bind fun s ↦ serve B (some e) s.1 s.2 S.db
    return ⟨db, some (q, c)⟩
  | .fail e => do
    let (q, c) ← S.call.bind fun s ↦ refuse e s.1 s.2
    return ⟨S.db, some (q, c)⟩
  | .interrupt n e => do
    let (q, c, db) ← S.call.bind fun s ↦ tear B n e s.1 s.2 S.db
    return ⟨db, some (q, c)⟩

/-! ### What holds of every call -/

/-- What holds after a statement, whether it was carried out or refused. -/
def Served {γ : Type} (r : Except Err (γ × Db)) (bad : Err → Prop) (good : γ → Db → Prop) : Prop :=
  match r with
  | .error e => bad e
  | .ok (v, db) => good v db

theorem Served.mono {γ : Type} {r : Except Err (γ × Db)} {bad bad' : Err → Prop}
    {good good' : γ → Db → Prop} (h : Served r bad good) (hbad : ∀ e, bad e → bad' e)
    (hgood : ∀ v db, good v db → good' v db) : Served r bad' good' := by
  cases r with
  | error e => exact hbad e h
  | ok v => exact hgood v.1 v.2 h

/-- Every run of the program takes the database through states related by `G`, and ends with `Q`.
Requests fail, are interrupted, or lose their reply only if `faulty`. -/
def wp (B : Backend Db Stmt Res Err) (faulty : Prop) (G : Db → Db → Prop) :
    Script Stmt Res Err α → (α → Conn Db → Db → Prop) → Conn Db → Db → Prop
  | .pure a, Q, c, db => Q a c db
  | .ask q _, _, _, _ => nomatch q
  | .sql s k, Q, .idle, db =>
    (faulty → ∀ e, wp B faulty G (k (.error e)) Q .idle db) ∧
    (faulty → ∀ db' ∈ B.torn s db, G db db' ∧ ∀ e, wp B faulty G (k (.error e)) Q .idle db') ∧
    Served (B.run s db) (fun e ↦ wp B faulty G (k (.error e)) Q .idle db)
      fun r db' ↦ G db db' ∧ wp B faulty G (k (.ok r)) Q .idle db' ∧
        (faulty → ∀ e, wp B faulty G (k (.error e)) Q .idle db')
  | .sql s k, Q, .active work, db =>
    (faulty → ∀ e, wp B faulty G (k (.error e)) Q .aborted db) ∧
    Served (B.run s work) (fun e ↦ wp B faulty G (k (.error e)) Q .aborted db)
      fun r work' ↦ wp B faulty G (k (.ok r)) Q (.active work') db
  | .sql _ k, Q, .aborted, db =>
    (faulty → ∀ e, wp B faulty G (k (.error e)) Q .aborted db) ∧
    wp B faulty G (k (.error B.abortedErr)) Q .aborted db
  | .begin k, Q, c, db =>
    (faulty → ∀ e, wp B faulty G (k (.error e)) Q c db) ∧ wp B faulty G (k (.ok ())) Q
      (.active db) db
  | .isolate _ k, Q, c, db =>
    (faulty → ∀ e, wp B faulty G (k (.error e)) Q c.abort db) ∧ wp B faulty G (k (.ok ())) Q c db
  | .commit k, Q, .active work, db =>
    (faulty → ∀ e, wp B faulty G (k (.error e)) Q .idle db) ∧ G db work ∧
    wp B faulty G (k (.ok ())) Q .idle work ∧
    (faulty → ∀ e, wp B faulty G (k (.error e)) Q .idle work)
  | .commit k, Q, _, db =>
    (faulty → ∀ e, wp B faulty G (k (.error e)) Q .idle db) ∧ wp B faulty G (k (.ok ())) Q .idle db
  | .rollback k, Q, _, db => wp B faulty G (k ()) Q .idle db

section

variable {B : Backend Db Stmt Res Err} {faulty : Prop} {G : Db → Db → Prop}
variable {Q Q' : α → Conn Db → Db → Prop} {c : Conn Db} {db : Db}

theorem wp_mono {p : Script Stmt Res Err α} (h : wp B faulty G p Q c db)
    (hQ : ∀ a c db, Q a c db → Q' a c db) : wp B faulty G p Q' c db := by
  induction p generalizing c db with
  | pure a => exact hQ a c db h
  | ask q k => exact nomatch q
  | sql s k ih =>
    cases c with
    | idle =>
      obtain ⟨hfail, htorn, hrun⟩ := h
      refine ⟨fun hf e ↦ ih _ (hfail hf e), fun hf db' hdb' ↦ ⟨(htorn hf db' hdb').1,
        fun e ↦ ih _ ((htorn hf db' hdb').2 e)⟩, hrun.mono (fun e he ↦ ih _ he)
        fun r db' hr ↦ ⟨hr.1, ih _ hr.2.1, fun hf e ↦ ih _ (hr.2.2 hf e)⟩⟩
    | active work =>
      exact ⟨fun hf e ↦ ih _ (h.1 hf e), h.2.mono (fun e he ↦ ih _ he) fun r work' hr ↦ ih _ hr⟩
    | aborted => exact ⟨fun hf e ↦ ih _ (h.1 hf e), ih _ h.2⟩
  | begin k ih => exact ⟨fun hf e ↦ ih _ (h.1 hf e), ih _ h.2⟩
  | isolate iso k ih => exact ⟨fun hf e ↦ ih _ (h.1 hf e), ih _ h.2⟩
  | commit k ih =>
    cases c with
    | active work =>
      exact ⟨fun hf e ↦ ih _ (h.1 hf e), h.2.1, ih _ h.2.2.1, fun hf e ↦ ih _ (h.2.2.2 hf e)⟩
    | idle => exact ⟨fun hf e ↦ ih _ (h.1 hf e), ih _ h.2⟩
    | aborted => exact ⟨fun hf e ↦ ih _ (h.1 hf e), ih _ h.2⟩
  | rollback k ih => exact ih _ h

theorem wp_bind {p : Script Stmt Res Err β} {f : β → Script Stmt Res Err α}
    (h : wp B faulty G p (fun b c db ↦ wp B faulty G (f b) Q c db) c db) :
    wp B faulty G (p.bind f) Q c db := by
  induction p generalizing c db with
  | pure b => exact h
  | ask q k => exact nomatch q
  | sql s k ih =>
    cases c with
    | idle =>
      obtain ⟨hfail, htorn, hrun⟩ := h
      refine ⟨fun hf e ↦ ih _ (hfail hf e), fun hf db' hdb' ↦ ⟨(htorn hf db' hdb').1,
        fun e ↦ ih _ ((htorn hf db' hdb').2 e)⟩, hrun.mono (fun e he ↦ ih _ he)
        fun r db' hr ↦ ⟨hr.1, ih _ hr.2.1, fun hf e ↦ ih _ (hr.2.2 hf e)⟩⟩
    | active work =>
      exact ⟨fun hf e ↦ ih _ (h.1 hf e), h.2.mono (fun e he ↦ ih _ he) fun r work' hr ↦ ih _ hr⟩
    | aborted => exact ⟨fun hf e ↦ ih _ (h.1 hf e), ih _ h.2⟩
  | begin k ih => exact ⟨fun hf e ↦ ih _ (h.1 hf e), ih _ h.2⟩
  | isolate iso k ih => exact ⟨fun hf e ↦ ih _ (h.1 hf e), ih _ h.2⟩
  | commit k ih =>
    cases c with
    | active work =>
      exact ⟨fun hf e ↦ ih _ (h.1 hf e), h.2.1, ih _ h.2.2.1, fun hf e ↦ ih _ (h.2.2.2 hf e)⟩
    | idle => exact ⟨fun hf e ↦ ih _ (h.1 hf e), ih _ h.2⟩
    | aborted => exact ⟨fun hf e ↦ ih _ (h.1 hf e), ih _ h.2⟩
  | rollback k ih => exact ih _ h

/-- What carrying out a request owes. -/
theorem wp_serve (hrefl : ∀ db, G db db) {p q : Script Stmt Res Err α} {c' : Conn Db} {db' : Db}
    {lost : Option Err} (h : wp B faulty G p Q c db) (hlost : lost.isSome = true → faulty)
    (hs : serve B lost p c db = some (q, c', db')) : G db db' ∧ wp B faulty G q Q c' db' := by
  have htold : ∀ {γ : Type} {r : Except Err γ} {k : Except Err γ → Script Stmt Res Err α}
      {c₁ c₂ : Conn Db} {db : Db}, wp B faulty G (k r) Q c₁ db →
      (faulty → ∀ e, wp B faulty G (k (.error e)) Q c₂ db) →
      wp B faulty G (k (told lost r)) Q (if lost.isSome then c₂ else c₁) db := by
    intro γ r k c₁ c₂ db hok herr
    cases lost with
    | none => exact hok
    | some e => exact herr (hlost rfl) e
  have htold_same : ∀ {γ : Type} {r : Except Err γ} {k : Except Err γ → Script Stmt Res Err α}
      {c : Conn Db} {db : Db}, wp B faulty G (k r) Q c db →
      (faulty → ∀ e, wp B faulty G (k (.error e)) Q c db) →
      wp B faulty G (k (told lost r)) Q c db := by
    intro γ r k c db hok herr
    simpa using htold hok herr
  cases p with
  | pure a => cases hs
  | ask q k => exact nomatch q
  | sql s k =>
    cases c with
    | idle =>
      obtain ⟨hfail, -, hrun⟩ := h
      simp only [serve] at hs
      split at hs
      · rename_i e he
        cases hs
        rw [he] at hrun
        exact ⟨hrefl _, htold_same hrun hfail⟩
      · rename_i r db₁ hr
        cases hs
        rw [hr] at hrun
        exact ⟨hrun.1, htold_same hrun.2.1 hrun.2.2⟩
    | active work =>
      obtain ⟨hfail, hrun⟩ := h
      simp only [serve] at hs
      split at hs
      · rename_i e he
        cases hs
        rw [he] at hrun
        exact ⟨hrefl _, htold_same hrun hfail⟩
      · rename_i r db₁ hr
        cases hs
        rw [hr] at hrun
        exact ⟨hrefl _, htold hrun hfail⟩
    | aborted =>
      cases hs
      exact ⟨hrefl _, htold_same h.2 h.1⟩
  | begin k =>
    cases hs
    exact ⟨hrefl _, htold h.2 h.1⟩
  | isolate iso k =>
    cases hs
    exact ⟨hrefl _, htold h.2 h.1⟩
  | commit k =>
    cases c with
    | active work =>
      cases hs
      exact ⟨h.2.1, htold_same h.2.2.1 h.2.2.2⟩
    | idle =>
      cases hs
      exact ⟨hrefl _, htold_same h.2 h.1⟩
    | aborted =>
      cases hs
      exact ⟨hrefl _, htold_same h.2 h.1⟩
  | rollback k =>
    cases hs
    exact ⟨hrefl _, h⟩

theorem wp_refuse {p q : Script Stmt Res Err α} {c' : Conn Db} {e : Err}
    (h : wp B faulty G p Q c db) (hf : faulty) (hs : refuse e p c = some (q, c')) :
    wp B faulty G q Q c' db := by
  cases p with
  | pure a => cases hs
  | ask q k => exact nomatch q
  | sql s k => cases c <;> cases hs <;> exact h.1 hf e
  | begin k => cases hs; exact h.1 hf e
  | isolate iso k => cases hs; exact h.1 hf e
  | commit k => cases c <;> cases hs <;> exact h.1 hf e
  | rollback k => cases hs

theorem wp_tear {p q : Script Stmt Res Err α} {c' : Conn Db} {db' : Db} {n : ℕ} {e : Err}
    (h : wp B faulty G p Q c db) (hf : faulty) (hs : tear B n e p c db = some (q, c', db')) :
    G db db' ∧ wp B faulty G q Q c' db' := by
  cases p with
  | sql s k =>
    cases c with
    | idle =>
      obtain ⟨db₁, hdb₁, heq⟩ := Option.map_eq_some_iff.1 hs
      cases heq
      obtain ⟨hG, herr⟩ := h.2.1 hf _ (List.mem_of_getElem? hdb₁)
      exact ⟨hG, herr e⟩
    | active work => cases hs
    | aborted => cases hs
  | ask q k => exact nomatch q
  | _ => cases hs

/-- The call in progress meets its specification from where it stands. -/
def State.Sat (B : Backend Db Stmt Res Err) (faulty : Prop) (G : Db → Db → Prop)
    (Q : α → Conn Db → Db → Prop) (S : State Db Stmt Res Err α) : Prop :=
  ∀ s ∈ S.call, wp B faulty G s.1 Q s.2 S.db

variable {p : Script Stmt Res Err α} {S S' : State Db Stmt Res Err α}

/-- One step of a client. -/
theorem State.Sat.step (hrefl : ∀ db, G db db) (h : S.Sat B True G Q)
    (hcall : wp B True G p Q .idle S.db) {l : Label Err} (hs : step B p S l = some S') :
    G S.db S'.db ∧ S'.Sat B True G Q := by
  cases l with
  | call =>
    simp only [Solo.step] at hs
    split at hs <;> cases hs
    refine ⟨hrefl _, ?_⟩
    rintro s ⟨⟩
    exact hcall
  | crash =>
    cases hs
    exact ⟨hrefl _, fun s hs ↦ by cases hs⟩
  | next =>
    obtain ⟨⟨q, c, db⟩, hserve, heq⟩ := Option.bind_eq_some_iff.1 hs
    cases heq
    obtain ⟨s, hcall, hserve⟩ := Option.bind_eq_some_iff.1 hserve
    obtain ⟨hG, hq⟩ := wp_serve hrefl (h s hcall) (fun _ ↦ trivial) hserve
    refine ⟨hG, ?_⟩
    rintro s ⟨⟩
    exact hq
  | lost e =>
    obtain ⟨⟨q, c, db⟩, hserve, heq⟩ := Option.bind_eq_some_iff.1 hs
    cases heq
    obtain ⟨s, hcall, hserve⟩ := Option.bind_eq_some_iff.1 hserve
    obtain ⟨hG, hq⟩ := wp_serve hrefl (h s hcall) (fun _ ↦ trivial) hserve
    refine ⟨hG, ?_⟩
    rintro s ⟨⟩
    exact hq
  | fail e =>
    obtain ⟨⟨q, c⟩, hrefuse, heq⟩ := Option.bind_eq_some_iff.1 hs
    cases heq
    obtain ⟨s, hcall, hrefuse⟩ := Option.bind_eq_some_iff.1 hrefuse
    refine ⟨hrefl _, ?_⟩
    rintro s' ⟨⟩
    exact wp_refuse (h s hcall) trivial hrefuse
  | interrupt n e =>
    obtain ⟨⟨q, c, db⟩, htear, heq⟩ := Option.bind_eq_some_iff.1 hs
    cases heq
    obtain ⟨s, hcall, htear⟩ := Option.bind_eq_some_iff.1 htear
    obtain ⟨hG, hq⟩ := wp_tear (h s hcall) trivial htear
    refine ⟨hG, ?_⟩
    rintro s ⟨⟩
    exact hq

/-- What any number of calls, interrupted or not, do to the database. -/
theorem rel_of_run (hrefl : ∀ db, G db db) (htrans : ∀ {a b c}, G a b → G b c → G a c)
    {S₀ : State Db Stmt Res Err α} (h₀ : S₀.Sat B True G Q)
    (hcall : ∀ db, G S₀.db db → wp B True G p Q .idle db) {ok}
    (h : Run (step B p) ok S₀ S) : G S₀.db S.db ∧ S.Sat B True G Q := by
  refine h.invariant (P := fun S ↦ G S₀.db S.db ∧ S.Sat B True G Q) ⟨hrefl _, h₀⟩
    fun S l S' ⟨hG, hsat⟩ _ hs ↦ ?_
  obtain ⟨hstep, hsat'⟩ := hsat.step hrefl (hcall _ hG) hs
  exact ⟨htrans hG hstep, hsat'⟩

/-- A call that is left alone comes to its end. -/
theorem returns (hrefl : ∀ db, G db db) {q : Script Stmt Res Err α}
    (hq : wp B False G q Q c db) :
    ∃ (a : α) (c' : Conn Db) (db' : Db),
      Run (step B p) (fun _ l ↦ l = .next) ⟨db, some (q, c)⟩ ⟨db', some (.pure a, c')⟩ ∧
        Q a c' db' := by
  -- one request, and the rest by induction
  have one : ∀ {q q' : Script Stmt Res Err α} {c c' : Conn Db} {db db' : Db},
      serve B none q c db = some (q', c', db') →
      Run (step B p) (fun _ l ↦ l = .next) ⟨db, some (q, c)⟩ ⟨db', some (q', c')⟩ := by
    intro q q' c c' db db' hserve
    have hstep : step B p ⟨db, some (q, c)⟩ .next = some ⟨db', some (q', c')⟩ := by
      simp [step, hserve]
    exact Run.refl.tail rfl hstep
  have later : ∀ {q q' : Script Stmt Res Err α} {c c' : Conn Db} {db db' : Db},
      wp B False G q Q c db → serve B none q c db = some (q', c', db') →
      (wp B False G q' Q c' db' → ∃ (a : α) (c'' : Conn Db) (db'' : Db),
        Run (step B p) (fun _ l ↦ l = .next) ⟨db', some (q', c')⟩ ⟨db'', some (.pure a, c'')⟩ ∧
          Q a c'' db'') →
      ∃ (a : α) (c'' : Conn Db) (db'' : Db),
        Run (step B p) (fun _ l ↦ l = .next) ⟨db, some (q, c)⟩ ⟨db'', some (.pure a, c'')⟩ ∧
          Q a c'' db'' := by
    intro q q' c c' db db' hq hserve ih
    obtain ⟨a, c'', db'', hrun, hQ⟩ := ih (wp_serve hrefl hq (by simp) hserve).2
    exact ⟨a, c'', db'', (one hserve).trans hrun, hQ⟩
  induction q generalizing c db with
  | pure a => exact ⟨a, c, db, .refl, hq⟩
  | ask q k => exact nomatch q
  | sql s k ih =>
    cases c with
    | idle =>
      rcases hrun : B.run s db with e | ⟨r, db'⟩
      · exact later hq (by simp only [serve, hrun]; rfl) (ih _)
      · exact later hq (by simp only [serve, hrun]; rfl) (ih _)
    | active work =>
      rcases hrun : B.run s work with e | ⟨r, work'⟩
      · exact later hq (by simp only [serve, hrun]; rfl) (ih _)
      · exact later hq (by simp only [serve, hrun]; rfl) (ih _)
    | aborted => exact later hq rfl (ih _)
  | begin k ih => exact later hq rfl (ih _)
  | isolate iso k ih => exact later hq rfl (ih _)
  | commit k ih => cases c <;> exact later hq rfl (ih _)
  | rollback k ih => exact later hq rfl (ih _)

end

/-! ### Programs with errors -/

/-- A program that may fail. -/
abbrev ScriptM (Stmt : Type) (Res : Stmt → Type) (Err α : Type) : Type :=
  ExceptT Err (Script Stmt Res Err) α

/-- Send a statement. -/
def query (s : Stmt) : ScriptM Stmt Res Err (Res s) := ExceptT.mk (.sql s .pure)

def beginTx : ScriptM Stmt Res Err Unit := ExceptT.mk (.begin .pure)

def commitTx : ScriptM Stmt Res Err Unit := ExceptT.mk (.commit .pure)

/-- The scope of a transaction: what is not committed in it is rolled back at its end. -/
def transaction (m : ScriptM Stmt Res Err α) : ScriptM Stmt Res Err α := do
  beginTx
  ExceptT.mk (m.run.bind fun r ↦ .rollback fun _ ↦ .pure r)

/-- Every run of the program keeps to `G` and ends with `Q` of its result, or with an error that
satisfies `X` if nothing went wrong. -/
def wpM (B : Backend Db Stmt Res Err) (faulty : Prop) (G : Db → Db → Prop)
    (p : ScriptM Stmt Res Err α) (Q : α → Conn Db → Db → Prop) (X : Err → Prop) (c : Conn Db)
    (db : Db) : Prop :=
  wp B faulty G p.run (fun r c db ↦ match r with
    | .ok a => Q a c db
    | .error e => faulty ∨ X e) c db

section

variable {B : Backend Db Stmt Res Err} {faulty : Prop} {G : Db → Db → Prop}
variable {Q Q' : α → Conn Db → Db → Prop} {X : Err → Prop} {c : Conn Db} {db work : Db}

theorem wpM_mono {p : ScriptM Stmt Res Err α} (h : wpM B faulty G p Q X c db)
    (hQ : ∀ a c db, Q a c db → Q' a c db) : wpM B faulty G p Q' X c db := by
  refine wp_mono h fun r c db hr ↦ ?_
  cases r with
  | ok a => exact hQ a c db hr
  | error e => exact hr

theorem wpM_pure {a : α} (h : Q a c db) : wpM B faulty G (pure a) Q X c db := h

theorem wpM_bind {p : ScriptM Stmt Res Err β} {f : β → ScriptM Stmt Res Err α}
    (h : wpM B faulty G p (fun b c db ↦ wpM B faulty G (f b) Q X c db) X c db) :
    wpM B faulty G (p >>= f) Q X c db := by
  refine wp_bind (wp_mono h fun r c db hr ↦ ?_)
  cases r with
  | ok b => exact hr
  | error e => exact hr

/-- A statement outside a transaction. -/
theorem wpM_query_idle {s : Stmt} {Q : Res s → Conn Db → Db → Prop}
    (htorn : faulty → ∀ db' ∈ B.torn s db, G db db')
    (hrun : Served (B.run s db) X fun r db' ↦ G db db' ∧ Q r .idle db') :
    wpM B faulty G (query s) Q X .idle db := by
  refine ⟨fun hf _ ↦ Or.inl hf, fun hf db' hdb' ↦ ⟨htorn hf db' hdb', fun _ ↦ Or.inl hf⟩,
    hrun.mono (fun _ he ↦ Or.inr he) fun _ _ hr ↦ ⟨hr.1, hr.2, fun hf _ ↦ Or.inl hf⟩⟩

/-- A statement inside a transaction. -/
theorem wpM_query_active {s : Stmt} {Q : Res s → Conn Db → Db → Prop}
    (hrun : Served (B.run s work) X fun r work' ↦ Q r (.active work') db) :
    wpM B faulty G (query s) Q X (.active work) db :=
  ⟨fun hf _ ↦ Or.inl hf, hrun.mono (fun _ he ↦ Or.inr he) fun _ _ hr ↦ hr⟩

theorem wpM_commitTx {Q : Unit → Conn Db → Db → Prop} (hG : G db work) (hQ : Q () .idle work) :
    wpM B faulty G commitTx Q X (.active work) db :=
  ⟨fun hf _ ↦ Or.inl hf, hG, hQ, fun hf _ ↦ Or.inl hf⟩

theorem wpM_transaction {p : ScriptM Stmt Res Err α}
    (h : wpM B faulty G p (fun a _ db ↦ Q a .idle db) X (.active db) db) :
    wpM B faulty G (transaction p) Q X c db := by
  refine wpM_bind ⟨fun hf _ ↦ Or.inl hf, wp_bind (wp_mono h fun r c db hr ↦ ?_)⟩
  cases r with
  | ok a => exact hr
  | error e => exact hr

end

end Txn.Solo

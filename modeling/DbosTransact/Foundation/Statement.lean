import DbosTransact.Foundation.Program
import Mathlib.Data.Sigma.Basic

/-!
# Row locks, snapshots and re-checking

How a multi-version server carries out the usual kinds of statement, over any store of rows.

A statement sees a `View`: the snapshot `base` it reads, the newest committed state `cur` with its
own transaction's writes, and the uncommitted writes of the others, whose rows are locked. Reading
uses `base` only. Changing a row first finds it in `base`, then locks it, and then looks at it again
in `cur`: under read committed the condition is re-evaluated on the row found there, under
repeatable read a changed row is a serialization failure. These rules are `View.update`, `upsert`,
`insert` and `lockRows`; each comes with one lemma that says everything it can do. `engine` turns
such an evaluator into an `Engine`, with the chain and lock laws holding by construction.
-/

namespace Txn

/-- The errors the rules below raise. -/
structure Faults (Err : Type) where
  uniqueViolation : Err
  foreignKeyViolation : Err
  serializationFailure : Err
  lockNotAvailable : Err
  aborted : Err

/-- What a statement sees. `plan` ranks rows that an ordering leaves tied. -/
structure View (Db Key : Type) (Row : Key → Type) (Stmt : Type) where
  plan : Key → ℕ
  iso : Isolation
  base : Db
  cur : Db
  others : List (Write Key Row Stmt)

/-- The outcome of a statement: it waits for a lock, fails, or is done with a result and the rows
it leaves changed. -/
inductive Outcome (Key : Type) (Row : Key → Type) (Err α : Type)
  | wait
  | fail (e : Err)
  | done (a : α) (changes : List (Σ k : Key, Option (Row k)))

/-- What a locking read does with a row that is locked already. -/
inductive LockMode
  | skipLocked
  | nowait
  deriving DecidableEq, Repr

section

variable {Db Key Stmt Err α β : Type} {Row : Key → Type}

namespace Outcome

/-- A read: a result and no changes. -/
def read (a : α) : Outcome Key Row Err α := .done a []

def map (f : α → β) : Outcome Key Row Err α → Outcome Key Row Err β
  | wait => wait
  | fail e => fail e
  | done a changes => done (f a) changes

theorem map_eq_done {f : α → β} {o : Outcome Key Row Err α} {b : β}
    {ch : List (Σ k : Key, Option (Row k))} :
    o.map f = .done b ch ↔ ∃ a, o = .done a ch ∧ f a = b := by
  cases o with
  | wait => simp [map]
  | fail e => simp [map]
  | done a ch' =>
    simp only [map, done.injEq]
    constructor
    · rintro ⟨rfl, rfl⟩
      exact ⟨a, ⟨rfl, rfl⟩, rfl⟩
    · rintro ⟨a', ⟨rfl, rfl⟩, rfl⟩
      exact ⟨rfl, rfl⟩

theorem map_eq_fail {f : α → β} {o : Outcome Key Row Err α} {e : Err} :
    o.map f = .fail e ↔ o = .fail e := by
  cases o <;> simp [map]

end Outcome

namespace Store

variable (S : Store Db Key Row)

/-- The changes of a statement as writes, each with the row it replaces. -/
def record (s : Stmt) : Db → List (Σ k : Key, Option (Row k)) → List (Write Key Row Stmt)
  | _, [] => []
  | db, ⟨k, r⟩ :: rest => ⟨k, S.look db k, r, s⟩ :: record s (S.put db k r) rest

theorem chain_record (s : Stmt) (db : Db) (ch : List (Σ k : Key, Option (Row k))) :
    S.Chain db (S.record s db ch) := by
  induction ch generalizing db with
  | nil => trivial
  | cons c ch ih => exact ⟨rfl, ih _⟩

/-- The record of a row put where there was none. -/
theorem record_insert {s : Stmt} {db : Db} {k : Key} {r : Option (Row k)}
    (h : S.look db k = none) : S.record s db [⟨k, r⟩] = [⟨k, none, r, s⟩] := by
  rw [record, h]
  rfl

/-- Deletions leave no row under their keys, and every other row as it is. -/
theorem look_apply_deletions [DecidableEq Key] (s : Stmt) (db : Db) (ks : List Key) (k : Key) :
    S.look (S.apply db (S.record s db (ks.map fun k ↦ ⟨k, none⟩))) k =
      if k ∈ ks then none else S.look db k := by
  induction ks generalizing db with
  | nil => rfl
  | cons k₀ ks ih =>
    rw [List.map_cons, record, apply_cons, ih]
    by_cases hk : k = k₀
    · subst hk
      rw [S.look_put_self, ite_self, if_pos List.mem_cons_self]
    · rw [S.look_put_of_ne _ _ _ _ hk]
      exact if_congr (by rw [List.mem_cons, or_iff_right hk]) rfl rfl

theorem stmt_of_mem_record {s : Stmt} {db : Db} {ch : List (Σ k : Key, Option (Row k))}
    {w : Write Key Row Stmt} (hw : w ∈ S.record s db ch) : w.stmt = s := by
  induction ch generalizing db with
  | nil => cases hw
  | cons c ch ih =>
    rcases List.mem_cons.1 hw with rfl | hw
    · rfl
    · exact ih hw

theorem map_key_record (s : Stmt) (db : Db) (ch : List (Σ k : Key, Option (Row k))) :
    (S.record s db ch).map Write.key = ch.map Sigma.fst := by
  induction ch generalizing db with
  | nil => rfl
  | cons c ch ih => simp [record, ih]

/-- A statement that touches each row once replaces the rows found at the start. -/
theorem record_eq_map {s : Stmt} {db : Db} {ch : List (Σ k : Key, Option (Row k))}
    (hnd : (ch.map Sigma.fst).Nodup) :
    S.record s db ch = ch.map fun c ↦ ⟨c.1, S.look db c.1, c.2, s⟩ := by
  induction ch generalizing db with
  | nil => rfl
  | cons c ch ih =>
    rw [List.map_cons, List.nodup_cons] at hnd
    rw [record, List.map_cons, ih hnd.2]
    refine congrArg _ (List.map_congr_left fun d hd ↦ ?_)
    have hne : d.1 ≠ c.1 := fun h ↦ hnd.1 (h ▸ List.mem_map_of_mem hd)
    rw [S.look_put_of_ne _ _ _ _ hne]

theorem mem_record {s : Stmt} {db : Db} {ch : List (Σ k : Key, Option (Row k))}
    (hnd : (ch.map Sigma.fst).Nodup) {w : Write Key Row Stmt} :
    w ∈ S.record s db ch ↔ ∃ c ∈ ch, w = ⟨c.1, S.look db c.1, c.2, s⟩ := by
  rw [S.record_eq_map hnd, List.mem_map]
  exact exists_congr fun c ↦ and_congr_right fun _ ↦ eq_comm

end Store

namespace View

variable [DecidableEq Key] (v : View Db Key Row Stmt)

/-- Whether another transaction holds the row. -/
def held (k : Key) : Bool := v.others.any fun w ↦ w.key = k

/-- Nothing is locked, and nothing has changed since the snapshot. -/
structure Calm : Prop where
  others : v.others = []
  base : v.base = v.cur

variable (S : Store Db Key Row) (F : Faults Err)

/-- `UPDATE … WHERE p` on the row under `k`, giving the new row if there was one to update. -/
def update (k : Key) [DecidableEq (Row k)] (p : Row k → Bool) (f : Row k → Row k) :
    Outcome Key Row Err (Option (Row k)) :=
  if (S.look v.base k).any p then
    if v.held k then .wait
    else if v.iso = .repeatableRead ∧ S.look v.cur k ≠ S.look v.base k then
      .fail F.serializationFailure
    else
      match S.look v.cur k with
      | some r => if p r then .done (some (f r)) [⟨k, some (f r)⟩] else .read none
      | none => .read none
  else .read none

/-- `INSERT … ON CONFLICT DO UPDATE` on the row under `k`, giving the new row. -/
def upsert (k : Key) [DecidableEq (Row k)] (r : Row k) (f : Row k → Row k) :
    Outcome Key Row Err (Row k) :=
  if v.held k then .wait
  else
    match S.look v.cur k with
    | none => .done r [⟨k, some r⟩]
    | some old =>
      if v.iso = .repeatableRead ∧ S.look v.cur k ≠ S.look v.base k then
        .fail F.serializationFailure
      else .done (f old) [⟨k, some (f old)⟩]

/-- `INSERT` of the row under `k`, which refers to rows that exist if `fk` holds. -/
def insert (k : Key) (r : Row k) (fk : Bool) : Outcome Key Row Err Unit :=
  if v.held k then .wait
  else if (S.look v.cur k).isSome then .fail F.uniqueViolation
  else if !fk then .fail F.foreignKeyViolation
  else .done () [⟨k, some r⟩]

/-- `INSERT` of several rows with different keys, which refer to rows that exist if `fk` holds. -/
def insertAll (fk : Bool) : List (Σ k : Key, Row k) → Outcome Key Row Err Unit
  | [] => .read ()
  | e :: es =>
    match v.insert S F e.1 e.2 fk with
    | .wait => .wait
    | .fail err => .fail err
    | .done _ ch =>
      match insertAll fk es with
      | .wait => .wait
      | .fail err => .fail err
      | .done _ ch' => .done () (ch ++ ch')

/-- `UPDATE` of several rows, giving the keys of those updated. -/
def updateAll [∀ k, DecidableEq (Row k)] (p : (k : Key) → Row k → Bool)
    (f : (k : Key) → Row k → Row k) : List Key → Outcome Key Row Err (List Key)
  | [] => .read []
  | k :: ks =>
    match v.update S F k (p k) (f k) with
    | .wait => .wait
    | .fail e => .fail e
    | .done r ch =>
      match updateAll p f ks with
      | .wait => .wait
      | .fail e => .fail e
      | .done ks' ch' => .done (if r.isSome then k :: ks' else ks') (ch ++ ch')

/-- `SELECT … FOR UPDATE` of at most `n` of the rows found in the snapshot, in their order. Under
read committed a row that no longer satisfies `p` is left out. -/
def lockRows [∀ k, DecidableEq (Row k)] (mode : LockMode) (p : (k : Key) → Row k → Bool) :
    ℕ → List Key → Outcome Key Row Err (List Key)
  | 0, _ => .read []
  | _ + 1, [] => .read []
  | n + 1, k :: ks =>
    if v.held k then
      match mode with
      | .skipLocked => lockRows mode p (n + 1) ks
      | .nowait => .fail F.lockNotAvailable
    else if v.iso = .repeatableRead ∧ S.look v.cur k ≠ S.look v.base k then
      .fail F.serializationFailure
    else if (S.look v.cur k).any (p k) then
      match lockRows mode p n ks with
      | .wait => .wait
      | .fail e => .fail e
      | .done ks' ch => .done (k :: ks') (⟨k, S.look v.cur k⟩ :: ch)
    else lockRows mode p (n + 1) ks

variable {v S F}

/-- Everything an update can do. -/
theorem update_done {k : Key} [DecidableEq (Row k)] {p : Row k → Bool} {f : Row k → Row k}
    {r : Option (Row k)} {ch : List (Σ k : Key, Option (Row k))}
    (h : v.update S F k p f = .done r ch) :
    (r = none ∧ ch = []) ∨ ∃ old, S.look v.cur k = some old ∧ p old = true ∧ r = some (f old) ∧
      ch = [⟨k, some (f old)⟩] := by
  rw [update] at h
  split at h
  · split at h
    · cases h
    · split at h
      · cases h
      · split at h
        · split at h <;> cases h
          · exact Or.inr ⟨_, by assumption, by assumption, rfl, rfl⟩
          · exact Or.inl ⟨rfl, rfl⟩
        · cases h
          exact Or.inl ⟨rfl, rfl⟩
  · cases h
    exact Or.inl ⟨rfl, rfl⟩

/-- After an update the row is one that it has changed, or one that it does not apply to, unless the
update did not apply to the row of its snapshot. -/
theorem update_settles {k : Key} [DecidableEq (Row k)] {p : Row k → Bool} {f : Row k → Row k}
    {r : Option (Row k)} {ch : List (Σ k : Key, Option (Row k))} (s : Stmt)
    (h : v.update S F k p f = .done r ch) :
    (∀ old, S.look v.base k = some old → p old = false) ∨
      ∀ new, S.look (S.apply v.cur (S.record s v.cur ch)) k = some new →
        p new = false ∨ ∃ old, new = f old := by
  rw [update] at h
  split at h
  · refine Or.inr fun new hnew ↦ ?_
    split at h
    · cases h
    split at h
    · cases h
    split at h
    · rename_i old hold
      split at h
      · cases h
        rw [show S.look (S.apply v.cur (S.record s v.cur [⟨k, some (f old)⟩])) k = some (f old) from
          S.look_put_self _ _ _] at hnew
        exact Or.inr ⟨old, (Option.some.inj hnew).symm⟩
      · rename_i hp
        cases h
        have hsame : some new = some old := hnew.symm.trans hold
        rw [Option.some.inj hsame]
        exact Or.inl (Bool.eq_false_iff.2 hp)
    · rename_i hnone
      cases h
      have habsent : some new = none := hnew.symm.trans hnone
      cases habsent
  · rename_i hbase
    refine Or.inl fun old hold ↦ ?_
    rw [hold, Option.any_some] at hbase
    exact Bool.eq_false_iff.2 hbase

/-- An update of a row that the snapshot and the newest state agree on. -/
theorem update_of_look {k : Key} [DecidableEq (Row k)] {p : Row k → Bool} {f : Row k → Row k}
    {r : Option (Row k)} {ch : List (Σ k : Key, Option (Row k))} {old : Row k}
    (hbase : S.look v.base k = some old) (hcur : S.look v.cur k = some old)
    (h : v.update S F k p f = .done r ch) :
    ch = if p old then [⟨k, some (f old)⟩] else [] := by
  rw [update, hbase, hcur] at h
  by_cases hp : p old = true
  · by_cases hheld : v.held k = true
    · simp [hp, hheld] at h
    · simp only [Option.any_some, hp, if_true, hheld, ne_eq, not_true_eq_false, and_false,
        if_false] at h
      cases h
      rw [if_pos hp]
  · simp only [Option.any_some, hp] at h
    cases h
    rw [if_neg hp]

/-- An update at read committed never fails. -/
theorem update_ne_fail {k : Key} [DecidableEq (Row k)] {p : Row k → Bool} {f : Row k → Row k}
    {e : Err} (hiso : v.iso = .readCommitted) : v.update S F k p f ≠ .fail e := by
  intro h
  rw [update, hiso] at h
  split at h
  · split at h
    · cases h
    · rw [if_neg (by simp)] at h
      split at h
      · split at h <;> cases h
      · cases h
  · cases h

/-- An upsert at read committed never fails. -/
theorem upsert_ne_fail {k : Key} [DecidableEq (Row k)] {r : Row k} {f : Row k → Row k} {e : Err}
    (hiso : v.iso = .readCommitted) : v.upsert S F k r f ≠ .fail e := by
  intro h
  rw [upsert, hiso] at h
  split at h
  · cases h
  · split at h
    · cases h
    · rw [if_neg (by simp)] at h
      cases h

/-- Everything an upsert can do. -/
theorem upsert_done {k : Key} [DecidableEq (Row k)] {r : Row k} {f : Row k → Row k}
    {new : Row k} {ch : List (Σ k : Key, Option (Row k))}
    (h : v.upsert S F k r f = .done new ch) :
    ch = [⟨k, some new⟩] ∧ ((S.look v.cur k = none ∧ new = r) ∨
      ∃ old, S.look v.cur k = some old ∧ new = f old) := by
  rw [upsert] at h
  split at h
  · cases h
  · split at h
    · cases h
      exact ⟨rfl, Or.inl ⟨by assumption, rfl⟩⟩
    · split at h <;> cases h
      exact ⟨rfl, Or.inr ⟨_, by assumption, rfl⟩⟩

theorem Calm.held (h : v.Calm) (k : Key) : v.held k = false := by
  rw [View.held, h.others, List.any_nil]

/-- An update in a calm view changes the row it finds. -/
theorem update_calm {k : Key} [DecidableEq (Row k)] {p : Row k → Bool} {f : Row k → Row k}
    (hcalm : v.Calm) {r : Row k} (hr : S.look v.cur k = some r) (hp : p r = true) :
    v.update S F k p f = .done (some (f r)) [⟨k, some (f r)⟩] := by
  rw [update, hcalm.base, hcalm.held, hr]
  simp [hp]

/-- Everything an insert can do. -/
theorem insert_done {k : Key} {r : Row k} {fk : Bool} {u : Unit}
    {ch : List (Σ k : Key, Option (Row k))} (h : v.insert S F k r fk = .done u ch) :
    S.look v.cur k = none ∧ fk = true ∧ ch = [⟨k, some r⟩] := by
  rw [insert] at h
  split at h
  · cases h
  · split at h
    · cases h
    · split at h <;> cases h
      rename_i hnone hfk
      exact ⟨by simpa using hnone, by simpa using hfk, rfl⟩

/-- Everything an insert of several rows can do. -/
theorem insertAll_done {fk : Bool} {es : List (Σ k : Key, Row k)} {u : Unit}
    {ch : List (Σ k : Key, Option (Row k))} (h : v.insertAll S F fk es = .done u ch) :
    ch = es.map (fun e ↦ ⟨e.1, some e.2⟩) ∧ ∀ e ∈ es, S.look v.cur e.1 = none ∧ fk = true := by
  induction es generalizing ch with
  | nil =>
    cases h
    exact ⟨rfl, by simp⟩
  | cons e es ih =>
    rw [insertAll] at h
    split at h
    · cases h
    · cases h
    · rename_i hfirst
      split at h
      · cases h
      · cases h
      · rename_i hrest
        cases h
        obtain ⟨hnone, hfk, rfl⟩ := insert_done hfirst
        obtain ⟨rfl, hall⟩ := ih hrest
        refine ⟨rfl, fun e' he' ↦ ?_⟩
        rcases List.mem_cons.1 he' with rfl | he'
        · exact ⟨hnone, hfk⟩
        · exact hall e' he'

section

variable [∀ k, DecidableEq (Row k)] {p : (k : Key) → Row k → Bool}

/-- Everything an update of several rows can do. -/
theorem updateAll_done {f : (k : Key) → Row k → Row k} {ks ks' : List Key}
    {ch : List (Σ k : Key, Option (Row k))} (h : v.updateAll S F p f ks = .done ks' ch) :
    (ch.map Sigma.fst).Sublist ks ∧ ch.map Sigma.fst = ks' ∧
      ∀ c ∈ ch, ∃ old, S.look v.cur c.1 = some old ∧ p c.1 old = true ∧
        c.2 = some (f c.1 old) := by
  induction ks generalizing ks' ch with
  | nil =>
    cases h
    exact ⟨.slnil, rfl, by simp⟩
  | cons k ks ih =>
    rw [updateAll] at h
    split at h
    · cases h
    · cases h
    · rename_i r ch₁ hr
      split at h
      · cases h
      · cases h
      · rename_i ks₂ ch₂ hrest
        cases h
        obtain ⟨hsub, hkeys, hall⟩ := ih hrest
        rcases update_done hr with ⟨rfl, rfl⟩ | ⟨old, hold, hp, rfl, rfl⟩
        · exact ⟨hsub.cons k, hkeys, hall⟩
        · refine ⟨hsub.cons_cons k, by simp [hkeys], fun c hc ↦ ?_⟩
          rcases List.mem_cons.1 hc with rfl | hc
          · exact ⟨old, hold, hp, rfl⟩
          · exact hall c hc

/-- Everything a locking read can do. -/
theorem lockRows_done {mode : LockMode} {n : ℕ} {ks ks' : List Key}
    {ch : List (Σ k : Key, Option (Row k))} (h : v.lockRows S F mode p n ks = .done ks' ch) :
    ks'.Sublist ks ∧ ks'.length ≤ n ∧ ch = ks'.map (fun k ↦ ⟨k, S.look v.cur k⟩) ∧
      ∀ k ∈ ks', (S.look v.cur k).any (p k) = true ∧
        (v.iso = .repeatableRead → S.look v.cur k = S.look v.base k) := by
  induction ks generalizing n ks' ch with
  | nil =>
    cases n <;> cases h <;> exact ⟨.slnil, Nat.zero_le _, rfl, by simp⟩
  | cons k ks ih =>
    cases n with
    | zero =>
      cases h
      exact ⟨List.nil_sublist _, Nat.le_refl _, rfl, by simp⟩
    | succ n =>
      unfold lockRows at h
      split at h
      · cases mode with
        | skipLocked =>
          obtain ⟨hsub, hrest⟩ := ih h
          exact ⟨hsub.cons k, hrest⟩
        | nowait => cases h
      · split at h
        · cases h
        · rename_i hsame
          split at h
          · rename_i hp
            split at h
            · cases h
            · cases h
            · rename_i ks₂ ch₂ hrec
              cases h
              obtain ⟨hsub, hlen, hch, hall⟩ := ih hrec
              refine ⟨hsub.cons_cons k, by simpa using hlen, by simp [hch], fun k' hk' ↦ ?_⟩
              rcases List.mem_cons.1 hk' with rfl | hk'
              · refine ⟨hp, fun hiso ↦ ?_⟩
                by_contra hne
                exact hsame ⟨hiso, hne⟩
              · exact hall k' hk'
          · obtain ⟨hsub, hrest⟩ := ih h
            exact ⟨hsub.cons k, hrest⟩

/-- A locking read in a calm view locks the first of the rows it is given. -/
theorem lockRows_calm {mode : LockMode} {n : ℕ} {ks : List Key} (hcalm : v.Calm)
    (hks : ∀ k ∈ ks, (S.look v.cur k).any (p k) = true) :
    v.lockRows S F mode p n ks =
      .done (ks.take n) ((ks.take n).map fun k ↦ ⟨k, S.look v.cur k⟩) := by
  induction ks generalizing n with
  | nil => cases n <;> rfl
  | cons k ks ih =>
    cases n with
    | zero => rfl
    | succ n =>
      have hrest := ih (n := n) fun k' hk' ↦ hks k' (List.mem_cons_of_mem _ hk')
      unfold lockRows
      rw [hcalm.held, hcalm.base, hrest, hks k List.mem_cons_self]
      simp

end

end View

end

/-! ### Engines -/

section

variable {Db Key Stmt Err : Type} {Row : Key → Type} {Res : Stmt → Type}
variable [DecidableEq Key] (S : Store Db Key Row) (F : Faults Err)

/-- Carry out a statement and record its writes; it waits while a row it changes is held. -/
def View.eval (run : View Db Key Row Stmt → (s : Stmt) → Outcome Key Row Err (Res s))
    (v : View Db Key Row Stmt) (s : Stmt) :
    Option (Except Err (Res s) × List (Write Key Row Stmt)) :=
  match run v s with
  | .wait => none
  | .fail e => some (.error e, [])
  | .done a ch =>
    if ch.any fun c ↦ v.held c.1 then none else some (.ok a, S.record s v.cur ch)

namespace View

variable {S} {run : View Db Key Row Stmt → (s : Stmt) → Outcome Key Row Err (Res s)}
variable {v : View Db Key Row Stmt} {s : Stmt}

/-- A statement that succeeded was done, and its writes are its recorded changes, to rows that
nobody else holds. -/
theorem eval_ok {a : Res s} {ws : List (Write Key Row Stmt)}
    (h : v.eval S run s = some (.ok a, ws)) :
    ∃ ch, run v s = .done a ch ∧ ws = S.record s v.cur ch ∧ ∀ c ∈ ch, v.held c.1 = false := by
  simp only [eval] at h
  split at h
  · cases h
  · cases h
  · rename_i a' ch hrun
    split at h <;> cases h
    rename_i hfree
    refine ⟨ch, hrun, rfl, fun c hc ↦ Bool.eq_false_iff.2 fun hheld ↦ ?_⟩
    exact hfree (List.any_eq_true.2 ⟨c, hc, hheld⟩)

/-- A statement that failed wrote nothing. -/
theorem eval_error {e : Err} {ws : List (Write Key Row Stmt)}
    (h : v.eval S run s = some (.error e, ws)) : run v s = .fail e ∧ ws = [] := by
  simp only [eval] at h
  split at h
  · cases h
  · cases h
    exact ⟨by assumption, rfl⟩
  · split at h <;> cases h

/-- The writes of a statement are its recorded changes, or there are none. -/
theorem eval_writes {r : Except Err (Res s)} {ws : List (Write Key Row Stmt)}
    (h : v.eval S run s = some (r, ws)) :
    ws = [] ∨ ∃ a ch, run v s = .done a ch ∧ ws = S.record s v.cur ch ∧
      ∀ c ∈ ch, v.held c.1 = false := by
  cases r with
  | error e => exact Or.inl (eval_error h).2
  | ok a => exact Or.inr ⟨a, eval_ok h⟩

theorem chain_eval {r : Except Err (Res s)} {ws : List (Write Key Row Stmt)}
    (h : v.eval S run s = some (r, ws)) : S.Chain v.cur ws := by
  rcases eval_writes h with rfl | ⟨a, ch, -, rfl, -⟩
  · trivial
  · exact S.chain_record s v.cur ch

theorem unlocked_eval {r : Except Err (Res s)} {ws : List (Write Key Row Stmt)}
    (h : v.eval S run s = some (r, ws)) : ∀ w ∈ ws, ∀ o ∈ v.others, w.key ≠ o.key := by
  intro w hw o ho hk
  rcases eval_writes h with rfl | ⟨a, ch, -, rfl, hfree⟩
  · cases hw
  · have hmem : w.key ∈ ch.map Sigma.fst := by
      rw [← S.map_key_record s v.cur ch]
      exact List.mem_map_of_mem hw
    obtain ⟨c, hc, hcw⟩ := List.mem_map.1 hmem
    have hheld : v.held c.1 = true := List.any_eq_true.2 ⟨o, ho, by simp [hcw, hk]⟩
    rw [hfree c hc] at hheld
    cases hheld

theorem legal_eval {legal : Write Key Row Stmt → Prop}
    (hlegal : ∀ v s a ch, run v s = .done a ch → ∀ w ∈ S.record s v.cur ch, legal w)
    {r : Except Err (Res s)} {ws : List (Write Key Row Stmt)} (h : v.eval S run s = some (r, ws)) :
    ∀ w ∈ ws, legal w := by
  rcases eval_writes h with rfl | ⟨a, ch, hrun, rfl, -⟩
  · simp
  · exact hlegal v s a ch hrun

theorem stmt_eval {r : Except Err (Res s)} {ws : List (Write Key Row Stmt)}
    (h : v.eval S run s = some (r, ws)) : ∀ w ∈ ws, w.stmt = s := by
  rcases eval_writes h with rfl | ⟨a, ch, -, rfl, -⟩
  · simp
  · exact fun w hw ↦ S.stmt_of_mem_record hw

end View

/-- The server that evaluates statements by `run`, whose recorded changes are all `legal`. -/
def engine (run : View Db Key Row Stmt → (s : Stmt) → Outcome Key Row Err (Res s))
    (legal : Write Key Row Stmt → Prop)
    (hlegal : ∀ v s a ch, run v s = .done a ch → ∀ w ∈ S.record s v.cur ch, legal w) :
    Engine Db Key Row Stmt Res Err (Key → ℕ) where
  toStore := S
  eval plan iso s base cur others := View.eval S run ⟨plan, iso, base, cur, others⟩ s
  abortedErr := F.aborted
  legal := legal
  eval_legal h := View.legal_eval hlegal h
  eval_stmt h := View.stmt_eval h
  eval_chain h := View.chain_eval h
  eval_unlocked h := View.unlocked_eval h

/-- The same for a server that leaves more open than how ties are ranked. -/
def openEngine {Plan : Type} (abortedErr : Err)
    (run : Plan → View Db Key Row Stmt → (s : Stmt) → Outcome Key Row Err (Res s))
    (legal : Write Key Row Stmt → Prop)
    (hlegal : ∀ plan v s a ch, run plan v s = .done a ch → ∀ w ∈ S.record s v.cur ch, legal w) :
    Engine Db Key Row Stmt Res Err Plan where
  toStore := S
  eval plan iso s base cur others :=
    View.eval S (run plan) ⟨fun _ ↦ 0, iso, base, cur, others⟩ s
  abortedErr := abortedErr
  legal := legal
  eval_legal h := View.legal_eval (hlegal _) h
  eval_stmt h := View.stmt_eval h
  eval_chain h := View.chain_eval h
  eval_unlocked h := View.unlocked_eval h

variable {S F} {run : View Db Key Row Stmt → (s : Stmt) → Outcome Key Row Err (Res s)}
variable {legal : Write Key Row Stmt → Prop}
variable {hlegal : ∀ v s a ch, run v s = .done a ch → ∀ w ∈ S.record s v.cur ch, legal w}

/-- A statement that succeeded was done, and its writes are its recorded changes. -/
theorem engine_eval_ok {plan : Key → ℕ} {iso : Isolation} {s : Stmt} {base cur : Db}
    {others ws : List (Write Key Row Stmt)} {a : Res s}
    (h : (engine S F run legal hlegal).eval plan iso s base cur others = some (.ok a, ws)) :
    ∃ ch, run ⟨plan, iso, base, cur, others⟩ s = .done a ch ∧ ws = S.record s cur ch := by
  obtain ⟨ch, hrun, hws, -⟩ := View.eval_ok h
  exact ⟨ch, hrun, hws⟩

/-- A statement that failed wrote nothing. -/
theorem engine_eval_error {plan : Key → ℕ} {iso : Isolation} {s : Stmt} {base cur : Db}
    {others ws : List (Write Key Row Stmt)} {e : Err}
    (h : (engine S F run legal hlegal).eval plan iso s base cur others = some (.error e, ws)) :
    run ⟨plan, iso, base, cur, others⟩ s = .fail e ∧ ws = [] :=
  View.eval_error h

end

end Txn

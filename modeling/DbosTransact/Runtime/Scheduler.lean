import DbosTransact.Runtime.Invoke
import DbosTransact.Serialize.Values
import Mathlib.Data.Prod.Lex
import Mathlib.Data.String.Basic

/-!
# Cron schedules

`run_scheduler` fires a workflow at every tick of a cron schedule. Its cursor is the tick it has
fired last and not the clock, so a loop that is late takes up the ticks it has missed one after the
other. Every executor runs the loop of each schedule; what makes a tick run once is the id of its
workflow, which the name and the tick determine.

A `Schedule` is what the loop knows of a cron expression, the next tick after an instant. `Fleet` is
a runtime system together with the loops that start workflows in it, and `scheduler_ticks` what
holds in each of its runs: a loop has attempted the ticks from its start up to its cursor, each of
them once, and the body of a tick is launched at most once by all loops together as long as the row
of its workflow is not deleted. A loop that is late attempts its tick after such a deletion, and
launches the body again (`tick_launched_twice`).
-/

namespace Dbos

open Txn

/-! ### Instants -/

/-- `DateTime<Utc>`. The clock starts in 1970. -/
@[ext] structure DateTime where
  year : ℕ
  month : ℕ
  day : ℕ
  hour : ℕ
  minute : ℕ
  second : ℕ
  nanosecond : ℕ
  month_le : month ≤ 12
  day_le : day ≤ 31
  hour_lt : hour < 24
  minute_lt : minute < 60
  second_lt : second < 60

namespace DateTime

open JsonText (digitChar printNat digitChar_spec isDigit_of_mem_printNat ofDigits_printNat)

/-- The fields in the order in which they are compared. -/
def key (t : DateTime) : ℕ ×ₗ ℕ ×ₗ ℕ ×ₗ ℕ ×ₗ ℕ ×ₗ ℕ ×ₗ ℕ :=
  toLex (t.year, toLex (t.month, toLex (t.day, toLex (t.hour, toLex (t.minute,
    toLex (t.second, t.nanosecond))))))

theorem key_injective : Function.Injective key := by
  intro t u h
  simp only [key, EmbeddingLike.apply_eq_iff_eq, Prod.mk.injEq] at h
  obtain ⟨h₁, h₂, h₃, h₄, h₅, h₆, h₇⟩ := h
  exact DateTime.ext h₁ h₂ h₃ h₄ h₅ h₆ h₇

instance : LinearOrder DateTime := LinearOrder.lift' key key_injective

def twoDigits (n : ℕ) : List Char := [digitChar (n / 10), digitChar (n % 10)]

/-- A year with four digits, or with its sign when it has more. -/
def yearDigits (y : ℕ) : List Char :=
  if y ≤ 9999 then twoDigits (y / 100) ++ twoDigits (y % 100) else '+' :: printNat y

/-- `to_rfc3339_opts(SecondsFormat::Secs, true)` after the year. -/
def afterYear (t : DateTime) : List Char :=
  '-' :: twoDigits t.month ++ '-' :: twoDigits t.day ++ 'T' :: twoDigits t.hour ++
    ':' :: twoDigits t.minute ++ ':' :: twoDigits t.second ++ [ 'Z']

/-- `to_rfc3339_opts(SecondsFormat::Secs, true)`. -/
def toRfc3339 (t : DateTime) : String := String.ofList (yearDigits t.year ++ t.afterYear)

theorem digitChar_injective {a b : ℕ} (ha : a < 10) (hb : b < 10)
    (h : digitChar a = digitChar b) : a = b := by
  rw [← (digitChar_spec a ha).2, h, (digitChar_spec b hb).2]

theorem twoDigits_injective {a b : ℕ} (ha : a < 100) (hb : b < 100)
    (h : twoDigits a = twoDigits b) : a = b := by
  obtain ⟨htens, hones⟩ : digitChar (a / 10) = digitChar (b / 10) ∧
      digitChar (a % 10) = digitChar (b % 10) := by
    simpa [twoDigits] using h
  have htens := digitChar_injective (by omega) (by omega) htens
  have hones := digitChar_injective (by omega) (by omega) hones
  omega

theorem isDigit_of_mem_twoDigits {n : ℕ} (hn : n < 100) {c : Char} (h : c ∈ twoDigits n) :
    c.isDigit = true := by
  have hdigits : c = digitChar (n / 10) ∨ c = digitChar (n % 10) := by
    simpa [twoDigits] using h
  obtain rfl | rfl := hdigits
  · exact (digitChar_spec _ (by omega)).1
  · exact (digitChar_spec _ (by omega)).1

theorem not_mem_yearDigits (y : ℕ) : '-' ∉ yearDigits y := by
  intro h
  unfold yearDigits at h
  split at h
  · obtain hc | hc := List.mem_append.1 h
    · exact absurd (isDigit_of_mem_twoDigits (by omega) hc) (by decide)
    · exact absurd (isDigit_of_mem_twoDigits (by omega) hc) (by decide)
  · obtain hc | hc := List.mem_cons.1 h
    · cases hc
    · exact absurd (isDigit_of_mem_printNat hc) (by decide)

theorem yearDigits_injective {y y' : ℕ} (h : yearDigits y = yearDigits y') : y = y' := by
  have hplus : ∀ {y : ℕ}, y ≤ 9999 → '+' ≠ digitChar (y / 100 / 10) := by
    intro y hy heq
    exact absurd (digitChar_spec (y / 100 / 10) (by omega)).1 (by rw [← heq]; decide)
  unfold yearDigits at h
  split at h <;> split at h
  · obtain ⟨hfront, hback⟩ := List.append_inj h rfl
    have hfront := twoDigits_injective (by omega) (by omega) hfront
    have hback := twoDigits_injective (by omega) (by omega) hback
    omega
  · rename_i hy _
    exact absurd (List.cons.inj h).1.symm (hplus hy)
  · rename_i _ hy
    exact absurd (List.cons.inj h).1 (hplus hy)
  · rw [← ofDigits_printNat y, (List.cons.inj h).2, ofDigits_printNat]

theorem afterYear_injective {t u : DateTime} (h : t.afterYear = u.afterYear) :
    t.month = u.month ∧ t.day = u.day ∧ t.hour = u.hour ∧ t.minute = u.minute ∧
      t.second = u.second := by
  have hpairs : twoDigits t.month = twoDigits u.month ∧ twoDigits t.day = twoDigits u.day ∧
      twoDigits t.hour = twoDigits u.hour ∧ twoDigits t.minute = twoDigits u.minute ∧
        twoDigits t.second = twoDigits u.second := by
    simpa [afterYear, twoDigits, and_assoc] using h
  obtain ⟨hmonth, hday, hhour, hminute, hsecond⟩ := hpairs
  have htm := t.month_le
  have hum := u.month_le
  have htd := t.day_le
  have hud := u.day_le
  have hth := t.hour_lt
  have huh := u.hour_lt
  have htn := t.minute_lt
  have hun := u.minute_lt
  have hts := t.second_lt
  have hus := u.second_lt
  exact ⟨twoDigits_injective (by omega) (by omega) hmonth,
    twoDigits_injective (by omega) (by omega) hday,
    twoDigits_injective (by omega) (by omega) hhour,
    twoDigits_injective (by omega) (by omega) hminute,
    twoDigits_injective (by omega) (by omega) hsecond⟩

/-- What stands before the last of a character, and what stands after it. -/
theorem eq_of_last {c : Char} {l l' m m' : List Char} (hm : c ∉ m) (hm' : c ∉ m')
    (h : l ++ c :: m = l' ++ c :: m') : l = l' ∧ m = m' := by
  obtain ⟨rest, hl, hrest⟩ | ⟨rest, hl, hrest⟩ := List.append_eq_append_iff.1 h
  · cases rest with
    | nil =>
      rw [hl, List.append_nil]
      exact ⟨rfl, (List.cons.inj hrest).2⟩
    | cons a rest =>
      refine absurd ?_ hm
      rw [(List.cons.inj hrest).2]
      exact List.mem_append_right _ List.mem_cons_self
  · cases rest with
    | nil =>
      rw [hl, List.append_nil]
      exact ⟨rfl, (List.cons.inj hrest).2.symm⟩
    | cons a rest =>
      refine absurd ?_ hm'
      rw [(List.cons.inj hrest).2]
      exact List.mem_append_right _ List.mem_cons_self

end DateTime

/-- `format!("{name}-{}", …)`: the workflow of a tick. -/
def tickId (name : String) (tick : DateTime) : String := s!"{name}-{tick.toRfc3339}"

/-- Different ticks, or ticks of schedules with different names, have different workflows. -/
theorem tickId_injective {name name' : String} {t t' : DateTime} (ht : t.nanosecond = 0)
    (ht' : t'.nanosecond = 0) (h : tickId name t = tickId name' t') : name = name' ∧ t = t' := by
  have hlist : (name.toList ++ '-' :: DateTime.yearDigits t.year) ++ t.afterYear =
      (name'.toList ++ '-' :: DateTime.yearDigits t'.year) ++ t'.afterYear := by
    have htext : name ++ "-" ++ t.toRfc3339 = name' ++ "-" ++ t'.toRfc3339 := h
    simpa [DateTime.toRfc3339] using congrArg String.toList htext
  obtain ⟨hfront, hback⟩ := List.append_inj' hlist rfl
  obtain ⟨hname, hyear⟩ := DateTime.eq_of_last (DateTime.not_mem_yearDigits _)
    (DateTime.not_mem_yearDigits _) hfront
  obtain ⟨hmonth, hday, hhour, hminute, hsecond⟩ := DateTime.afterYear_injective hback
  exact ⟨String.toList_inj.1 hname, DateTime.ext (DateTime.yearDigits_injective hyear) hmonth hday
    hhour hminute hsecond (ht.trans ht'.symm)⟩

/-! ### `run_scheduler` -/

/-- A cron schedule: its ticks, each on a whole second, and `Schedule::after(t).next()`, the first
one later than `t`. -/
structure Schedule where
  ticks : Set DateTime
  after : DateTime → Option DateTime
  whole : ∀ t ∈ ticks, t.nanosecond = 0
  after_some : ∀ t u, after t = some u → IsLeast {v | v ∈ ticks ∧ t < v} u
  after_none : ∀ t, after t = none → ∀ v ∈ ticks, ¬ t < v

/-- One call of `run_scheduler`, with the expression parsed. -/
structure Scheduler where
  inner : DbosInner
  name : String
  schedule : Schedule

/-- Where a loop stands. -/
inductive Phase
  /-- At its top. -/
  | idle
  /-- In the `select!`, until the tick or its cancellation. -/
  | waiting (next : DateTime)
  /-- In `start_workflow`, which is session `session`. -/
  | starting (session : ℕ)
  /-- It has returned, because it was cancelled or there are no further ticks. -/
  | stopped (cancelled : Bool)
  deriving DecidableEq

/-- A loop: when it has started, the tick before the next one, and the ticks it has attempted with
the sessions that start their workflows. -/
structure LoopState where
  start : DateTime
  last : DateTime
  attempts : List (DateTime × ℕ) := []
  phase : Phase := .idle

/-- A runtime system and the loops that start workflows in it. -/
structure Fleet (V : Type) where
  system : RuntimeSystem V
  loops : ℕ → Option LoopState := fun _ ↦ none

inductive FleetLabel (V : Type)
  /-- A step of a session, or another operation. -/
  | system (l : RuntimeLabel V)
  /-- Loop `i` starts: `let mut last = Utc::now()`. -/
  | launch (i : ℕ) (now : DateTime)
  /-- `schedule.after(&last).next()`. -/
  | next (i : ℕ)
  /-- The token is cancelled in the `select!`. -/
  | cancel (i : ℕ)
  /-- The sleep ends, whatever the clock shows; session `k` starts the workflow. -/
  | fire (i k : ℕ)
  /-- `start_workflow` returns, with a handle or with an error that is logged. -/
  | started (i : ℕ)

section

variable [SerdeJson] {V : Type}

/-- `encode_input(&ScheduledWorkflowInput { scheduled_time }, Portable)`. -/
def scheduledInput (tick : DateTime) : Except DbosError String :=
  encodeInput (Json.object [("scheduled_time", .string tick.toRfc3339)]) .portable

/-- The start of the workflow of a tick. -/
def tickStart (name : String) (tick : DateTime) (encoded : String) : Operation V :=
  .call (.runWorkflow name (some encoded) { workflowId := some (tickId name tick) } none)

/-- Whether a session has returned, or was given up. -/
def ended (S : RuntimeSystem V) (k : ℕ) : Bool :=
  match S.sessions.lookup k with
  | none => true
  | some s =>
    match s.prog with
    | .pure _ => true
    | _ => false

namespace Fleet

/-- No loop has started. -/
def init (db₀ : Db) (time : ℤ) : Fleet V := { system := System.init db₀ time }

def setLoop (F : Fleet V) (i : ℕ) (L : LoopState) : Fleet V :=
  { F with loops := Function.update F.loops i (some L) }

variable (valid : DbMoment → (q : Ask) → q.Ans → Bool) (cron : ℕ → Scheduler)
variable (executor : ℕ → DbosInner) (ops : ℕ → Operation V)

def step (F : Fleet V) : FleetLabel V → Option (Fleet V)
  | .system l => (F.system.step server valid l).map fun S ↦ { F with system := S }
  | .launch i now =>
    match F.loops i with
    | none => some (F.setLoop i { start := now, last := now })
    | some _ => none
  | .next i =>
    match F.loops i with
    | some ⟨start, last, attempts, .idle⟩ =>
      match (cron i).schedule.after last with
      | none => some (F.setLoop i ⟨start, last, attempts, .stopped false⟩)
      | some next => some (F.setLoop i ⟨start, last, attempts, .waiting next⟩)
    | _ => none
  | .cancel i =>
    match F.loops i with
    | some ⟨start, last, attempts, .waiting _⟩ =>
      some (F.setLoop i ⟨start, last, attempts, .stopped true⟩)
    | _ => none
  | .fire i k =>
    match F.loops i with
    | some ⟨start, _, attempts, .waiting next⟩ =>
      match scheduledInput next with
      | .error _ => some (F.setLoop i ⟨start, next, attempts, .idle⟩)
      | .ok encoded =>
        (F.system.step server valid (.spawn k
          ((tickStart (cron i).name next encoded).program (executor k)))).map fun S ↦
            { F with system := S }.setLoop i ⟨start, next, attempts ++ [(next, k)], .starting k⟩
    | _ => none
  | .started i =>
    match F.loops i with
    | some ⟨start, last, attempts, .starting k⟩ =>
      if ended F.system k then some (F.setLoop i ⟨start, last, attempts, .idle⟩) else none
    | _ => none

/-- The sessions carry out any operations. Those of a loop are on its executor, and are known as the
starts of the ticks it waits for. -/
def Ok (F : Fleet V) : FleetLabel V → Prop
  | .system l => Carries executor ops l
  | .fire i k => executor k = (cron i).inner ∧ ∀ L t encoded, F.loops i = some L →
      L.phase = .waiting t → scheduledInput t = .ok encoded →
        ops k = tickStart (cron i).name t encoded
  | _ => True

/-- In a run that has come to `F`, the session of an attempt of loop `i` was spawned, on the
executor of the loop, as the start of the workflow of the tick. -/
def Started (db₀ : Db) (time : ℤ) (F : Fleet V) (i : ℕ) (attempt : DateTime × ℕ) : Prop :=
  ∃ (encoded : String) (F₀ F₁ : Fleet V), scheduledInput attempt.1 = .ok encoded ∧
    ops attempt.2 = tickStart (cron i).name attempt.1 encoded ∧
    Run (step valid cron executor) (Ok cron executor ops) (init db₀ time) F₀ ∧
    F₀.system.step server valid (.spawn attempt.2
      ((tickStart (cron i).name attempt.1 encoded).program (cron i).inner)) = some F₁.system ∧
    Run (step valid cron executor) (Ok cron executor ops) F₁ F

end Fleet

/-! ### What a loop has attempted -/

/-- The input of a tick can always be encoded. -/
theorem exists_scheduledInput (tick : DateTime) :
    ∃ encoded, scheduledInput tick = .ok encoded :=
  ⟨_, rfl⟩

omit [SerdeJson] in
/-- What a step does to a loop. -/
inductive LoopState.Moves (schedule : Schedule) : Option LoopState → LoopState → Prop
  | launch (now : DateTime) : Moves schedule none ⟨now, now, [], .idle⟩
  | exhausted {start last attempts} (h : schedule.after last = none) :
      Moves schedule (some ⟨start, last, attempts, .idle⟩) ⟨start, last, attempts, .stopped false⟩
  | next {start last attempts t} (h : schedule.after last = some t) :
      Moves schedule (some ⟨start, last, attempts, .idle⟩) ⟨start, last, attempts, .waiting t⟩
  | cancel {start last attempts t} :
      Moves schedule (some ⟨start, last, attempts, .waiting t⟩)
        ⟨start, last, attempts, .stopped true⟩
  | fire {start last attempts t} (k : ℕ) :
      Moves schedule (some ⟨start, last, attempts, .waiting t⟩)
        ⟨start, t, attempts ++ [(t, k)], .starting k⟩
  | started {start last attempts k} :
      Moves schedule (some ⟨start, last, attempts, .starting k⟩) ⟨start, last, attempts, .idle⟩

namespace Fleet

variable {valid : DbMoment → (q : Ask) → q.Ans → Bool} {cron : ℕ → Scheduler}
variable {executor : ℕ → DbosInner} {F F' : Fleet V} {l : FleetLabel V}

/-- What the step of a loop does beside moving it: nothing, or it attempts the tick the loop has
waited for, and spawns the session that starts its workflow. -/
inductive Effect (valid : DbMoment → (q : Ask) → q.Ans → Bool) (cron : ℕ → Scheduler)
    (executor : ℕ → DbosInner) (F F' : Fleet V) (i : ℕ) (L : LoopState) : FleetLabel V → Prop
  | none {l' : FleetLabel V} (hsystem : F'.system = F.system)
      (hattempts : ∀ a ∈ L.attempts, ∃ L₀, F.loops i = some L₀ ∧ a ∈ L₀.attempts) :
      Effect valid cron executor F F' i L l'
  | attempt (L₀ : LoopState) (k : ℕ) (t : DateTime) (encoded : String)
      (hloop : F.loops i = some L₀) (hphase : L₀.phase = .waiting t)
      (hattempts : L.attempts = L₀.attempts ++ [(t, k)]) (hencoded : scheduledInput t = .ok encoded)
      (hspawn : F.system.step server valid (.spawn k
        ((tickStart (cron i).name t encoded).program (executor k))) = some F'.system) :
      Effect valid cron executor F F' i L (.fire i k)

/-- A step of a fleet is one of a session, or one of a loop, which may spawn a session. -/
theorem step_cases (h : F.step valid cron executor l = some F') :
    (F'.loops = F.loops ∧
      ∃ l', l = .system l' ∧ F.system.step server valid l' = some F'.system) ∨
    ∃ i L, LoopState.Moves (cron i).schedule (F.loops i) L ∧
      F'.loops = Function.update F.loops i (some L) ∧ Effect valid cron executor F F' i L l := by
  cases l with
  | system l =>
    obtain ⟨S, hS, rfl⟩ := Option.map_eq_some_iff.1 h
    exact Or.inl ⟨rfl, l, rfl, hS⟩
  | launch i now =>
    simp only [step] at h
    split at h
    · rename_i hnone
      cases h
      exact Or.inr ⟨i, _, hnone ▸ .launch now, rfl, .none rfl (by simp)⟩
    · cases h
  | next i =>
    simp only [step] at h
    split at h
    · rename_i start last attempts hloop
      split at h
      · rename_i hafter
        cases h
        exact Or.inr ⟨i, _, hloop ▸ .exhausted hafter, rfl, .none rfl fun _ ha ↦ ⟨_, hloop, ha⟩⟩
      · rename_i t hafter
        cases h
        exact Or.inr ⟨i, _, hloop ▸ .next hafter, rfl, .none rfl fun _ ha ↦ ⟨_, hloop, ha⟩⟩
    · cases h
  | cancel i =>
    simp only [step] at h
    split at h
    · rename_i start last attempts t hloop
      cases h
      exact Or.inr ⟨i, _, hloop ▸ .cancel, rfl, .none rfl fun _ ha ↦ ⟨_, hloop, ha⟩⟩
    · cases h
  | fire i k =>
    simp only [step] at h
    split at h
    · rename_i start last attempts t hloop
      obtain ⟨encoded, hencoded⟩ := exists_scheduledInput t
      rw [hencoded] at h
      obtain ⟨S, hS, rfl⟩ := Option.map_eq_some_iff.1 h
      exact Or.inr ⟨i, _, hloop ▸ .fire k, rfl, .attempt _ k t encoded hloop rfl rfl hencoded hS⟩
    · cases h
  | started i =>
    simp only [step] at h
    split at h
    · rename_i start last attempts k hloop
      split at h
      · cases h
        exact Or.inr ⟨i, _, hloop ▸ .started, rfl, .none rfl fun _ ha ↦ ⟨_, hloop, ha⟩⟩
      · cases h
    · cases h

end Fleet

omit [SerdeJson] in
/-- The attempts of a loop are the ticks after its start and up to its cursor, each once and in
order; what it waits for is the next one; and it ends by itself only when there is none. -/
structure LoopState.Follows (schedule : Schedule) (L : LoopState) : Prop where
  sorted : (L.attempts.map Prod.fst).Pairwise (· < ·)
  exactly : ∀ t, t ∈ L.attempts.map Prod.fst ↔ t ∈ schedule.ticks ∧ L.start < t ∧ t ≤ L.last
  start_le : L.start ≤ L.last
  waiting : ∀ t, L.phase = .waiting t → IsLeast {v | v ∈ schedule.ticks ∧ L.last < v} t
  stopped : L.phase = .stopped false → ∀ v ∈ schedule.ticks, v ≤ L.last

omit [SerdeJson] in
/-- **Step.** -/
theorem LoopState.Follows.move {schedule : Schedule} {before : Option LoopState} {L : LoopState}
    (h : ∀ L, before = some L → L.Follows schedule) (hmove : LoopState.Moves schedule before L) :
    L.Follows schedule := by
  cases hmove with
  | launch now =>
    refine ⟨List.Pairwise.nil, fun t ↦ ?_, le_rfl, fun t ht ↦ (by cases ht), fun hs ↦ (by cases hs)⟩
    simp only [List.map_nil, List.not_mem_nil, false_iff]
    rintro ⟨-, hlt, hle⟩
    exact absurd hle (not_le.2 hlt)
  | exhausted hafter =>
    have hL := h _ rfl
    exact ⟨hL.sorted, hL.exactly, hL.start_le, fun t ht ↦ (by cases ht), fun _ v hv ↦
      not_lt.1 (schedule.after_none _ hafter v hv)⟩
  | next hafter =>
    have hL := h _ rfl
    refine ⟨hL.sorted, hL.exactly, hL.start_le, ?_, fun hs ↦ (by cases hs)⟩
    rintro t ⟨⟩
    exact schedule.after_some _ _ hafter
  | cancel =>
    have hL := h _ rfl
    exact ⟨hL.sorted, hL.exactly, hL.start_le, fun t ht ↦ (by cases ht), fun hs ↦ (by cases hs)⟩
  | started =>
    have hL := h _ rfl
    exact ⟨hL.sorted, hL.exactly, hL.start_le, fun t ht ↦ (by cases ht), fun hs ↦ (by cases hs)⟩
  | @fire start last attempts t k =>
    have hL := h _ rfl
    obtain ⟨⟨htick, hlast⟩, hleast⟩ := hL.waiting t rfl
    refine ⟨?_, fun u ↦ ?_, hL.start_le.trans hlast.le, fun t ht ↦ (by cases ht),
      fun hs ↦ (by cases hs)⟩
    · show ((attempts ++ [(t, k)]).map Prod.fst).Pairwise (· < ·)
      rw [List.map_append, List.pairwise_append]
      refine ⟨hL.sorted, List.pairwise_singleton _ _, fun u hu v hv ↦ ?_⟩
      rw [List.mem_singleton.1 hv]
      exact lt_of_le_of_lt ((hL.exactly u).1 hu).2.2 hlast
    · show u ∈ (attempts ++ [(t, k)]).map Prod.fst ↔ u ∈ schedule.ticks ∧ start < u ∧ u ≤ t
      rw [List.map_append, List.mem_append, hL.exactly u]
      constructor
      · rintro (⟨hu, hstart, hle⟩ | hu)
        · exact ⟨hu, hstart, hle.trans hlast.le⟩
        · rw [List.mem_singleton.1 hu]
          exact ⟨htick, lt_of_le_of_lt hL.start_le hlast, le_rfl⟩
      · rintro ⟨hu, hstart, hle⟩
        obtain hbefore | hafter := le_or_gt u last
        · exact Or.inl ⟨hu, hstart, hbefore⟩
        · rw [le_antisymm hle (hleast ⟨hu, hafter⟩)]
          exact Or.inr List.mem_cons_self

namespace Fleet

variable {valid : DbMoment → (q : Ask) → q.Ans → Bool} {cron : ℕ → Scheduler}
variable {executor : ℕ → DbosInner} {ops : ℕ → Operation V} {db₀ : Db} {time : ℤ} {F : Fleet V}

/-- The starts of a loop are operations of the system like others. -/
theorem system_run (h : Run (step valid cron executor) (Ok cron executor ops) (init db₀ time) F) :
    Run (System.step server valid) (fun _ l ↦ Carries executor ops l) (System.init db₀ time)
      F.system := by
  refine Run.invariant (P := fun F : Fleet V ↦ Run (System.step server valid)
    (fun _ l ↦ Carries executor ops l) (System.init db₀ time) F.system) h .refl ?_
  intro F l F' hF hok hs
  obtain ⟨-, l', rfl, hstep⟩ | ⟨i, L, -, -, heffect⟩ := step_cases hs
  · exact hF.tail hok hstep
  · cases heffect with
    | none hsystem _ =>
      rw [hsystem]
      exact hF
    | attempt L₀ k t encoded hloop hphase _ hencoded hspawn =>
      refine hF.tail (fun j p hp ↦ ?_) hspawn
      cases hp
      rw [hok.2 L₀ t encoded hloop hphase hencoded]

/-- Every attempt of a loop has started the workflow of its tick. -/
theorem started_of_run (h : Run (step valid cron executor) (Ok cron executor ops) (init db₀ time) F)
    {i : ℕ} {L : LoopState} (hL : F.loops i = some L) {a : DateTime × ℕ} (ha : a ∈ L.attempts) :
    Started valid cron executor ops db₀ time F i a := by
  refine (Run.invariant (P := fun F : Fleet V ↦
    Run (step valid cron executor) (Ok cron executor ops) (init db₀ time) F ∧
      ∀ i L, F.loops i = some L → ∀ a ∈ L.attempts,
      Started valid cron executor ops db₀ time F i a) h
    ⟨.refl, fun i L hL ↦ by cases hL⟩ ?_).2 i L hL a ha
  intro F l F' ⟨hrun, hF⟩ hok hs
  refine ⟨hrun.tail hok hs, fun i L hL a ha ↦ ?_⟩
  -- what was started before stays so
  have hold : ∀ {L₀}, F.loops i = some L₀ → a ∈ L₀.attempts →
      Started valid cron executor ops db₀ time F' i a := by
    intro L₀ hL₀ ha
    obtain ⟨encoded, F₀, F₁, hencoded, hop, h₀, hspawn, h₁⟩ := hF i L₀ hL₀ a ha
    exact ⟨encoded, F₀, F₁, hencoded, hop, h₀, hspawn, h₁.tail hok hs⟩
  obtain ⟨hloops, -⟩ | ⟨j, L', -, hloops, heffect⟩ := step_cases hs
  · exact hold (hloops ▸ hL) ha
  rw [hloops] at hL
  by_cases hij : i = j
  · subst hij
    rw [Function.update_self] at hL
    cases hL
    cases heffect with
    | none _ hattempts =>
      obtain ⟨L₀, hL₀, ha₀⟩ := hattempts a ha
      exact hold hL₀ ha₀
    | attempt L₀ k t encoded hloop hphase hattempts hencoded hspawn =>
      rw [hattempts] at ha
      rcases List.mem_append.1 ha with ha | ha
      · exact hold hloop ha
      · obtain rfl := List.mem_singleton.1 ha
        have hexecutor : executor k = (cron i).inner := hok.1
        exact ⟨encoded, F, F', hencoded, hok.2 L₀ t encoded hloop hphase hencoded, hrun,
          hexecutor ▸ hspawn, .refl⟩
  · rw [Function.update_of_ne hij] at hL
    exact hold hL ha

/-- **Run.** -/
theorem follows_of_run (h : Run (step valid cron executor) (Ok cron executor ops) (init db₀ time) F)
    {i : ℕ} {L : LoopState} (hL : F.loops i = some L) : L.Follows (cron i).schedule := by
  refine Run.invariant (P := fun F : Fleet V ↦ ∀ i L, F.loops i = some L →
    L.Follows (cron i).schedule) h (fun i L hL ↦ by cases hL) ?_ i L hL
  intro F l F' hF _ hs i L hL
  obtain ⟨hloops, -⟩ | ⟨j, L', hmove, hloops, -⟩ := step_cases hs
  · exact hF i L (hloops ▸ hL)
  · rw [hloops] at hL
    by_cases hij : i = j
    · subst hij
      rw [Function.update_self] at hL
      cases hL
      exact LoopState.Follows.move (fun L hL ↦ hF i L hL) hmove
    · rw [Function.update_of_ne hij] at hL
      exact hF i L hL

/-- A loop whose sleep has ended attempts the tick it has waited for. -/
theorem exists_fire {i : ℕ} {start last t : DateTime} {attempts : List (DateTime × ℕ)}
    (hL : F.loops i = some ⟨start, last, attempts, .waiting t⟩) {k : ℕ}
    (hk : F.system.unused k = true) : ∃ F', F.step valid cron executor (.fire i k) = some F' ∧
      F'.loops i = some ⟨start, t, attempts ++ [(t, k)], .starting k⟩ := by
  obtain ⟨encoded, hencoded⟩ := exists_scheduledInput t
  simp only [step, hL, hencoded, System.step, hk]
  exact ⟨_, rfl, Function.update_self ..⟩

end Fleet

/-- Every loop attempts the ticks after its start, each once and in order, each with a session that
starts the workflow of the tick, and goes on until it is cancelled or there are no more. As long as
the row of a tick's workflow is not deleted, all starts together launch its body at most once,
whatever else is done with it; and if its row is written by nothing that recovers, resumes, forks or
deletes, nobody else launches it again. Different ticks, and ticks of schedules with different
names, have different workflows. -/
theorem scheduler_ticks {valid : DbMoment → (q : Ask) → q.Ans → Bool} {cron : ℕ → Scheduler}
    {executor : ℕ → DbosInner} {ops : ℕ → Operation V} {db₀ : Db} {time : ℤ} {F : Fleet V}
    (h : Run (Fleet.step valid cron executor) (Fleet.Ok cron executor ops) (Fleet.init db₀ time) F)
    (hfresh : ∀ id, FreshOwners db₀ id F.system) :
    (∀ i L, F.loops i = some L → L.Follows (cron i).schedule ∧
      (∀ a ∈ L.attempts, Fleet.Started valid cron executor ops db₀ time F i a) ∧
      ∀ t k, L.phase = .waiting t → F.system.unused k = true →
        ∃ F', F.step valid cron executor (.fire i k) = some F' ∧
          F'.loops i = some ⟨L.start, t, L.attempts ++ [(t, k)], .starting k⟩) ∧
      (∀ i, ∀ t ∈ (cron i).schedule.ticks, KeepsWorkflow F.system (tickId (cron i).name t) →
        F.system.answers.countP
          (fun a ↦ (ops a.1).isStart && launches (tickId (cron i).name t) a.2) ≤ 1) ∧
      (∀ i, ∀ t ∈ (cron i).schedule.ticks, (∀ w ∈ System.written F.system.history,
          w.key = .workflowStatus (tickId (cron i).name t) → w.stmt.Invoking) →
        F.system.answers.countP (fun a ↦ launches (tickId (cron i).name t) a.2) ≤ 1) ∧
      ∀ i j, ∀ t ∈ (cron i).schedule.ticks, ∀ t' ∈ (cron j).schedule.ticks,
        tickId (cron i).name t = tickId (cron j).name t' →
          (cron i).name = (cron j).name ∧ t = t' := by
  have hrun := Fleet.system_run h
  have hlaunched : Launched valid executor db₀ F.system :=
    launched_of_run (hrun.mono fun _ _ hl i p hp ↦ ⟨ops i, hl i p hp⟩)
  refine ⟨fun i L hL ↦ ⟨Fleet.follows_of_run h hL, fun a ha ↦ Fleet.started_of_run h hL ha, ?_⟩,
    fun i t _ hkept ↦ ?_, fun i t _ hinvoking ↦ ?_, fun i j t ht t' ht' ↦ ?_⟩
  · rintro t k hphase hk
    obtain ⟨start, last, attempts, phase⟩ := L
    cases hphase
    exact Fleet.exists_fire hL hk
  · refine hlaunched.starts_le_one (hfresh _) hkept (fun i ↦ (ops i).isStart)
      fun c hc hstart w hw ↦ ?_
    exact (System.all_of_run (P := fun i s ↦ (ops i).isStart = true → s.Starting)
      (A := fun _ _ ↦ True) (fun S i p hok ↦ by
        rw [hok i p rfl]
        by_cases hop : (ops i).isStart = true
        · exact (starting_program (executor i) hop).mono (fun _ hs _ ↦ hs) fun _ ↦ id
        · exact (Prog.all_true _).mono (fun _ _ hstart ↦ (hop hstart).elim) fun _ ↦ id) hrun).1 c hc
      w hw hstart
  · exact Invoked.launches_le_one ⟨hlaunched, hinvoking⟩ (hfresh _)
  · exact tickId_injective ((cron i).schedule.whole t ht) ((cron j).schedule.whole t' ht')

end

/-! ### Two executors -/

section

local instance schedulerJson : SerdeJson := JsonText.jsonText

/-- The start of 2024. -/
def newYear : DateTime :=
  ⟨2024, 1, 1, 0, 0, 0, 0, by decide, by decide, by decide, by decide, by decide⟩

/-- The evening before. -/
def newYearsEve : DateTime :=
  ⟨2023, 12, 31, 23, 0, 0, 0, by decide, by decide, by decide, by decide, by decide⟩

/-- A schedule with one tick. -/
def onceSchedule : Schedule where
  ticks := {newYear}
  after t := if t < newYear then some newYear else none
  whole := by
    rintro _ rfl
    rfl
  after_some := by
    intro t u hu
    obtain ⟨hlt, heq⟩ := Option.ite_none_right_eq_some.1 hu
    cases heq
    exact ⟨⟨rfl, hlt⟩, fun v hv ↦ (Set.mem_singleton_iff.1 hv.1).ge⟩
  after_none := by
    rintro t hnone _ rfl hlt
    rw [if_pos hlt] at hnone
    cases hnone

/-- Sessions 0 and 1 start the same workflow at the same time; session 1 finds the row of the other
one. -/
def startBoth : List (RuntimeLabel ℤ) :=
  [.answer 0 (answersAt 1 ""), .answer 0 (answersAt 1 "x"), .answer 1 (answersAt 1 ""),
    .answer 1 (answersAt 1 "y")] ++ commandOne 0 ++ commandOne 1 ++ sendOne 0 ++ commandOne 0 ++
  sendOne 1 ++ commandOne 1 ++ commandOne 0 ++ answerOne 0 2 ++ commandOne 1

/-- Both executors run the loop of the schedule, start the workflow of its tick, and find that there
are no further ticks. -/
def twoLoops : List (FleetLabel ℤ) :=
  [.launch 0 newYearsEve, .launch 1 newYearsEve, .next 0, .next 1, .fire 0 0, .fire 1 1] ++
  startBoth.map .system ++ [.started 0, .started 1, .next 0, .next 1]

def twoExecutors (i : ℕ) : DbosInner := if i = 0 then anyName "a" else anyName "b"

def twoSchedulers (i : ℕ) : Scheduler := ⟨twoExecutors i, "f", onceSchedule⟩

/-- Whether a loop has attempted the tick with one session and come to its end. -/
def attemptedOnce (L : Option LoopState) (k : ℕ) : Bool :=
  L.any fun L ↦ L.attempts = [(newYear, k)] && L.phase = .stopped false

/-- Session `i` carries out the start of the tick, and session 2 deletes its workflow. -/
def tickOps (i : ℕ) : Operation ℤ :=
  if i = 2 then .call (.delete [tickId "f" newYear])
  else tickStart "f" newYear ((scheduledInput newYear).toOption.getD "")

/-- Loop `i` starts the workflow with session `i`, and session 2 is the only other one. -/
def firesOwnSession (F : Fleet ℤ) : FleetLabel ℤ → Bool
  | .system (.spawn i _) => i = 2
  | .fire i k => i = k && k ≠ 2 && (F.loops i).all fun L ↦
    match L.phase with
    | .waiting t => t = newYear
    | _ => true
  | _ => true

theorem ok_of_firesOwnSession {F : Fleet ℤ} {l : FleetLabel ℤ} (h : firesOwnSession F l = true)
    (hl : ∀ i p, l = .system (.spawn i p) → p = (tickOps i).program (twoExecutors i)) :
    Fleet.Ok twoSchedulers twoExecutors tickOps F l := by
  cases l with
  | system l => exact fun i p hp ↦ hl i p (congrArg _ hp)
  | fire i k =>
    simp only [firesOwnSession, Bool.and_eq_true, decide_eq_true_eq] at h
    obtain ⟨⟨rfl, hne⟩, hphase⟩ := h
    refine ⟨rfl, fun L t encoded hL ht hencoded ↦ ?_⟩
    rw [hL, Option.all_some, ht] at hphase
    obtain rfl := of_decide_eq_true hphase
    rw [tickOps, if_neg hne, hencoded]
    rfl
  | _ => trivial

theorem scheduler_ticks_twoLoops : ∃ F : Fleet ℤ,
    exec (Fleet.step (fun _ _ _ ↦ true) twoSchedulers twoExecutors) (Fleet.init {} 0) twoLoops =
      some F ∧
    attemptedOnce (F.loops 0) 0 = true ∧ attemptedOnce (F.loops 1) 1 = true ∧
    Fleet.Started (fun _ _ _ ↦ true) twoSchedulers twoExecutors tickOps {} 0 F 1 (newYear, 1) ∧
    F.system.answers.countP
      (fun a ↦ (tickOps a.1).isStart && launches (tickId "f" newYear) a.2) ≤ 1 ∧
    F.system.answers.countP (fun a ↦ launches (tickId "f" newYear) a.2) ≤ 1 := by
  have hrun : (exec (fun F l ↦ if firesOwnSession F l then
        Fleet.step (fun _ _ _ ↦ true) twoSchedulers twoExecutors F l else none) (Fleet.init {} 0)
      twoLoops).any (fun F ↦ attemptedOnce (F.loops 0) 0 && attemptedOnce (F.loops 1) 1 &&
        (F.system.answers.all fun a ↦ F.system.answers.all fun b ↦
          (givenUuid a.2).isNone || givenUuid a.2 ≠ givenUuid b.2 || a.1 = b.1) &&
        (System.written F.system.history).all fun w ↦ w.new.isSome && w.stmt.isInvoking) =
          true := by
    decide +kernel
  obtain ⟨F, hF, hdone⟩ := (Option.any_eq_true _ _).1 hrun
  simp only [Bool.and_eq_true, List.all_eq_true] at hdone
  obtain ⟨⟨⟨hzero, hone⟩, huuid⟩, hwritten⟩ := hdone
  have hreach : Run (Fleet.step (fun _ _ _ ↦ true) twoSchedulers twoExecutors)
      (Fleet.Ok twoSchedulers twoExecutors tickOps) (Fleet.init {} 0) F := by
    refine Run.of_exec_checked hF fun F l hl hcheck ↦ ok_of_firesOwnSession hcheck ?_
    rintro i p rfl
    simp [twoLoops, startBoth, commandOne, sendOne, answerOne] at hl
  obtain ⟨hloops, hstarts, hall, -⟩ := scheduler_ticks hreach fun id ↦ freshOwners_of_all rfl (by
    simpa using huuid)
  obtain ⟨L, hL, hattempted⟩ := (Option.any_eq_true _ _).1 hone
  have hmem : (newYear, 1) ∈ L.attempts := by
    rw [of_decide_eq_true (Bool.and_eq_true_iff.1 hattempted).1]
    exact List.mem_cons_self
  refine ⟨F, exec_of_checked hF, hzero, hone, (hloops 1 L hL).2.1 _ hmem,
    hstarts 0 newYear rfl fun old s hw ↦ ?_, hall 0 newYear rfl fun w hw _ ↦ (hwritten w hw).2⟩
  cases (hwritten _ hw).1

/-- Session `i` starts its workflow, whose row is not there. -/
def startAlone (i : ℕ) (ownerXid : String) : List (RuntimeLabel ℤ) :=
  [.answer i (answersAt 1 ""), .answer i (answersAt 1 ownerXid)] ++ commandOne i ++ sendOne i ++
    commandOne i ++ commandOne i ++ answerOne i 2

/-- Session 2 deletes the workflow of the tick. -/
def deleteTick : List (RuntimeLabel ℤ) :=
  .spawn 2 ((tickOps 2).program (twoExecutors 2)) :: sendOne 2

/-- Loop 0 starts the workflow of the tick, somebody deletes it, and loop 1 is late. -/
def lateLoop : List (FleetLabel ℤ) :=
  [.launch 0 newYearsEve, .launch 1 newYearsEve, .next 0, .next 1, .fire 0 0] ++
  (startAlone 0 "x" ++ deleteTick).map .system ++ [.started 0, .fire 1 1] ++
  (startAlone 1 "y").map .system ++ [.started 1]

/-- The tick is launched by both loops, without a crash and although no id was chosen by a user. -/
theorem tick_launched_twice : ∃ F : Fleet ℤ,
    Run (Fleet.step (fun _ _ _ ↦ true) twoSchedulers twoExecutors)
      (Fleet.Ok twoSchedulers twoExecutors tickOps) (Fleet.init {} 0) F ∧
    (∀ id, FreshOwners {} id F.system) ∧
    (∀ i < 2, ∃ L, F.loops i = some L ∧ L.attempts = [(newYear, i)]) ∧
    F.system.answers.countP
      (fun a ↦ (tickOps a.1).isStart && launches (tickId "f" newYear) a.2) = 2 := by
  have hrun : (exec (fun F l ↦ if firesOwnSession F l then
        Fleet.step (fun _ _ _ ↦ true) twoSchedulers twoExecutors F l else none) (Fleet.init {} 0)
      lateLoop).any (fun F ↦
        (F.system.answers.all fun a ↦ F.system.answers.all fun b ↦
          (givenUuid a.2).isNone || givenUuid a.2 ≠ givenUuid b.2 || a.1 = b.1) &&
        ((List.range 2).all fun i ↦ (F.loops i).any fun L ↦ L.attempts = [(newYear, i)]) &&
        F.system.answers.countP
          (fun a ↦ (tickOps a.1).isStart && launches (tickId "f" newYear) a.2) = 2) = true := by
    decide +kernel
  obtain ⟨F, hF, hdone⟩ := (Option.any_eq_true _ _).1 hrun
  simp only [Bool.and_eq_true, decide_eq_true_eq] at hdone
  obtain ⟨⟨huuid, hloops⟩, htwice⟩ := hdone
  refine ⟨F, Run.of_exec_checked hF fun F l hl hcheck ↦ ok_of_firesOwnSession hcheck ?_,
    fun id ↦ freshOwners_of_all rfl huuid, fun i hi ↦ ?_, htwice⟩
  · rintro i p rfl
    simp [lateLoop, startAlone, deleteTick, commandOne, sendOne, answerOne] at hl
    obtain ⟨rfl, rfl⟩ := hl
    rfl
  · obtain ⟨L, hL, hattempts⟩ :=
      (Option.any_eq_true _ _).1 (List.all_eq_true.1 hloops i (List.mem_range.2 hi))
    exact ⟨L, hL, of_decide_eq_true hattempts⟩

end

end Dbos

import DbosTransact.Foundation.Run
import DbosTransact.Foundation.Table

/-!
# The listener and its waiters

`get_event` and the stream readers register a `Notify` under the key they wait for, and the listener
of `runtime/listener.rs` wakes what it finds in the registry: the waiters of one key when a `NOTIFY`
arrives, all of them on every tick of its safety net. This module models the registries of one
process together with the waiters that use them, as a transition system whose steps are the points
at which one of them can be interleaved with the others.

A `Notify` is a number, and what matters about it is how often `notify_waiters` was called on it: a
`Notified` future is ready once that happened after the future was made.

Waiters of one key share a `Notify`, and each of them removes the key when it leaves. So a waiter is
registered (`Registered`) as long as nobody leaves while another one waits under the same key, and a
step that breaks this rule leaves the other one unregistered (`not_registered_of_leave`).
-/

namespace Dbos.Listener

/-- The channels the listener listens on, each with its registry. -/
inductive Channel
  | notifications
  | workflowEvents
  | streams
  deriving DecidableEq, Repr

/-- The `Notify` registered under each key. -/
abbrev WaiterRegistry : Type := Table String ℕ

/-- `get_event` waits until its deadline; a stream reader sleeps for one second at most and looks
again. -/
inductive WaiterKind
  | getEvent (deadline : ℕ)
  | readStream
  deriving DecidableEq, Repr

/-- The channel a waiter is registered on. -/
def WaiterKind.channel : WaiterKind → Channel
  | getEvent _ => .workflowEvents
  | readStream => .streams

/-- Where a waiter stands in its loop. -/
inductive Phase
  /-- At the top of the loop. -/
  | idle
  /-- It has made its `Notified` when `calls` calls had been made, and looks into the database. -/
  | probing (calls : ℕ)
  /-- It waits for its `Notified` or the sleep that ends at `wakeAt`. -/
  | waiting (calls : ℕ) (wakeAt : ℕ)
  /-- It has left the loop, and found what it waited for or not. -/
  | finished (found : Bool)
  deriving DecidableEq, Repr

/-- The calls that had been made when the `Notified` of this round was. -/
def Phase.seen : Phase → Option ℕ
  | probing calls => some calls
  | waiting calls _ => some calls
  | _ => none

structure Waiter where
  kind : WaiterKind
  key : String
  notify : ℕ
  phase : Phase := .idle
  deriving DecidableEq, Repr

/-- What a stream reader makes of its look into the database: there were entries and it looks again
at once, there were none, or the stream is over. -/
inductive StreamProbe
  | values
  | nothing
  | over
  deriving DecidableEq, Repr

/-- The registries of a process, the waiters that have not left, and their surroundings: the clock
in milliseconds, the `Notify`s made so far with the calls of `notify_waiters` on each, and the
events that are set. -/
structure State where
  registry : Channel → WaiterRegistry := fun _ ↦ ∅
  waiters : Table ℕ Waiter := ∅
  made : ℕ := 0
  calls : ℕ → ℕ := fun _ ↦ 0
  events : List String := []
  now : ℕ := 0

inductive Label
  /-- Waiter `i` registers: `entry(key).or_insert_with(…)`, and makes its guard. -/
  | enter (i : ℕ) (kind : WaiterKind) (key : String)
  /-- `notify.notified()`. -/
  | notified (i : ℕ)
  /-- `get_event` looks for its event. -/
  | probe (i : ℕ)
  /-- A stream reader reads its stream. -/
  | read (i : ℕ) (seen : StreamProbe)
  /-- The `select!` of waiter `i` ends. -/
  | wake (i : ℕ)
  /-- The guard of waiter `i` is dropped: it returns, fails, or is cancelled. -/
  | leave (i : ℕ)
  /-- The listener receives a notification. -/
  | recv (channel : Channel) (payload : String)
  /-- The listener ticks, or has reconnected. -/
  | wakeAll
  /-- An event is set. -/
  | setEvent (key : String)
  /-- Time passes. -/
  | elapse (ms : ℕ)
  deriving DecidableEq, Repr

namespace State

/-- Replace a waiter. -/
def setWaiter (S : State) (i : ℕ) (w : Waiter) : State :=
  { S with waiters := S.waiters.insert i w }

/-- `notify_waiters` on some of the `Notify`s. -/
def notifyWaiters (S : State) (p : ℕ → Bool) : State :=
  { S with calls := fun n ↦ if p n then S.calls n + 1 else S.calls n }

/-- Whether a `Notify` is in one of the registries. -/
def inRegistry (S : State) (n : ℕ) : Bool :=
  [Channel.notifications, .workflowEvents, .streams].any fun c ↦
    (S.registry c).rows.any fun e ↦ e.2 = n

/-- Register waiter `i`, with the `Notify` of the key or a new one. -/
def register (S : State) (i : ℕ) (kind : WaiterKind) (key : String) : State :=
  match (S.registry kind.channel).lookup key with
  | some n => S.setWaiter i ⟨kind, key, n, .idle⟩
  | none =>
    { S.setWaiter i ⟨kind, key, S.made, .idle⟩ with
      registry := Function.update S.registry kind.channel
        ((S.registry kind.channel).insert key S.made)
      made := S.made + 1 }

/-- `WaiterGuard::drop`, and the waiter is gone. -/
def drop (S : State) (i : ℕ) (w : Waiter) : State :=
  { S with
    registry := Function.update S.registry w.kind.channel
      ((S.registry w.kind.channel).erase w.key)
    waiters := S.waiters.erase i }

/-- `get_event` after its look for the event. -/
def probed (S : State) (w : Waiter) (calls deadline : ℕ) : Phase :=
  if w.key ∈ S.events then .finished true
  else if deadline ≤ S.now then .finished false
  else .waiting calls deadline

/-- Whether the `select!` of a waiter has a ready arm. -/
def ready (S : State) (w : Waiter) : Bool :=
  match w.phase with
  | .waiting calls wakeAt => calls < S.calls w.notify || wakeAt ≤ S.now
  | _ => false

end State

def step (S : State) : Label → Option State
  | .enter i kind key => if (S.waiters.lookup i).isNone then some (S.register i kind key) else none
  | .notified i =>
    match S.waiters.lookup i with
    | some ⟨kind, key, n, .idle⟩ => some (S.setWaiter i ⟨kind, key, n, .probing (S.calls n)⟩)
    | _ => none
  | .probe i =>
    match S.waiters.lookup i with
    | some ⟨.getEvent deadline, key, n, .probing calls⟩ =>
      some (S.setWaiter i ⟨.getEvent deadline, key, n,
        S.probed ⟨.getEvent deadline, key, n, .probing calls⟩ calls deadline⟩)
    | _ => none
  | .read i seen =>
    match S.waiters.lookup i with
    | some ⟨.readStream, key, n, .probing calls⟩ =>
      some (S.setWaiter i ⟨.readStream, key, n, match seen with
        | .values => .idle
        | .nothing => .waiting calls (S.now + 1000)
        | .over => .finished true⟩)
    | _ => none
  | .wake i =>
    match S.waiters.lookup i with
    | some w => if S.ready w then some (S.setWaiter i { w with phase := .idle }) else none
    | none => none
  | .leave i =>
    match S.waiters.lookup i with
    | some w => some (S.drop i w)
    | none => none
  | .recv channel payload =>
    match (S.registry channel).lookup payload with
    | some n => some (S.notifyWaiters fun m ↦ m = n)
    | none => some S
  | .wakeAll => some (S.notifyWaiters S.inRegistry)
  | .setEvent key => some { S with events := key :: S.events }
  | .elapse ms => some { S with now := S.now + ms }

/-! ### The invariant -/

/-- Every waiter has its `Notify` stored under its key. -/
def Registered (S : State) : Prop :=
  ∀ i w, S.waiters.lookup i = some w → (S.registry w.kind.channel).lookup w.key = some w.notify

/-- A `Notified` was made no later than now. -/
def Past (S : State) : Prop :=
  ∀ i w, S.waiters.lookup i = some w → ∀ calls ∈ w.phase.seen, calls ≤ S.calls w.notify

/-- Nobody leaves while another waiter waits under the same key. -/
def LeavesAlone (S : State) (l : Label) : Prop :=
  ∀ i w, l = .leave i → S.waiters.lookup i = some w →
    ∀ j w', j ≠ i → S.waiters.lookup j = some w' → w'.kind.channel = w.kind.channel →
      w'.key ≠ w.key

section

variable {S S' : State} {i : ℕ} {w : Waiter} {l : Label}

theorem lookup_setWaiter {j : ℕ} {w' : Waiter}
    (h : (S.setWaiter i w).waiters.lookup j = some w') :
    j = i ∧ w' = w ∨ j ≠ i ∧ S.waiters.lookup j = some w' := by
  by_cases hj : j = i
  · subst hj
    rw [State.setWaiter, AList.lookup_insert] at h
    exact Or.inl ⟨rfl, (Option.some.inj h).symm⟩
  · rw [State.setWaiter, AList.lookup_insert_ne hj] at h
    exact Or.inr ⟨hj, h⟩

/-- What a step can do to the waiters: one of them goes on under its old registration, or registers,
or leaves; or a `Notify` is called, an event set, or time passes. -/
theorem step_cases (h : step S l = some S') :
    (∃ i w phase, S.waiters.lookup i = some w ∧ S' = S.setWaiter i { w with phase } ∧
      ∀ calls ∈ phase.seen, calls = S.calls w.notify ∨ calls ∈ w.phase.seen) ∨
    (∃ i kind key, l = .enter i kind key ∧ S.waiters.lookup i = none ∧ S' = S.register i kind key) ∨
    (∃ i w, l = .leave i ∧ S.waiters.lookup i = some w ∧ S' = S.drop i w) ∨
    S'.registry = S.registry ∧ S'.waiters = S.waiters ∧ ∀ n, S.calls n ≤ S'.calls n := by
  have hnotify : ∀ p n, S.calls n ≤ (S.notifyWaiters p).calls n := by
    intro p n
    show S.calls n ≤ if p n then S.calls n + 1 else S.calls n
    split <;> omega
  cases l with
  | enter i kind key =>
    obtain ⟨hnone, heq⟩ := Option.ite_none_right_eq_some.1 h
    cases heq
    exact Or.inr (Or.inl ⟨i, kind, key, rfl, Option.isNone_iff_eq_none.1 hnone, rfl⟩)
  | notified i =>
    simp only [step] at h
    split at h
    · rename_i kind key n hw
      cases h
      exact Or.inl ⟨i, _, .probing (S.calls n), hw, rfl, fun calls hcalls ↦
        Or.inl (Option.some.inj hcalls).symm⟩
    · cases h
  | probe i =>
    simp only [step] at h
    split at h
    · rename_i deadline key n calls hw
      cases h
      refine Or.inl ⟨i, _, _, hw, rfl, fun calls' hcalls ↦ Or.inr ?_⟩
      unfold State.probed at hcalls
      split at hcalls
      · cases hcalls
      split at hcalls
      · cases hcalls
      · exact hcalls
    · cases h
  | read i seen =>
    simp only [step] at h
    split at h
    · rename_i key n calls hw
      cases h
      refine Or.inl ⟨i, _, _, hw, rfl, fun calls' hcalls ↦ Or.inr ?_⟩
      cases seen with
      | nothing => exact hcalls
      | _ => cases hcalls
    · cases h
  | wake i =>
    simp only [step] at h
    split at h
    · rename_i w hw
      obtain ⟨-, heq⟩ := Option.ite_none_right_eq_some.1 h
      cases heq
      exact Or.inl ⟨i, w, .idle, hw, rfl, fun _ hcalls ↦ by cases hcalls⟩
    · cases h
  | leave i =>
    simp only [step] at h
    split at h
    · rename_i w hw
      cases h
      exact Or.inr (Or.inr (Or.inl ⟨i, w, rfl, hw, rfl⟩))
    · cases h
  | recv channel payload =>
    simp only [step] at h
    split at h
    · cases h
      exact Or.inr (Or.inr (Or.inr ⟨rfl, rfl, hnotify _⟩))
    · cases h
      exact Or.inr (Or.inr (Or.inr ⟨rfl, rfl, fun _ ↦ le_rfl⟩))
  | wakeAll =>
    cases h
    exact Or.inr (Or.inr (Or.inr ⟨rfl, rfl, hnotify _⟩))
  | setEvent key =>
    cases h
    exact Or.inr (Or.inr (Or.inr ⟨rfl, rfl, fun _ ↦ le_rfl⟩))
  | elapse ms =>
    cases h
    exact Or.inr (Or.inr (Or.inr ⟨rfl, rfl, fun _ ↦ le_rfl⟩))

theorem lookup_update_self (c : Channel) (key : String) (r : WaiterRegistry) :
    (Function.update S.registry c r c).lookup key = r.lookup key := by
  rw [Function.update_self]

/-- The entry under another key, or on another channel, is as it was. -/
theorem lookup_update {c c' : Channel} {key key' : String} {r : WaiterRegistry}
    (hr : key' ≠ key → r.lookup key' = (S.registry c).lookup key')
    (hne : c' = c → key' ≠ key) :
    (Function.update S.registry c r c').lookup key' = (S.registry c').lookup key' := by
  by_cases hc : c' = c
  · subst hc
    rw [Function.update_self]
    exact hr (hne rfl)
  · rw [Function.update_of_ne hc]

/-- A waiter that registers shares the `Notify` of its key. -/
theorem Registered.register (h : Registered S) (i : ℕ) (kind : WaiterKind) (key : String) :
    Registered (S.register i kind key) := by
  unfold State.register
  split
  · rename_i n hn
    intro j w hw
    rcases lookup_setWaiter hw with ⟨-, rfl⟩ | ⟨-, hw⟩
    · exact hn
    · exact h j w hw
  · rename_i hn
    intro j w hw
    rcases lookup_setWaiter hw with ⟨-, rfl⟩ | ⟨-, hw⟩
    · exact (lookup_update_self _ _ _).trans (AList.lookup_insert _)
    · have hstored := h j w hw
      refine (lookup_update (fun hne ↦ AList.lookup_insert_ne hne) ?_).trans hstored
      -- a key without an entry has no waiter
      rintro hc rfl
      rw [hc, hn] at hstored
      cases hstored

/-- A waiter that leaves alone unregisters nobody else. -/
theorem Registered.drop (h : Registered S) (hw : S.waiters.lookup i = some w)
    (halone : LeavesAlone S (.leave i)) : Registered (S.drop i w) := by
  intro j w' hw'
  by_cases hj : j = i
  · subst hj
    have hgone : (S.waiters.erase j).lookup j = some w' := hw'
    rw [AList.lookup_erase] at hgone
    cases hgone
  · have hthere : (S.waiters.erase i).lookup j = some w' := hw'
    rw [AList.lookup_erase_ne hj] at hthere
    exact (lookup_update (fun hne ↦ AList.lookup_erase_ne hne)
      (halone i w rfl hw j w' hj hthere)).trans (h j w' hthere)

/-- **Step.** A step after which nobody has left another waiter of its key behind keeps every waiter
registered. -/
theorem Registered.step (h : Registered S) (halone : LeavesAlone S l)
    (hs : Listener.step S l = some S') : Registered S' := by
  rcases step_cases hs with ⟨i, w, phase, hw, rfl, -⟩ | ⟨i, kind, key, -, -, rfl⟩ |
    ⟨i, w, rfl, hw, rfl⟩ | ⟨hregistry, hwaiters, -⟩
  · intro j w' hw'
    rcases lookup_setWaiter hw' with ⟨-, rfl⟩ | ⟨-, hw'⟩
    · exact h i w hw
    · exact h j w' hw'
  · exact h.register i kind key
  · exact h.drop hw halone
  · intro j w hw
    rw [hregistry]
    exact h j w (hwaiters ▸ hw)

/-- Conversely, a waiter that leaves another one of its key behind leaves it unregistered. -/
theorem not_registered_of_leave {j : ℕ} {w' : Waiter} (hs : step S (.leave i) = some S')
    (hw : S.waiters.lookup i = some w) (hj : j ≠ i) (hw' : S.waiters.lookup j = some w')
    (hc : w'.kind.channel = w.kind.channel) (hkey : w'.key = w.key) :
    S'.waiters.lookup j = some w' ∧ (S'.registry w'.kind.channel).lookup w'.key = none := by
  rw [step, hw] at hs
  cases hs
  refine ⟨(AList.lookup_erase_ne hj).trans hw', ?_⟩
  rw [hc, hkey]
  exact (lookup_update_self _ _ _).trans (AList.lookup_erase _ _)

theorem Past.step (h : Past S) (hs : Listener.step S l = some S') : Past S' := by
  rcases step_cases hs with ⟨i, w, phase, hw, rfl, hphase⟩ | ⟨i, kind, key, -, -, rfl⟩ |
    ⟨i, w, -, -, rfl⟩ | ⟨-, hwaiters, hcalls⟩
  · intro j w' hw' calls hcalls
    rcases lookup_setWaiter hw' with ⟨-, rfl⟩ | ⟨-, hw'⟩
    · rcases hphase calls hcalls with rfl | hseen
      · exact le_rfl
      · exact h i w hw calls hseen
    · exact h j w' hw' calls hcalls
  · have hidle : ∀ n, ∀ j w', (S.setWaiter i ⟨kind, key, n, .idle⟩).waiters.lookup j = some w' →
        ∀ calls ∈ w'.phase.seen, calls ≤ S.calls w'.notify := by
      intro n j w' hw' calls hcalls
      rcases lookup_setWaiter hw' with ⟨-, rfl⟩ | ⟨-, hw'⟩
      · cases hcalls
      · exact h j w' hw' calls hcalls
    unfold State.register
    split
    · exact hidle _
    · exact hidle _
  · intro j w' hw'
    have hthere : (S.waiters.erase i).lookup j = some w' := hw'
    by_cases hj : j = i
    · subst hj
      rw [AList.lookup_erase] at hthere
      cases hthere
    · rw [AList.lookup_erase_ne hj] at hthere
      exact h j w' hthere
  · intro j w hw calls hphase
    exact (h j w (hwaiters ▸ hw) calls hphase).trans (hcalls _)

/-! ### Being woken -/

theorem inRegistry_of_lookup {c : Channel} {key : String} {n : ℕ}
    (h : (S.registry c).lookup key = some n) : S.inRegistry n = true := by
  refine List.any_eq_true.2 ⟨c, by cases c <;> simp, List.any_eq_true.2 ⟨(key, n), ?_, by simp⟩⟩
  exact Table.mem_rows_iff.2 h

/-- One more call of `notify_waiters` ends the wait. -/
theorem ready_notifyWaiters {p : ℕ → Bool} {calls wakeAt : ℕ} (hpast : Past S)
    (hw : S.waiters.lookup i = some w) (hwaiting : w.phase = .waiting calls wakeAt)
    (hp : p w.notify = true) : (S.notifyWaiters p).ready w = true := by
  have hcalls := hpast i w hw calls (by rw [hwaiting]; rfl)
  have hmore : (S.notifyWaiters p).calls w.notify = S.calls w.notify + 1 := if_pos hp
  simp only [State.ready, hwaiting, hmore, Bool.or_eq_true, decide_eq_true_eq]
  omega

/-- A waiter that is ready and whose event is set goes round its loop once and has it. -/
theorem exec_of_ready {deadline n : ℕ} {key : String} {phase : Phase}
    (hw : S.waiters.lookup i = some ⟨.getEvent deadline, key, n, phase⟩)
    (hready : S.ready ⟨.getEvent deadline, key, n, phase⟩ = true) (hset : key ∈ S.events) :
    ∃ S', exec step S [.wake i, .notified i, .probe i] = some S' ∧ S'.now = S.now ∧
      S'.waiters.lookup i = some ⟨.getEvent deadline, key, n, .finished true⟩ := by
  refine ⟨((S.setWaiter i ⟨.getEvent deadline, key, n, .idle⟩).setWaiter i
    ⟨.getEvent deadline, key, n, .probing (S.calls n)⟩).setWaiter i
      ⟨.getEvent deadline, key, n, .finished true⟩, ?_, rfl, AList.lookup_insert _⟩
  have hloop : ∀ S : State, ∀ w, (S.setWaiter i w).waiters.lookup i = some w :=
    fun _ _ ↦ AList.lookup_insert _
  have hfound : ∀ S : State, ∀ w : Waiter, ∀ c d, w.key ∈ S.events →
      S.probed w c d = .finished true := fun _ _ _ _ h ↦ if_pos h
  rw [exec, step, hw]
  dsimp only
  rw [if_pos hready, Option.bind_some, exec, step, hloop]
  dsimp only
  rw [Option.bind_some, exec, step, hloop]
  dsimp only
  rw [hfound _ _ _ _ hset]
  rfl

/-- What the listener does. -/
def Label.ofListener : Label → Bool
  | recv .. => true
  | wakeAll => true
  | _ => false

/-- A waiter whose `Notify` is in no registry is not woken by the listener, whatever it receives and
however often it ticks. -/
theorem ready_of_not_inRegistry {ls : List Label} (hlost : S.inRegistry w.notify = false)
    (hls : ∀ l ∈ ls, l.ofListener = true) (hs : exec step S ls = some S') :
    S'.ready w = S.ready w := by
  induction ls generalizing S with
  | nil =>
    cases hs
    rfl
  | cons l ls ih =>
    obtain ⟨S₁, hs₁, hrest⟩ := Option.bind_eq_some_iff.1 hs
    have hrest' := fun l hl ↦ hls l (List.mem_cons_of_mem _ hl)
    have hmiss : ∀ p : ℕ → Bool, p w.notify = false →
        (S.notifyWaiters p).ready w = S.ready w := by
      intro p hp
      have hcalls : (S.notifyWaiters p).calls w.notify = S.calls w.notify :=
        if_neg (by simp [hp])
      unfold State.ready
      rw [hcalls]
      rfl
    cases l with
    | recv channel payload =>
      simp only [step] at hs₁
      split at hs₁
      · rename_i n hn
        cases hs₁
        have hne : (decide (w.notify = n)) = false := by
          refine decide_eq_false fun heq ↦ ?_
          rw [← heq] at hn
          rw [inRegistry_of_lookup hn] at hlost
          cases hlost
        exact (ih (S := S.notifyWaiters _) hlost hrest' hrest).trans (hmiss _ hne)
      · cases hs₁
        exact ih hlost hrest' hrest
    | wakeAll =>
      cases hs₁
      exact (ih (S := S.notifyWaiters _) hlost hrest' hrest).trans (hmiss _ hlost)
    | _ => cases hls _ List.mem_cons_self

end

/-! ### Runs -/

/-- **Waiters stay registered.** In every run in which nobody leaves while another waiter waits
under the same key, every waiter that has not left has its `Notify` stored under its key. A
notification of that key and every tick end its wait; and a `get_event` whose event is set then has
it before the clock has moved. -/
theorem waiters_registered {S : State} (h : Run step LeavesAlone {} S) {i : ℕ} {w : Waiter}
    (hw : S.waiters.lookup i = some w) :
    (S.registry w.kind.channel).lookup w.key = some w.notify ∧
      ∀ calls wakeAt, w.phase = .waiting calls wakeAt →
        ∀ l ∈ [Label.recv w.kind.channel w.key, .wakeAll], ∃ S', step S l = some S' ∧
          S'.ready w = true ∧ ∀ deadline, w.kind = .getEvent deadline → w.key ∈ S.events →
            ∃ S'', exec step S' [.wake i, .notified i, .probe i] = some S'' ∧ S''.now = S.now ∧
              ∃ w', S''.waiters.lookup i = some w' ∧ w'.phase = .finished true := by
  have hempty : ∀ {P : ℕ → Waiter → Prop} j w',
      (({} : State).waiters).lookup j = some w' → P j w' := fun _ _ h ↦ by cases h
  obtain ⟨hregistered, hpast⟩ := h.invariant (P := fun S ↦ Registered S ∧ Past S)
    ⟨hempty, hempty⟩ fun S l S' hinv halone hs ↦ ⟨hinv.1.step halone hs, hinv.2.step hs⟩
  refine ⟨hregistered i w hw, fun calls wakeAt hwaiting l hl ↦ ?_⟩
  obtain ⟨p, hs, hp⟩ : ∃ p, step S l = some (S.notifyWaiters p) ∧ p w.notify = true := by
    rcases List.mem_cons.1 hl with rfl | hl
    · refine ⟨fun m ↦ m = w.notify, ?_, by simp⟩
      rw [step, hregistered i w hw]
    · obtain rfl := List.mem_singleton.1 hl
      exact ⟨S.inRegistry, rfl, inRegistry_of_lookup (hregistered i w hw)⟩
  have hready := ready_notifyWaiters (p := p) hpast hw hwaiting hp
  refine ⟨_, hs, hready, fun deadline hkind hset ↦ ?_⟩
  obtain ⟨kind, key, n, phase⟩ := w
  obtain rfl : kind = .getEvent deadline := hkind
  obtain ⟨S'', hexec, hnow, hw'⟩ := exec_of_ready (S := S.notifyWaiters p) hw hready hset
  exact ⟨S'', hexec, hnow, _, hw', rfl⟩

/-- Waiter 0 waits in vain and leaves while waiter 1 waits under another key. Waiters 2 and 3 then
share the key it has left, and the event is set. -/
def inTurns : List Label :=
  [.enter 0 (.getEvent 1000) "w::k", .notified 0, .probe 0, .enter 1 (.getEvent 9000) "w::j",
    .notified 1, .probe 1, .elapse 1000, .wake 0, .notified 0, .probe 0, .leave 0,
    .enter 2 (.getEvent 5000) "w::k", .notified 2, .probe 2, .enter 3 (.getEvent 7000) "w::k",
    .notified 3, .probe 3, .setEvent "w::k"]

/-- Whether a waiter that leaves leaves nobody behind under its key. -/
def leavesAlone (S : State) : Label → Bool
  | .leave i => (S.waiters.lookup i).all fun w ↦ S.waiters.rows.all fun e ↦
      e.1 = i || e.2.kind.channel ≠ w.kind.channel || e.2.key ≠ w.key
  | _ => true

theorem leavesAlone_spec {S : State} {l : Label} (h : leavesAlone S l = true) :
    LeavesAlone S l := by
  rintro i w rfl hw j w' hj hw' hc hkey
  rw [leavesAlone, hw, Option.all_some, List.all_eq_true] at h
  have hrow := h (j, w') (Table.mem_rows_iff.2 hw')
  simp [hj, hc, hkey] at hrow

/-- The waiters that share a key after another one has left it. -/
theorem waiters_registered_inTurns : ∃ S w, exec step {} inTurns = some S ∧
    (S.waiters.lookup 0).isNone = true ∧ (S.waiters.lookup 1).isSome = true ∧
    (S.waiters.lookup 3).map Waiter.notify = some w.notify ∧
    S.waiters.lookup 2 = some w ∧
    (S.registry w.kind.channel).lookup w.key = some w.notify ∧
      ∀ calls wakeAt, w.phase = .waiting calls wakeAt →
        ∀ l ∈ [Label.recv w.kind.channel w.key, .wakeAll], ∃ S', step S l = some S' ∧
          S'.ready w = true ∧ ∀ deadline, w.kind = .getEvent deadline → w.key ∈ S.events →
            ∃ S'', exec step S' [.wake 2, .notified 2, .probe 2] = some S'' ∧ S''.now = S.now ∧
              ∃ w', S''.waiters.lookup 2 = some w' ∧ w'.phase = .finished true := by
  have hrun : (exec (fun S l ↦ if leavesAlone S l then step S l else none) {} inTurns).any
      (fun S ↦ (S.waiters.lookup 0).isNone && (S.waiters.lookup 1).isSome &&
        (S.waiters.lookup 2).any fun w ↦ (S.waiters.lookup 3).map Waiter.notify = some w.notify) =
      true := by
    decide +kernel
  obtain ⟨S, hS, hdone⟩ := (Option.any_eq_true _ _).1 hrun
  rw [Bool.and_eq_true, Bool.and_eq_true] at hdone
  obtain ⟨w, hw, hshared⟩ := (Option.any_eq_true _ _).1 hdone.2
  have hreach : Run step LeavesAlone {} S :=
    Run.of_exec_checked hS fun _ _ _ hcheck ↦ leavesAlone_spec hcheck
  exact ⟨S, w, exec_of_checked hS, hdone.1.1, hdone.1.2, of_decide_eq_true hshared, hw,
    waiters_registered hreach hw⟩

/-- Two `get_event`s wait for one event. The first one leaves, and then the event is set. -/
def firstLeaves : List Label :=
  [.enter 0 (.getEvent 1000) "w::k", .enter 1 (.getEvent 5000) "w::k", .notified 1, .probe 1,
    .leave 0, .setEvent "w::k"]

/-- The one that is left waits for its deadline: its `Notify` is no longer stored, and the listener
does not wake it. -/
theorem waiter_unregistered : ∃ S w, exec step {} firstLeaves = some S ∧
    S.waiters.lookup 1 = some w ∧ w.kind = .getEvent 5000 ∧ w.phase = .waiting 0 5000 ∧
    w.key ∈ S.events ∧ S.now < 5000 ∧ (S.registry w.kind.channel).lookup w.key = none ∧
    ∀ ls S', (∀ l ∈ ls, l.ofListener = true) → exec step S ls = some S' → S'.ready w = false := by
  have hrun : (exec step {} firstLeaves).any (fun S ↦ (S.waiters.lookup 1).any fun w ↦
      w.kind = .getEvent 5000 && w.phase = .waiting 0 5000 && decide (w.key ∈ S.events) &&
        decide (S.now < 5000) && ((S.registry w.kind.channel).lookup w.key).isNone &&
        !S.inRegistry w.notify && !S.ready w) = true := by
    decide +kernel
  obtain ⟨S, hS, hany⟩ := (Option.any_eq_true _ _).1 hrun
  obtain ⟨w, hw, hdone⟩ := (Option.any_eq_true _ _).1 hany
  simp only [Bool.and_eq_true, decide_eq_true_eq, Option.isNone_iff_eq_none,
    Bool.not_eq_true'] at hdone
  obtain ⟨⟨⟨⟨⟨⟨hkind, hphase⟩, hset⟩, hnow⟩, hnone⟩, hlost⟩, hready⟩ := hdone
  exact ⟨S, w, hS, hw, hkind, hphase, hset, hnow, hnone, fun ls S' hls hs ↦
    (ready_of_not_inRegistry hlost hls hs).trans hready⟩

end Dbos.Listener

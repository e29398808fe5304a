import DbosTransact.Db.Program
import DbosTransact.Runtime.Listener

/-!
# The keys of the waiters

A waiter waits for a pair: a mailbox is a workflow and a topic, an event or a stream a workflow and
a key. The registries of `runtime/listener.rs` and the payloads of the `NOTIFY` triggers know a pair
only as one string, the workflow's id and the other part with `::` between them. Either side may be
any string, so the string need not tell which pair it came from: `joined_eq_iff` lists the pairs
that are taken for each other.

`State` is what the registries hold of the active waiters, `refuses` the exclusive entry of `recv`,
and `reaches` what a notification finds. `separate_iff` says that two pairs are kept apart in every
state, by the entries and by the notifications, exactly when their strings do not overlap.
-/

namespace Dbos

open Listener (Channel WaiterRegistry)

/-! ### Strings with a separator -/

/-- The id of `q` goes on, after the separator of `p` or halfway into it, where the name of `p`
begins. -/
def Continues (p q : String × String) : Prop :=
  (∃ u, q.1 = p.1 ++ "::" ++ u ∧ p.2 = u ++ "::" ++ q.2) ∨ q.1 = p.1 ++ ":" ∧ p.2 = ":" ++ q.2

/-- One of the two ids goes on into the name that the other one comes with. -/
def Overlap (p q : String × String) : Prop := Continues p q ∨ Continues q p

/-- A pair as one string. -/
def joined (p : String × String) : String := p.1 ++ "::" ++ p.2

section

variable {p q : String × String}

theorem Continues.joined_eq (h : Continues p q) : joined p = joined q := by
  rw [joined, joined]
  obtain ⟨u, hq, hp⟩ | ⟨hq, hp⟩ := h
  · rw [hq, hp]
    simp only [String.append_assoc]
  · rw [hq, hp, String.append_assoc, String.append_assoc, String.append_assoc]
    rfl

/-- Of two pairs with the same string, the second has the longer id. -/
theorem eq_or_continues {id name id' name' rest : List Char} (hid : id' = id ++ rest)
    (hname : ':' :: ':' :: name = rest ++ ':' :: ':' :: name') :
    rest = [] ∧ name = name' ∨
      (∃ u, id' = id ++ [ ':', ':'] ++ u ∧ name = u ++ [ ':', ':'] ++ name') ∨
      id' = id ++ [ ':'] ∧ name = ':' :: name' := by
  match rest, hid, hname with
  | [], _, hname =>
    cases hname
    exact Or.inl ⟨rfl, rfl⟩
  | [c], hid, hname =>
    cases hname
    exact Or.inr (Or.inr ⟨hid, rfl⟩)
  | c :: c' :: u, hid, hname =>
    cases hname
    exact Or.inr (Or.inl ⟨u, by rw [hid, List.append_assoc]; rfl, by
      rw [List.append_assoc]; rfl⟩)

theorem continues_of_lists {rest : List Char} (hid : q.1.toList = p.1.toList ++ rest)
    (hname : ':' :: ':' :: p.2.toList = rest ++ ':' :: ':' :: q.2.toList) :
    p = q ∨ Continues p q := by
  obtain ⟨rfl, heq⟩ | ⟨u, hid, hname⟩ | ⟨hid, hname⟩ := eq_or_continues hid hname
  · refine Or.inl (Prod.ext (String.toList_inj.1 ?_) (String.toList_inj.1 heq))
    rw [hid, List.append_nil]
  · refine Or.inr (Or.inl ⟨String.ofList u, String.toList_inj.1 ?_, String.toList_inj.1 ?_⟩)
    · simpa using hid
    · simpa using hname
  · refine Or.inr (Or.inr ⟨String.toList_inj.1 ?_, String.toList_inj.1 ?_⟩)
    · simpa using hid
    · simpa using hname

/-- Two pairs have the same string when they are the same, or one id goes on into the other pair's
name. -/
theorem joined_eq_iff : joined p = joined q ↔ p = q ∨ Overlap p q := by
  constructor
  · intro h
    have hlist : p.1.toList ++ ':' :: ':' :: p.2.toList = q.1.toList ++
        ':' :: ':' :: q.2.toList := by
      simpa [joined] using congrArg String.toList h
    obtain ⟨rest, hid, hname⟩ | ⟨rest, hid, hname⟩ := List.append_eq_append_iff.1 hlist
    · exact (continues_of_lists hid hname).imp id Or.inl
    · exact (continues_of_lists hid hname).imp Eq.symm Or.inr
  · rintro (rfl | h | h)
    · rfl
    · exact h.joined_eq
    · exact h.joined_eq.symm

end

/-! ### What is waited for -/

/-- What a waiter waits for, as its caller names it. -/
inductive Subject
  /-- `recv` on a topic of the workflow's mailbox. -/
  | mailbox (workflowId : String) (topic : Option String)
  /-- `get_event` on an event of a workflow. -/
  | event (workflowId key : String)
  /-- A reader of a stream of a workflow. -/
  | stream (workflowId key : String)
  deriving DecidableEq, Repr

namespace Subject

/-- The registry and the channel of the subject. -/
def channel : Subject → Channel
  | mailbox .. => .notifications
  | event .. => .workflowEvents
  | stream .. => .streams

/-- The columns of the row that the subject waits for: `destination_uuid` and `topic`, or
`workflow_uuid` and `key`. -/
def row : Subject → String × String
  | mailbox w topic => (w, storedTopic topic)
  | event w key => (w, key)
  | stream w key => (w, key)

/-- `format!("{}::{}", …)`: the key a waiter registers under. -/
def waiterKey : Subject → String
  | mailbox w topic => s!"{w}::{storedTopic topic}"
  | event w key => s!"{w}::{key}"
  | stream w key => s!"{w}::{key}"

/-- The payload of `notifications_function`, `workflow_events_function` and `streams_function`. -/
def payload (p : Subject) : String := p.row.1 ++ "::" ++ p.row.2

/-- The code and the triggers agree. -/
theorem waiterKey_eq (p : Subject) : p.waiterKey = joined p.row := by
  cases p <;> rfl

theorem payload_eq (p : Subject) : p.payload = joined p.row := rfl

end Subject

/-! ### The registries -/

namespace Waiters

/-- An active waiter and its `Notify`. -/
structure Waiter where
  subject : Subject
  notify : ℕ
  deriving DecidableEq, Repr

/-- The registries with the waiters that are active, and the number of `Notify`s made. -/
structure State where
  registry : Channel → WaiterRegistry := fun _ ↦ ∅
  waiters : Table ℕ Waiter := ∅
  made : ℕ := 0

inductive Label
  /-- A call by the number `i` registers: `recv` if the entry is vacant, the others in any case. -/
  | enter (i : ℕ) (p : Subject)
  /-- `WaiterGuard::drop`. -/
  | leave (i : ℕ)
  deriving DecidableEq, Repr

namespace State

/-- The `Notify` registered for a subject. -/
def entry (S : State) (p : Subject) : Option ℕ := (S.registry p.channel).lookup p.waiterKey

/-- The `Notify` that the listener looks up for a row of the subject. -/
def notified (S : State) (p : Subject) : Option ℕ := (S.registry p.channel).lookup p.payload

/-- Waiter `i` under a `Notify` that exists, or under a new one. -/
def register (S : State) (i : ℕ) (p : Subject) : State :=
  match S.entry p with
  | some n => { S with waiters := S.waiters.insert i ⟨p, n⟩ }
  | none =>
    { registry := Function.update S.registry p.channel
        ((S.registry p.channel).insert p.waiterKey S.made)
      waiters := S.waiters.insert i ⟨p, S.made⟩
      made := S.made + 1 }

/-- The call of a `recv` that finds its entry occupied, by the waiter `i`, fails with
`ConflictingId`. -/
def Refuses (S : State) (i : ℕ) (p : Subject) : Prop :=
  p.channel = .notifications ∧ ∃ w, S.waiters.lookup i = some w ∧ S.entry p = some w.notify

/-- A notification for a row of `p` wakes the waiter `i`. -/
def Wakes (S : State) (i : ℕ) (p : Subject) : Prop :=
  ∃ w, S.waiters.lookup i = some w ∧ S.notified p = some w.notify

end State

def step (S : State) : Label → Option State
  | .enter i p =>
    if (S.waiters.lookup i).isSome then none
    else if p.channel = .notifications ∧ (S.entry p).isSome then some S
    else some (S.register i p)
  | .leave i =>
    match S.waiters.lookup i with
    | none => none
    | some w => some
        { S with
          registry := Function.update S.registry w.subject.channel
            ((S.registry w.subject.channel).erase w.subject.waiterKey)
          waiters := S.waiters.erase i }

/-- The states the registries of a process go through. -/
abbrev Reachable (S : State) : Prop := Run step (fun _ _ ↦ True) {} S

/-! ### Each `Notify` is of one key -/

/-- Each `Notify` was made for one key of one registry, and is found and held under that key
only. -/
structure Owned (owner : ℕ → Channel × String) (S : State) : Prop where
  entry : ∀ c key n, (S.registry c).lookup key = some n → n < S.made ∧ owner n = (c, key)
  waiter : ∀ i w, S.waiters.lookup i = some w →
    w.notify < S.made ∧ owner w.notify = (w.subject.channel, w.subject.waiterKey)

section

variable {owner : ℕ → Channel × String} {S S' : State} {i : ℕ} {p : Subject}

/-- What is stored after one entry was replaced was stored before, or is the replacement. -/
theorem lookup_update_cases {registry : Channel → WaiterRegistry} {c c' : Channel}
    {r : WaiterRegistry} {key : String} {n : ℕ}
    (h : (Function.update registry c r c').lookup key = some n) :
    c' = c ∧ r.lookup key = some n ∨ (registry c').lookup key = some n := by
  by_cases hc : c' = c
  · subst hc
    rw [Function.update_self] at h
    exact Or.inl ⟨rfl, h⟩
  · rw [Function.update_of_ne hc] at h
    exact Or.inr h

theorem lookup_insert_cases {β : Type} {κ : Type} [DecidableEq κ] {t : Table κ β} {k k' : κ}
    {b b' : β} (h : (t.insert k b).lookup k' = some b') :
    k' = k ∧ b' = b ∨ t.lookup k' = some b' := by
  by_cases hk : k' = k
  · subst hk
    rw [AList.lookup_insert] at h
    exact Or.inl ⟨rfl, (Option.some.inj h).symm⟩
  · rw [AList.lookup_insert_ne hk] at h
    exact Or.inr h

theorem lookup_of_erase {β : Type} {κ : Type} [DecidableEq κ] {t : Table κ β} {k k' : κ} {b : β}
    (h : (t.erase k).lookup k' = some b) : t.lookup k' = some b := by
  by_cases hk : k' = k
  · subst hk
    rw [AList.lookup_erase] at h
    cases h
  · rwa [AList.lookup_erase_ne hk] at h

/-- A waiter that finds an entry shares its `Notify`. -/
theorem Owned.share (h : Owned owner S) {n : ℕ} (hn : S.entry p = some n) :
    Owned owner { S with waiters := S.waiters.insert i ⟨p, n⟩ } := by
  refine ⟨h.entry, fun j w hw ↦ ?_⟩
  obtain ⟨-, rfl⟩ | hw := lookup_insert_cases hw
  · exact h.entry _ _ _ hn
  · exact h.waiter j w hw

/-- A waiter that finds none is the first one with a new `Notify`. -/
theorem Owned.make (h : Owned owner S) :
    Owned (Function.update owner S.made (p.channel, p.waiterKey))
      { registry := Function.update S.registry p.channel
          ((S.registry p.channel).insert p.waiterKey S.made)
        waiters := S.waiters.insert i ⟨p, S.made⟩
        made := S.made + 1 } := by
  have hold : ∀ {n : ℕ} {c : Channel} {key : String}, n < S.made ∧ owner n = (c, key) →
      n < S.made + 1 ∧
        Function.update owner S.made (p.channel, p.waiterKey) n = (c, key) := by
    rintro n c key ⟨hlt, howner⟩
    rw [Function.update_of_ne (by omega)]
    exact ⟨by omega, howner⟩
  have hnew : S.made < S.made + 1 ∧
      Function.update owner S.made (p.channel, p.waiterKey) S.made = (p.channel, p.waiterKey) :=
    ⟨by omega, Function.update_self ..⟩
  refine ⟨fun c key n hn ↦ ?_, fun j w hw ↦ ?_⟩
  · obtain ⟨rfl, hins⟩ | hn := lookup_update_cases hn
    · obtain ⟨rfl, rfl⟩ | hn := lookup_insert_cases hins
      · exact hnew
      · exact hold (h.entry _ _ _ hn)
    · exact hold (h.entry _ _ _ hn)
  · obtain ⟨-, rfl⟩ | hw := lookup_insert_cases hw
    · exact hnew
    · exact hold (h.waiter j w hw)

/-- **Step.** -/
theorem Owned.step {l : Label} (h : Owned owner S) (hs : Waiters.step S l = some S') :
    ∃ owner, Owned owner S' := by
  cases l with
  | enter i p =>
    simp only [Waiters.step] at hs
    split at hs
    · cases hs
    split at hs
    · cases hs
      exact ⟨owner, h⟩
    · cases hs
      unfold State.register
      split
      · rename_i n hn
        exact ⟨owner, h.share hn⟩
      · exact ⟨_, h.make⟩
  | leave i =>
    simp only [Waiters.step] at hs
    split at hs
    · cases hs
    · cases hs
      refine ⟨owner, fun c key n hn ↦ ?_, fun j w hw ↦ h.waiter j w (lookup_of_erase hw)⟩
      obtain ⟨rfl, herase⟩ | hn := lookup_update_cases hn
      · exact h.entry _ _ _ (lookup_of_erase herase)
      · exact h.entry _ _ _ hn

/-- **Run.** -/
theorem Reachable.owned (h : Reachable S) : ∃ owner, Owned owner S := by
  refine Run.invariant (P := fun S ↦ ∃ owner, Owned owner S) h ?_ ?_
  · exact ⟨fun _ ↦ (.notifications, ""), ⟨fun c key n hn ↦ (by cases hn),
      fun i w hw ↦ (by cases hw)⟩⟩
  · rintro S l S' ⟨owner, hS⟩ - hs
    exact hS.step hs

/-- The entry found under a key is held by waiters of that key only. -/
theorem Reachable.key_eq (h : Reachable S) {w : Waiter} {c : Channel} {key : String}
    (hw : S.waiters.lookup i = some w) (hentry : (S.registry c).lookup key = some w.notify) :
    w.subject.channel = c ∧ w.subject.waiterKey = key := by
  obtain ⟨owner, hS⟩ := h.owned
  have heq := (hS.waiter i w hw).2.symm.trans (hS.entry c key _ hentry).2
  exact ⟨congrArg Prod.fst heq, congrArg Prod.snd heq⟩

end

/-- In their registry the keys and payloads of two subjects differ, and in no reachable state is a
call for the second refused because of an active waiter of the first, or such a waiter woken by a
notification for the second. -/
structure Separate (p q : Subject) : Prop where
  key : p.channel = q.channel → p.waiterKey ≠ q.waiterKey
  payload : p.channel = q.channel → p.payload ≠ q.payload
  refuses : ∀ S, Reachable S → ∀ i w, S.waiters.lookup i = some w → w.subject = p →
    ¬ S.Refuses i q
  wakes : ∀ S, Reachable S → ∀ i w, S.waiters.lookup i = some w → w.subject = p → ¬ S.Wakes i q

/-- Two subjects are kept apart exactly when they are of different kinds, or else wait for different
rows of which neither id goes on into the name that the other one comes with. -/
theorem separate_iff (p q : Subject) :
    Separate p q ↔ (p.channel = q.channel → p.row ≠ q.row ∧ ¬ Overlap p.row q.row) := by
  have hkey : p.waiterKey = q.waiterKey ↔ p.row = q.row ∨ Overlap p.row q.row := by
    rw [p.waiterKey_eq, q.waiterKey_eq, joined_eq_iff]
  simp only [← not_or, ← hkey]
  refine ⟨Separate.key, fun hdiff ↦ ⟨hdiff, ?_, ?_, ?_⟩⟩
  · rwa [p.payload_eq, q.payload_eq, ← p.waiterKey_eq, ← q.waiterKey_eq]
  · rintro S hS i w hw rfl ⟨-, w', hw', hentry⟩
    cases hw.symm.trans hw'
    obtain ⟨hkind, hsame⟩ := hS.key_eq hw hentry
    exact hdiff hkind hsame
  · rintro S hS i w hw rfl ⟨w', hw', hentry⟩
    cases hw.symm.trans hw'
    rw [State.notified, q.payload_eq, ← q.waiterKey_eq] at hentry
    obtain ⟨hkind, hsame⟩ := hS.key_eq hw hentry
    exact hdiff hkind hsame

/-- The id `a::b` takes up the separator of a topic `b::c` of the workflow `a`. A `recv` of the one
is refused while the other one waits, and wakes it up when it has its message. -/
theorem not_separate :
    ∃ S, Reachable S ∧ S.waiters.lookup 0 = some ⟨.mailbox "a" (some "b::c"), 0⟩ ∧
      S.Refuses 0 (.mailbox "a::b" (some "c")) ∧ S.Wakes 0 (.mailbox "a::b" (some "c")) ∧
      ¬ Separate (.mailbox "a" (some "b::c")) (.mailbox "a::b" (some "c")) := by
  have hreach : Reachable (State.register {} 0 (.mailbox "a" (some "b::c"))) :=
    Run.of_exec (show exec step {} [.enter 0 (.mailbox "a" (some "b::c"))] = some _ from rfl)
      fun _ _ _ ↦ trivial
  have hentry : State.entry (State.register {} 0 (.mailbox "a" (some "b::c")))
      (.mailbox "a::b" (some "c")) = some 0 := by
    decide +kernel
  have hrefuses : State.Refuses (State.register {} 0 (.mailbox "a" (some "b::c"))) 0
      (.mailbox "a::b" (some "c")) :=
    ⟨rfl, ⟨.mailbox "a" (some "b::c"), 0⟩, rfl, hentry⟩
  exact ⟨_, hreach, rfl, hrefuses, ⟨⟨.mailbox "a" (some "b::c"), 0⟩, rfl, hentry⟩,
    fun h ↦ h.refuses _ hreach 0 _ rfl rfl hrefuses⟩

end Waiters

end Dbos

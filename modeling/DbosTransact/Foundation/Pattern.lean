import Mathlib.Data.List.Forall2
import Mathlib.Data.List.Infix

/-!
# Patterns and their replacement

The regular expressions that are a sequence of pieces: one symbol of a class, or as many symbols of
a class as there are. A match is the one that a backtracking engine finds at the leftmost position
where there is one, and each piece takes as much as it can: that is `matchAt`, which gives the text
that each piece has taken. `replaceAll` goes through a text and replaces all matches that do not
overlap.

`Reads` says what a match is without any search: each repeated piece has taken all there was. Such a
reading is always the match that is found, and there is no other one if every repeated piece is
followed by a symbol that it could not have taken itself (`Separated`).

`replaceAll_append` tells when a text can be cut in two and the parts be dealt with on their own.
-/

namespace Pattern

/-- A piece of a pattern. -/
inductive Piece (α : Type)
  /-- one symbol of the class -/
  | one (cls : α → Bool)
  /-- as many symbols of the class as there are -/
  | many (cls : α → Bool)

section

variable {α : Type}

/-! ### The engine -/

/-- Take symbols of a class, as many as possible provided that `k` succeeds on what is left. -/
def takeThen {β : Type} (cls : α → Bool) (k : List α → Option β) : List α → Option (List α × β)
  | [] => (k []).map fun r ↦ ([], r)
  | c :: s =>
    if cls c then
      match takeThen cls k s with
      | some r => some (c :: r.1, r.2)
      | none => (k (c :: s)).map fun r ↦ ([], r)
    else (k (c :: s)).map fun r ↦ ([], r)

/-- Match a pattern at the beginning of a text: what each piece has taken, and what is left. -/
def matchAt : List (Piece α) → List α → Option (List (List α) × List α)
  | [], s => some ([], s)
  | .one _ :: _, [] => none
  | .one cls :: ps, c :: s =>
    if cls c then (matchAt ps s).map fun r ↦ ([c] :: r.1, r.2) else none
  | .many cls :: ps, s => (takeThen cls (matchAt ps) s).map fun r ↦ (r.1 :: r.2.1, r.2.2)

/-- Replace the matches in a text after the first `n` symbols, which are left out. -/
def replaceFrom (ps : List (Piece α)) (sub : List (List α) → List α) : ℕ → List α → List α
  | _, [] => []
  | n + 1, _ :: s => replaceFrom ps sub n s
  | 0, c :: s =>
    match matchAt ps (c :: s) with
    | some (m, _) => sub m ++ replaceFrom ps sub (m.flatten.length - 1) s
    | none => c :: replaceFrom ps sub 0 s

/-- Replace all matches in a text. -/
def replaceAll (ps : List (Piece α)) (sub : List (List α) → List α) (s : List α) : List α :=
  replaceFrom ps sub 0 s

/-! ### Readings -/

/-- The pieces read the texts in front of `r`, and no repeated piece could have taken more. -/
inductive Reads : List (Piece α) → List (List α) → List α → Prop
  | nil (r : List α) : Reads [] [] r
  | one {cls : α → Bool} {c : α} {ps : List (Piece α)} {m : List (List α)} {r : List α}
      (hc : cls c = true) (h : Reads ps m r) : Reads (.one cls :: ps) ([c] :: m) r
  | many {cls : α → Bool} {t : List α} {ps : List (Piece α)} {m : List (List α)} {r : List α}
      (ht : ∀ c ∈ t, cls c = true) (hstop : ∀ c ∈ (m.flatten ++ r).head?, cls c = false)
      (h : Reads ps m r) : Reads (.many cls :: ps) (t :: m) r

/-- Every repeated piece is the last one or followed by a symbol it cannot take. -/
def Separated : List (Piece α) → Prop
  | [] => True
  | .one _ :: ps => Separated ps
  | [.many _] => True
  | .many cls :: .one cls' :: ps => (∀ c, cls c = true → cls' c = false) ∧ Separated ps
  | .many _ :: .many _ :: _ => False

theorem takeThen_append {β : Type} {cls : α → Bool} {k : List α → Option β} {t s : List α} {b : β}
    (ht : ∀ c ∈ t, cls c = true) (hs : ∀ c ∈ s.head?, cls c = false) (hk : k s = some b) :
    takeThen cls k (t ++ s) = some (t, b) := by
  induction t with
  | nil =>
    cases s with
    | nil => simp [takeThen, hk]
    | cons c s =>
      have hc : cls c = false := hs c rfl
      simp [takeThen, hc, hk]
  | cons c t ih =>
    have hc : cls c = true := ht c List.mem_cons_self
    simp [takeThen, hc, ih fun d hd ↦ ht d (List.mem_cons_of_mem c hd)]

/-- A reading is the match that is found. -/
theorem Reads.matchAt {ps : List (Piece α)} {m : List (List α)} {r : List α} (h : Reads ps m r) :
    matchAt ps (m.flatten ++ r) = some (m, r) := by
  induction h with
  | nil r => rfl
  | one hc h ih => simp [Pattern.matchAt, hc, ih]
  | many ht hstop h ih =>
    rw [List.flatten_cons, List.append_assoc, Pattern.matchAt, takeThen_append ht hstop ih]
    rfl

/-- What is taken, if the rest begins with a symbol of another class. -/
theorem takeThen_eq_some {β : Type} {cls : α → Bool} {k : List α → Option β}
    (hk : ∀ c s, cls c = true → k (c :: s) = none) {s t : List α} {b : β}
    (h : takeThen cls k s = some (t, b)) :
    (∀ c ∈ t, cls c = true) ∧
      ∃ s', s = t ++ s' ∧ k s' = some b ∧ ∀ c ∈ s'.head?, cls c = false := by
  induction s generalizing t with
  | nil =>
    obtain ⟨b', hb, heq⟩ := Option.map_eq_some_iff.1 h
    cases heq
    exact ⟨nofun, [], rfl, hb, nofun⟩
  | cons c s ih =>
    rw [takeThen] at h
    by_cases hc : cls c = true
    · rw [if_pos hc, hk c s hc] at h
      cases hrest : takeThen cls k s with
      | none =>
        rw [hrest] at h
        cases h
      | some r =>
        rw [hrest] at h
        cases h
        obtain ⟨hall, s', rfl, hb, hstop⟩ := ih hrest
        refine ⟨fun d hd ↦ ?_, s', rfl, hb, hstop⟩
        rcases List.mem_cons.1 hd with rfl | hd
        · exact hc
        · exact hall d hd
    · rw [if_neg hc] at h
      obtain ⟨b', hb, heq⟩ := Option.map_eq_some_iff.1 h
      cases heq
      refine ⟨nofun, c :: s, rfl, hb, fun d hd ↦ ?_⟩
      obtain rfl := Option.some.inj hd
      exact Bool.eq_false_iff.2 hc

/-- With nothing after it, a piece takes all there is. -/
theorem takeThen_some {cls : α → Bool} (s : List α) :
    takeThen cls (Pattern.matchAt []) s = some (s.takeWhile cls, ([], s.dropWhile cls)) := by
  induction s with
  | nil => rfl
  | cons c s ih =>
    by_cases hc : cls c = true
    · simp [takeThen, hc, ih]
    · simp [takeThen, hc, Pattern.matchAt]

/-- In a separated pattern, the match that is found is a reading. -/
theorem reads_of_matchAt {ps : List (Piece α)} (hps : Separated ps) {s r : List α}
    {m : List (List α)} (h : Pattern.matchAt ps s = some (m, r)) :
    Reads ps m r ∧ s = m.flatten ++ r := by
  induction ps generalizing s m r with
  | nil =>
    cases h
    exact ⟨.nil _, rfl⟩
  | cons p ps ih =>
    cases p with
    | one cls =>
      cases s with
      | nil => cases h
      | cons c s =>
        rw [Pattern.matchAt] at h
        split at h
        · rename_i hc
          obtain ⟨⟨m', r'⟩, hrest, heq⟩ := Option.map_eq_some_iff.1 h
          cases heq
          obtain ⟨hreads, rfl⟩ := ih hps hrest
          exact ⟨.one hc hreads, rfl⟩
        · cases h
    | many cls =>
      rw [Pattern.matchAt] at h
      obtain ⟨⟨t, m', r'⟩, htake, heq⟩ := Option.map_eq_some_iff.1 h
      cases heq
      cases ps with
      | nil =>
        rw [takeThen_some] at htake
        cases htake
        refine ⟨.many (List.all_eq_true.1 List.all_takeWhile) (fun c hc ↦ ?_) (.nil _), ?_⟩
        · rw [List.flatten_nil, List.nil_append] at hc
          have hhead := List.head?_dropWhile_not cls s
          rw [Option.mem_def.1 hc] at hhead
          simpa using hhead
        · simp
      | cons q ps =>
        cases q with
        | many cls' => exact hps.elim
        | one cls' =>
          obtain ⟨hall, s', rfl, hrest, hstop⟩ := takeThen_eq_some (fun c s hc ↦ by
            rw [Pattern.matchAt, if_neg]
            simp [hps.1 c hc]) htake
          obtain ⟨hreads, rfl⟩ := ih hps.2 hrest
          exact ⟨.many hall hstop hreads, by simp⟩

/-! ### A word in front of a pattern -/

section

variable {β : Type} {f : β → α → Bool} {ls : List β} {ps : List (Piece α)}

theorem separated_word : Separated (ls.map (fun l ↦ .one (f l)) ++ ps) ↔ Separated ps := by
  induction ls with
  | nil => rfl
  | cons l ls ih => exact ih

/-- A word is read symbol by symbol. -/
theorem reads_word_iff {m : List (List α)} {r : List α} :
    Reads (ls.map (fun l ↦ .one (f l)) ++ ps) m r ↔
      ∃ k m', List.Forall₂ (fun l c ↦ f l c = true) ls k ∧ m = k.map ([·]) ++ m' ∧
        Reads ps m' r := by
  induction ls generalizing m with
  | nil =>
    refine ⟨fun h ↦ ⟨[], m, .nil, rfl, h⟩, ?_⟩
    rintro ⟨k, m', hk, rfl, h⟩
    cases hk
    exact h
  | cons l ls ih =>
    constructor
    · intro h
      rw [List.map_cons, List.cons_append] at h
      cases h with
      | one hc h =>
        obtain ⟨k, m', hk, rfl, hrest⟩ := ih.1 h
        exact ⟨_ :: k, m', .cons hc hk, rfl, hrest⟩
    · rintro ⟨k, m', hk, rfl, hrest⟩
      cases hk with
      | cons hc hk => exact .one hc (ih.2 ⟨_, m', hk, rfl, hrest⟩)

/-- Every symbol of a text that a word reads is one for a symbol of the word. -/
theorem exists_mem_of_forall₂ {k : List α} (h : List.Forall₂ (fun l c ↦ f l c = true) ls k) {c : α}
    (hc : c ∈ k) : ∃ l ∈ ls, f l c = true := by
  induction h with
  | nil => cases hc
  | cons hd _ ih =>
    rcases List.mem_cons.1 hc with rfl | hc
    · exact ⟨_, List.mem_cons_self, hd⟩
    · obtain ⟨l, hl, hf⟩ := ih hc
      exact ⟨l, List.mem_cons_of_mem _ hl, hf⟩

/-- A text that leaves the word has no match. -/
theorem matchAt_word_eq_none (ps : List (Piece α)) {l : β} (ls' : List β) {k t : List α} {c : α}
    (hk : List.Forall₂ (fun l c ↦ f l c = true) ls k) (hc : f l c = false) :
    Pattern.matchAt ((ls ++ l :: ls').map (fun l ↦ .one (f l)) ++ ps) (k ++ c :: t) = none := by
  induction hk with
  | nil => simp [Pattern.matchAt, hc]
  | cons hd hk ih =>
    rw [List.cons_append, List.map_cons, List.cons_append, List.cons_append, Pattern.matchAt,
      if_pos hd, ih, Option.map_none]

end

/-! ### Replacement -/

/-- A pattern whose matches are readings and take at least one symbol. -/
structure Proper (ps : List (Piece α)) : Prop where
  separated : Separated ps
  begins : ∃ cls ps', ps = .one cls :: ps'

variable {ps : List (Piece α)} {sub : List (List α) → List α} {m : List (List α)} {r s : List α}

theorem Proper.ne_nil (hps : Proper ps) (h : Reads ps m r) : m.flatten ≠ [] := by
  obtain ⟨cls, ps', rfl⟩ := hps.begins
  cases h
  exact List.cons_ne_nil _ _

/-- Whether there is a match is whether there is a reading. -/
theorem Proper.matchAt_eq_none_iff (hps : Proper ps) :
    Pattern.matchAt ps s = none ↔ ∀ m r, Reads ps m r → s ≠ m.flatten ++ r := by
  refine ⟨fun h m r hreads heq ↦ ?_, fun h ↦ ?_⟩
  · rw [heq, hreads.matchAt] at h
    cases h
  · refine Option.eq_none_iff_forall_ne_some.2 fun ⟨m, r⟩ hmatch ↦ ?_
    obtain ⟨hreads, heq⟩ := reads_of_matchAt hps.separated hmatch
    exact h m r hreads heq

theorem replaceFrom_eq (n : ℕ) (s : List α) :
    replaceFrom ps sub n s = replaceAll ps sub (s.drop n) := by
  induction s generalizing n with
  | nil => cases n <;> rfl
  | cons c s ih =>
    cases n with
    | zero => rfl
    | succ n => exact ih n

@[simp] theorem replaceAll_nil : replaceAll ps sub [] = [] := rfl

/-- No match begins at the first symbol. -/
theorem replaceAll_cons {c : α} (h : Pattern.matchAt ps (c :: s) = none) :
    replaceAll ps sub (c :: s) = c :: replaceAll ps sub s := by
  rw [replaceAll, replaceFrom, h]
  rfl

/-- A match begins at the first symbol. -/
theorem Proper.replaceAll_reads (hps : Proper ps) (h : Reads ps m r) :
    replaceAll ps sub (m.flatten ++ r) = sub m ++ replaceAll ps sub r := by
  have hmatch := h.matchAt
  obtain ⟨c, t, hct⟩ := List.exists_cons_of_ne_nil (hps.ne_nil h)
  rw [hct, List.cons_append] at hmatch ⊢
  rw [replaceAll, replaceFrom, hmatch]
  dsimp only
  rw [replaceFrom_eq, hct, List.length_cons, Nat.add_sub_cancel, List.drop_left]

/-- Induction along the matches that are replaced. -/
theorem Proper.induction (hps : Proper ps) {P : List α → Prop} (nil : P [])
    (skip : ∀ c s, Pattern.matchAt ps (c :: s) = none → P s → P (c :: s))
    (reads : ∀ m r, Reads ps m r → P r → P (m.flatten ++ r)) (s : List α) : P s := by
  induction hn : s.length using Nat.strong_induction_on generalizing s with
  | _ n ih =>
    cases s with
    | nil => exact nil
    | cons c s =>
      cases hmatch : Pattern.matchAt ps (c :: s) with
      | none => exact skip c s hmatch (ih s.length (by simp [← hn]) s rfl)
      | some mr =>
        obtain ⟨hreads, heq⟩ := reads_of_matchAt (r := mr.2) hps.separated hmatch
        rw [heq]
        refine reads _ _ hreads (ih _ ?_ mr.2 rfl)
        have hpos := List.length_pos_iff.2 (hps.ne_nil hreads)
        rw [← hn, heq, List.length_append]
        omega

/-- A text can be cut where no match goes across: a match in the first part goes no further when the
second part follows, and one that begins in the first part ends in it. -/
theorem Proper.replaceAll_append (hps : Proper ps) {x y : List α}
    (hwithin : ∀ v m r, v <:+ x → Reads ps m r → v = m.flatten ++ r → Reads ps m (r ++ y))
    (hacross : ∀ v m r, v <:+ x → v ≠ [] → Reads ps m r → v ++ y = m.flatten ++ r →
      ∃ r', v = m.flatten ++ r' ∧ Reads ps m r') :
    replaceAll ps sub (x ++ y) = replaceAll ps sub x ++ replaceAll ps sub y := by
  have upto : ∀ v, v <:+ x →
      replaceAll ps sub (v ++ y) = replaceAll ps sub v ++ replaceAll ps sub y := by
    refine hps.induction (fun _ ↦ by simp) (fun c s hnone ih hv ↦ ?_) fun m r hreads ih hv ↦ ?_
    · have hnone' : Pattern.matchAt ps (c :: (s ++ y)) = none := by
        refine hps.matchAt_eq_none_iff.2 fun m r hreads heq ↦ ?_
        obtain ⟨r', heq', hreads'⟩ := hacross _ m r hv (List.cons_ne_nil c s) hreads heq
        exact hps.matchAt_eq_none_iff.1 hnone m r' hreads' heq'
      rw [List.cons_append, replaceAll_cons hnone', replaceAll_cons hnone, List.cons_append,
        ih ((List.suffix_cons c s).trans hv)]
    · rw [hps.replaceAll_reads hreads, List.append_assoc,
        hps.replaceAll_reads (hwithin _ m r hv hreads rfl), ih ((List.suffix_append _ r).trans hv),
        List.append_assoc]
  exact upto x List.suffix_rfl

/-- Nothing is left of a text only if there was none. -/
theorem Proper.replaceAll_eq_nil_iff (hps : Proper ps) (hsub : ∀ m, sub m ≠ []) :
    replaceAll ps sub s = [] ↔ s = [] := by
  refine ⟨?_, ?_⟩
  · refine hps.induction (P := fun s ↦ replaceAll ps sub s = [] → s = []) (fun _ ↦ rfl)
      (fun c s hnone _ h ↦ ?_) (fun m r hreads _ h ↦ ?_) s
    · rw [replaceAll_cons hnone] at h
      cases h
    · rw [hps.replaceAll_reads hreads] at h
      exact absurd (List.append_eq_nil_iff.1 h).1 (hsub m)
  · rintro rfl
    rfl

end

end Pattern

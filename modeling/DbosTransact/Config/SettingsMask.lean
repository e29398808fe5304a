import DbosTransact.Config.UrlMask
import Mathlib

/-!
# Masking settings

What `kvRe` makes of a text. Whether the pattern is in the middle of a match depends only on the
text read so far, so `Scan` reads the text from the left: it has seen some letters of the key, the
key and white space, the equality sign and white space, or the beginning of the value. `Pending` is
the text that a match which is not complete has read.

If a value comes next, solid text is masked with the key, up to the next white space
(`exists_maskKv_value`). This is more than the value of a setting if settings are not separated, and
less if the value is quoted and has white space in it.
-/

namespace Dbos

open Pattern

/-! ### The pattern for settings -/

theorem toLower_of_isWhitespace {c : Char} (h : isWhitespace c = true) : c.toLower = c := by
  have hupper : ¬ (c.val ≥ 'A'.val ∧ c.val ≤ 'Z'.val) := by
    rintro ⟨hA, hZ⟩
    have hA' : 65 ≤ c.toNat := hA
    have hZ' : c.toNat ≤ 90 := hZ
    simp only [isWhitespace, Bool.or_eq_true, Bool.and_eq_true, decide_eq_true_eq] at h
    omega
  rw [Char.toLower, dif_neg hupper]

/-- White space is no letter of the key. -/
theorem folds_of_isWhitespace {l c : Char} (hl : isWhitespace l = false)
    (h : isWhitespace c = true) :
    folds l c = false := by
  rw [folds, toLower_of_isWhitespace h, Bool.or_eq_false_iff]
  refine ⟨decide_eq_false ?_, ?_⟩
  · rintro rfl
    rw [h] at hl
    cases hl
  · rw [Bool.and_eq_false_iff]
    refine Or.inr (decide_eq_false ?_)
    rintro rfl
    exact absurd h (by decide)

theorem passwordKey_eq (n : ℕ) (hn : n < 8) :
    ∃ l ls', passwordKey = passwordKey.take n ++ l :: ls' ∧ passwordKey[n]? = some l ∧
      isWhitespace l = false ∧ folds l '=' = false ∧ (0 < n → l ≠ 'p') := by
  interval_cases n <;> exact ⟨_, _, rfl, rfl, by decide, by decide, by decide⟩

/-- Only the first letter of the key is a `p`. -/
theorem folds_p_of_ne {l c : Char} (hl : l ≠ 'p') (h : folds l c = true) : folds 'p' c = false := by
  rw [folds, Bool.or_eq_true] at h
  rw [folds, Bool.or_eq_false_iff]
  refine ⟨decide_eq_false fun hp ↦ ?_, rfl⟩
  rcases h with h | h
  · exact hl ((of_decide_eq_true h).symm.trans hp)
  · rw [Bool.and_eq_true] at h
    obtain rfl := of_decide_eq_true h.2
    exact absurd hp (by decide)

/-- The key, in whatever case. -/
abbrev IsKey (k : List Char) : Prop := List.Forall₂ (fun l c ↦ folds l c = true) passwordKey k

/-- White space only. -/
abbrev IsBlank (g : List Char) : Prop := ∀ c ∈ g, isWhitespace c = true

/-- No white space. -/
abbrev IsSolid (v : List Char) : Prop := ∀ c ∈ v, isWhitespace c = false

/-- What follows a value: nothing, or white space first. -/
abbrev Parted (s : List Char) : Prop := ∀ c ∈ s.head?, isWhitespace c = true

theorem proper_kvRe : Proper kvRe where
  separated := by
    refine separated_word.2 ⟨fun c hc ↦ decide_eq_false ?_, fun c hc ↦ by simp [hc], trivial⟩
    rintro rfl
    exact absurd hc (by decide)
  begins := ⟨_, _, rfl⟩

theorem reads_kvRe_iff {m : List (List Char)} {r : List Char} :
    Reads kvRe m r ↔ ∃ k g g' c v, IsKey k ∧ IsBlank g ∧ IsBlank g' ∧ isWhitespace c = false ∧
      IsSolid v ∧ Parted r ∧ m = k.map ([·]) ++ [g, ['='], g', [c], v] := by
  rw [kvRe, reads_word_iff]
  constructor
  · rintro ⟨k, m', hk, rfl, h⟩
    cases h with | many hg _ h =>
    cases h with | one heq h =>
    cases h with | many hg' _ h =>
    cases h with | one hc h =>
    cases h with | many hv hr h =>
    cases h
    obtain rfl := of_decide_eq_true heq
    refine ⟨k, _, _, _, _, hk, hg, hg', by simpa using hc, fun d hd ↦ by simpa using hv d hd,
      fun d hd ↦ by simpa using hr d hd, rfl⟩
  · rintro ⟨k, g, g', c, v, hk, hg, hg', hc, hv, hr, rfl⟩
    refine ⟨k, _, hk, rfl, .many hg (fun d hd ↦ by cases hd; rfl) (.one rfl (.many hg'
      (fun d hd ↦ by cases hd; exact hc) (.one (by simp [hc]) (.many (fun d hd ↦ by simp [hv d hd])
        (fun d hd ↦ by simp [hr d hd]) (.nil r)))))⟩

/-- The text of a setting of the key. -/
def kvText (k g g' v : List Char) : List Char := k ++ g ++ '=' :: g' ++ v

/-- A setting of the key is replaced. -/
theorem maskKv_kvText {k g g' v r : List Char} (hk : IsKey k) (hg : IsBlank g) (hg' : IsBlank g')
    (hne : v ≠ []) (hv : IsSolid v) (hr : Parted r) :
    replaceAll kvRe (fun _ ↦ kvMask) (kvText k g g' v ++ r) =
      kvMask ++ replaceAll kvRe (fun _ ↦ kvMask) r := by
  obtain ⟨c, v, rfl⟩ := List.exists_cons_of_ne_nil hne
  obtain ⟨hc, hv⟩ := List.forall_mem_cons.1 hv
  have hreads := reads_kvRe_iff.2 ⟨k, g, g', c, v, hk, hg, hg', hc, hv, hr, rfl⟩
  have heq : replaceAll kvRe (fun _ ↦ kvMask) _ = kvMask ++ replaceAll kvRe (fun _ ↦ kvMask) r :=
    proper_kvRe.replaceAll_reads hreads
  have hflat : (k.map ([·])).flatten = k := by
    rw [← List.flatMap_def, List.flatMap_singleton']
  simpa [kvText, hflat] using heq

/-- Text that cannot begin a match is kept. -/
theorem maskKv_append_of_forall {v s : List Char} (hv : ∀ c ∈ v, folds 'p' c = false) :
    replaceAll kvRe (fun _ ↦ kvMask) (v ++ s) = v ++ replaceAll kvRe (fun _ ↦ kvMask) s := by
  induction v with
  | nil => rfl
  | cons c v ih =>
    obtain ⟨hc, hv⟩ := List.forall_mem_cons.1 hv
    have hnone : matchAt kvRe (c :: (v ++ s)) = none :=
      matchAt_word_eq_none _ passwordKey.tail .nil hc
    rw [List.cons_append, replaceAll_cons hnone, ih hv, List.cons_append]

theorem maskKv_cons_of_folds {c : Char} {s : List Char} (hc : folds 'p' c = false) :
    replaceAll kvRe (fun _ ↦ kvMask) (c :: s) = c :: replaceAll kvRe (fun _ ↦ kvMask) s :=
  maskKv_append_of_forall (v := [c]) (by simpa using hc)

/-- Text that begins like a match, but has none, is kept. -/
theorem maskKv_append_of_none {r s : List Char} (hnone : matchAt kvRe (r ++ s) = none)
    (hr : ∀ c ∈ r.tail, folds 'p' c = false) :
    replaceAll kvRe (fun _ ↦ kvMask) (r ++ s) = r ++ replaceAll kvRe (fun _ ↦ kvMask) s := by
  cases r with
  | nil => rfl
  | cons c r =>
    rw [List.cons_append] at hnone ⊢
    rw [replaceAll_cons hnone, maskKv_append_of_forall (v := r) hr, List.cons_append]

/-! ### Reading settings from the left -/

/-- Where the reader of a connection string with settings is: it has read `n` letters of the key,
the key, the equality sign after it, or the beginning of its value. -/
inductive Scan
  | word (n : ℕ)
  | key
  | equals
  | value
  deriving DecidableEq

namespace Scan

/-- Outside the key, only its first letter counts. -/
def restart (c : Char) : Scan := if folds 'p' c then word 1 else word 0

/-- Read a character. -/
def step : Scan → Char → Scan
  | word n, c =>
    if passwordKey[n]?.any (folds · c) then (if n = 7 then key else word (n + 1)) else restart c
  | key, c => if isWhitespace c then key else if c = '=' then equals else restart c
  | equals, c => if isWhitespace c then equals else value
  | value, c => if isWhitespace c then word 0 else value

/-- The value of the key has begun, or is what comes next. -/
def inValue (σ : Scan) : Bool := σ = equals || σ = value

end Scan

/-- Read a text. -/
def scan (s : List Char) : Scan := s.foldl Scan.step (.word 0)

/-- The text `r` is what has been read of a setting of the key. -/
inductive Pending : Scan → List Char → Prop
  | word {n : ℕ} {r : List Char} (hn : n < 8)
      (h : List.Forall₂ (fun l c ↦ folds l c = true) (passwordKey.take n) r) : Pending (.word n) r
  | key {k g : List Char} (hk : IsKey k) (hg : IsBlank g) : Pending .key (k ++ g)
  | equals {k g g' : List Char} (hk : IsKey k) (hg : IsBlank g) (hg' : IsBlank g') :
      Pending .equals (kvText k g g' [])
  | value {k g g' v : List Char} (hk : IsKey k) (hg : IsBlank g) (hg' : IsBlank g') (hne : v ≠ [])
      (hv : IsSolid v) : Pending .value (kvText k g g' v)

/-- The letters of the key after the first one. -/
theorem folds_p_of_tail {n : ℕ} {r : List Char}
    (h : List.Forall₂ (fun l c ↦ folds l c = true) (passwordKey.take n) r) :
    ∀ c ∈ r.tail, folds 'p' c = false := by
  cases n with
  | zero =>
    rw [List.take_zero] at h
    cases h
    exact fun _ hc ↦ by cases hc
  | succ n =>
    rw [passwordKey, List.take_succ_cons] at h
    cases h with
    | cons _ h =>
      intro c hc
      obtain ⟨l, hl, hfolds⟩ := exists_mem_of_forall₂ h hc
      refine folds_p_of_ne ?_ hfolds
      rintro rfl
      exact absurd (List.mem_of_mem_take hl) (by decide)

theorem folds_p_of_isWhitespace {c : Char} (h : isWhitespace c = true) : folds 'p' c = false :=
  folds_of_isWhitespace rfl h

/-- What is pending begins like a match only at its beginning. -/
theorem Pending.folds_tail {σ : Scan} {r : List Char} (h : Pending σ r) (hσ : σ.inValue = false) :
    ∀ c ∈ r.tail, folds 'p' c = false := by
  cases h with
  | word hn h => exact folds_p_of_tail h
  | key hk hg =>
    cases hk with
    | cons hd hk =>
      intro c hc
      rcases List.mem_append.1 hc with hc | hc
      · exact folds_p_of_tail (n := 8) (.cons hd hk) c hc
      · exact folds_p_of_isWhitespace (hg c hc)
  | equals => cases hσ
  | value => cases hσ

theorem reads_kvText {m : List (List Char)} {r : List Char} (h : Reads kvRe m r) :
    ∃ k g g' v, IsKey k ∧ IsBlank g ∧ IsBlank g' ∧ v ≠ [] ∧ IsSolid v ∧ Parted r ∧
      m.flatten = kvText k g g' v := by
  obtain ⟨k, g, g', c, v, hk, hg, hg', hc, hv, hr, rfl⟩ := reads_kvRe_iff.1 h
  have hflat : (k.map ([·])).flatten = k := by
    rw [← List.flatMap_def, List.flatMap_singleton']
  exact ⟨k, g, g', c :: v, hk, hg, hg', List.cons_ne_nil c v, List.forall_mem_cons.2 ⟨hc, hv⟩, hr,
    by simp [kvText, hflat]⟩

/-- A key that is not followed by an equality sign is no match. -/
theorem matchAt_key_eq_none {k g s : List Char} {c : Char} (hk : IsKey k) (hg : IsBlank g)
    (hc : isWhitespace c = false) (heq : c ≠ '=') : matchAt kvRe (k ++ g ++ c :: s) = none := by
  refine proper_kvRe.matchAt_eq_none_iff.2 fun m r hreads htext ↦ heq ?_
  obtain ⟨k', g₁, g₂, v, hk', hg₁, -, -, -, -, hflat⟩ := reads_kvText hreads
  rw [hflat, kvText] at htext
  have hsplit : k ++ (g ++ c :: s) = k' ++ (g₁ ++ '=' :: (g₂ ++ v ++ r)) := by simpa using htext
  have hlen : k.length = k'.length := hk.length_eq.symm.trans hk'.length_eq
  obtain ⟨rfl, hrest⟩ := List.append_inj hsplit hlen
  exact (append_cons_unique hg hg₁ hc rfl hrest).2.1

theorem matchAt_word_eq_none' {n : ℕ} {r s : List Char} {c : Char} (hn : n < 8)
    (h : List.Forall₂ (fun l c ↦ folds l c = true) (passwordKey.take n) r)
    (hc : passwordKey[n]?.any (folds · c) = false) : matchAt kvRe (r ++ c :: s) = none := by
  obtain ⟨l, ls', hkey, hl, -⟩ := passwordKey_eq n hn
  rw [hl, Option.any_some] at hc
  have hnone := matchAt_word_eq_none [.many isWhitespace, .one (· = '='), .many isWhitespace,
    .one (!isWhitespace ·), .many (!isWhitespace ·)] ls' (t := s) h hc
  rwa [← hkey] at hnone

/-- After a character that does not go on with what is pending, reading starts anew. -/
theorem exists_restart {r α a : List Char} {c : Char}
    (hmask : ∀ t, replaceAll kvRe (fun _ ↦ kvMask) (a ++ t) =
      α ++ replaceAll kvRe (fun _ ↦ kvMask) (r ++ t))
    (hkept : ∀ t, replaceAll kvRe (fun _ ↦ kvMask) (r ++ c :: t) =
      r ++ replaceAll kvRe (fun _ ↦ kvMask) (c :: t)) :
    ∃ α' r', Pending (Scan.restart c) r' ∧ ∀ t, replaceAll kvRe (fun _ ↦ kvMask) (a ++ [c] ++ t) =
      α' ++ replaceAll kvRe (fun _ ↦ kvMask) (r' ++ t) := by
  have hall : ∀ t, replaceAll kvRe (fun _ ↦ kvMask) (a ++ [c] ++ t) =
      α ++ r ++ replaceAll kvRe (fun _ ↦ kvMask) (c :: t) := by
    intro t
    rw [List.append_assoc, List.singleton_append, hmask, hkept, List.append_assoc]
  rw [Scan.restart]
  split
  · rename_i hc
    exact ⟨α ++ r, [c], .word (by omega) (.cons hc .nil), hall⟩
  · rename_i hc
    refine ⟨α ++ r ++ [c], [], .word (by omega) .nil, fun t ↦ ?_⟩
    rw [hall, maskKv_cons_of_folds (Bool.eq_false_iff.2 hc), List.append_assoc _ [c]]
    rfl

/-- Reading a text from the left, all but what is pending has been masked. -/
theorem exists_pending (a : List Char) :
    ∃ α r, Pending (scan a) r ∧ ∀ t, replaceAll kvRe (fun _ ↦ kvMask) (a ++ t) =
      α ++ replaceAll kvRe (fun _ ↦ kvMask) (r ++ t) := by
  induction a using List.reverseRecOn with
  | nil => exact ⟨[], [], .word (by omega) .nil, fun _ ↦ rfl⟩
  | append_singleton a c ih =>
    obtain ⟨α, r, hpending, hmask⟩ := ih
    rw [scan, List.foldl_append, List.foldl_cons, List.foldl_nil, ← scan]
    -- the character goes on with what is pending
    have extends' : ∀ {r'}, Pending ((scan a).step c) r' → r' = r ++ [c] →
        ∃ α r, Pending ((scan a).step c) r ∧ ∀ t, replaceAll kvRe (fun _ ↦ kvMask) (a ++ [c] ++ t) =
          α ++ replaceAll kvRe (fun _ ↦ kvMask) (r ++ t) := by
      rintro r' hr' rfl
      refine ⟨α, _, hr', fun t ↦ ?_⟩
      rw [List.append_assoc, hmask, List.append_assoc]
    cases hσ : scan a with
    | word n =>
      rw [hσ] at hpending extends'
      cases hpending with
      | word hn h =>
        rw [Scan.step] at extends' ⊢
        split
        · rename_i hc
          rw [if_pos hc] at extends'
          obtain ⟨l, ls', hkey, hl, -⟩ := passwordKey_eq n hn
          rw [hl, Option.any_some] at hc
          have hlonger : List.Forall₂ (fun l c ↦ folds l c = true) (passwordKey.take (n + 1))
              (r ++ [c]) := by
            rw [List.take_add_one, hl]
            exact List.rel_append h (.cons hc .nil)
          split
          · rename_i h7
            subst h7
            rw [if_pos rfl] at extends'
            have hkey : Pending .key (r ++ [c] ++ []) := .key hlonger fun _ hc ↦ by cases hc
            exact extends' hkey (by simp)
          · rename_i h7
            rw [if_neg h7] at extends'
            exact extends' (.word (by omega) hlonger) rfl
        · rename_i hc
          exact exists_restart hmask fun t ↦ maskKv_append_of_none
            (matchAt_word_eq_none' hn h (Bool.eq_false_iff.2 hc)) (folds_p_of_tail h)
    | key =>
      rw [hσ] at hpending extends'
      rw [Scan.step] at extends' ⊢
      have htail := hpending.folds_tail rfl
      cases hpending with
      | @key k g hk hg =>
        split
        · rename_i hc
          rw [if_pos hc] at extends'
          refine extends' (.key (g := g ++ [c]) hk ?_) (by simp)
          exact List.forall_mem_append.2 ⟨hg, by simpa using hc⟩
        split
        · rename_i hc heq
          subst heq
          rw [if_neg hc, if_pos rfl] at extends'
          have hequals : Pending .equals (kvText k g [] []) := .equals hk hg fun _ hc ↦ by cases hc
          exact extends' hequals (by simp [kvText])
        · rename_i hc heq
          exact exists_restart hmask fun t ↦ maskKv_append_of_none
            (matchAt_key_eq_none hk hg (Bool.eq_false_iff.2 hc) heq) htail
    | equals =>
      rw [hσ] at hpending extends'
      rw [Scan.step] at extends' ⊢
      cases hpending with
      | @equals k g g' hk hg hg' =>
        split
        · rename_i hc
          rw [if_pos hc] at extends'
          have hequals : Pending .equals (kvText k g (g' ++ [c]) []) :=
            .equals hk hg (List.forall_mem_append.2 ⟨hg', by simpa using hc⟩)
          exact extends' hequals (by simp [kvText])
        · rename_i hc
          rw [if_neg hc] at extends'
          refine extends' (.value (v := [c]) hk hg hg' (List.cons_ne_nil c []) ?_)
            (by simp [kvText])
          exact List.forall_mem_singleton.2 (Bool.eq_false_iff.2 hc)
    | value =>
      rw [hσ] at hpending extends'
      rw [Scan.step] at extends' ⊢
      cases hpending with
      | @value k g g' v hk hg hg' hne hv =>
        split
        · rename_i hc
          refine ⟨α ++ kvMask ++ [c], [], .word (by omega) .nil, fun t ↦ ?_⟩
          rw [List.append_assoc, hmask, List.singleton_append,
            maskKv_kvText hk hg hg' hne hv (fun d hd ↦ by cases hd; exact hc),
            maskKv_cons_of_folds (folds_p_of_isWhitespace hc)]
          simp
        · rename_i hc
          rw [if_neg hc] at extends'
          refine extends' (.value (v := v ++ [c]) hk hg hg' (by simp) ?_) (by simp [kvText])
          exact List.forall_mem_append.2 ⟨hv, by simpa using hc⟩

/-! ### A password in settings -/

/-- At the value of the key, solid text is masked together with the key. -/
theorem exists_maskKv_value {a : List Char} (h : (scan a).inValue = true) :
    ∃ α, ∀ v s, v ≠ [] → IsSolid v → Parted s →
      replaceAll kvRe (fun _ ↦ kvMask) (a ++ v ++ s) =
        α ++ kvMask ++ replaceAll kvRe (fun _ ↦ kvMask) s := by
  obtain ⟨α, r, hpending, hmask⟩ := exists_pending a
  refine ⟨α, fun v s hne hv hs ↦ ?_⟩
  rw [List.append_assoc, hmask]
  cases hσ : scan a with
  | word n =>
    rw [hσ] at h
    cases h
  | key =>
    rw [hσ] at h
    cases h
  | equals =>
    rw [hσ] at hpending
    cases hpending with
    | @equals k g g' hk hg hg' =>
      have htext : kvText k g g' [] ++ (v ++ s) = kvText k g g' v ++ s := by simp [kvText]
      rw [htext, maskKv_kvText hk hg hg' hne hv hs, List.append_assoc]
  | value =>
    rw [hσ] at hpending
    cases hpending with
    | @value k g g' v' hk hg hg' hne' hv' =>
      have htext : kvText k g g' v' ++ (v ++ s) = kvText k g g' (v' ++ v) ++ s := by simp [kvText]
      rw [htext, maskKv_kvText hk hg hg' (by simp [hne]) (List.forall_mem_append.2 ⟨hv', hv⟩) hs,
        List.append_assoc]

/-- Where nothing is pending, the rest of the text is masked on its own. -/
theorem exists_maskKv_outside {a : List Char} (h : scan a = .word 0) :
    ∃ α, ∀ t, replaceAll kvRe (fun _ ↦ kvMask) (a ++ t) =
      α ++ replaceAll kvRe (fun _ ↦ kvMask) t := by
  obtain ⟨α, r, hpending, hmask⟩ := exists_pending a
  rw [h] at hpending
  cases hpending with
  | word _ hr =>
    rw [List.take_zero] at hr
    cases hr
    exact ⟨α, hmask⟩

theorem scan_append (s t : List Char) : scan (s ++ t) = t.foldl Scan.step (scan s) :=
  List.foldl_append

/-- After an equality sign and white space the reader is at the value of the key, in it, or
outside. -/
theorem scan_setting (s : List Char) {g : List Char} (hg : IsBlank g) :
    (scan (s ++ '=' :: g)).inValue = true ∨ scan (s ++ '=' :: g) = .word 0 := by
  induction g using List.reverseRecOn with
  | nil =>
    rw [scan_append, List.foldl_cons, List.foldl_nil]
    cases scan s with
    | word n =>
      refine Or.inr ?_
      rw [Scan.step, if_neg]
      · rfl
      · by_cases hn : n < 8
        · obtain ⟨l, ls', -, hl, -, heq, -⟩ := passwordKey_eq n hn
          simp [hl, heq]
        · have hnone : passwordKey[n]? = none :=
            List.getElem?_eq_none (by simpa [passwordKey] using hn)
          simp [hnone]
    | key => exact Or.inl rfl
    | equals => exact Or.inl rfl
    | value => exact Or.inl rfl
  | append_singleton g c ih =>
    obtain ⟨hg, hc⟩ := List.forall_mem_append.1 hg
    have hc : isWhitespace c = true := hc c (List.mem_singleton_self c)
    rw [← List.cons_append, ← List.append_assoc, scan_append, List.foldl_cons, List.foldl_nil]
    rcases ih hg with h | h
    · cases hσ : scan (s ++ '=' :: g) with
      | word n =>
        rw [hσ] at h
        cases h
      | key =>
        rw [hσ] at h
        cases h
      | equals =>
        refine Or.inl ?_
        rw [Scan.step, if_pos hc]
        rfl
      | value =>
        refine Or.inr ?_
        rw [Scan.step, if_pos hc]
    · rw [h]
      refine Or.inr ?_
      have hfolds : folds 'p' c = false := folds_p_of_isWhitespace hc
      simp [Scan.step, passwordKey, hfolds, Scan.restart]

theorem quote_notMem_kvText {k g g' : List Char} (hk : IsKey k) (hg : IsBlank g)
    (hg' : IsBlank g') : '\'' ∉ k ++ g ++ '=' :: g' := by
  simp only [List.mem_append, List.mem_cons, not_or]
  refine ⟨⟨fun h ↦ ?_, fun h ↦ absurd (hg _ h) (by decide)⟩, by decide,
    fun h ↦ absurd (hg' _ h) (by decide)⟩
  obtain ⟨l, hl, hfolds⟩ := exists_mem_of_forall₂ hk h
  have hkey : ∀ l ∈ passwordKey, (!folds l '\'') = true := List.all_eq_true.1 rfl
  have hnot := hkey l hl
  rw [hfolds] at hnot
  cases hnot

/-- Nothing is matched across the end of a quoted value. -/
theorem maskKv_append_quote (s : List Char) {t : List Char} (ht : Parted t) :
    replaceAll kvRe (fun _ ↦ kvMask) (s ++ ['\''] ++ t) =
      replaceAll kvRe (fun _ ↦ kvMask) (s ++ ['\'']) ++ replaceAll kvRe (fun _ ↦ kvMask) t := by
  have parted : ∀ {r}, Parted r → Parted (r ++ t) := by
    intro r hr
    cases r with
    | nil => exact ht
    | cons d r => exact hr
  have reads : ∀ {m r r'}, Reads kvRe m r → Parted r' → Reads kvRe m r' := by
    intro m r r' h hr'
    obtain ⟨k, g, g', c, v, hk, hg, hg', hc, hv, -, rfl⟩ := reads_kvRe_iff.1 h
    exact reads_kvRe_iff.2 ⟨k, g, g', c, v, hk, hg, hg', hc, hv, hr', rfl⟩
  have rest : ∀ {m r}, Reads kvRe m r → Parted r := by
    intro m r h
    obtain ⟨k, g, g', c, v, -, -, -, -, -, hr, -⟩ := reads_kvRe_iff.1 h
    exact hr
  refine proper_kvRe.replaceAll_append (fun v m r _ hreads _ ↦ reads hreads (parted (rest hreads)))
    fun v m r hsuffix hv hreads heq ↦ ?_
  obtain ⟨k, g, g', w, hk, hg, hg', -, hw, -, hflat⟩ := reads_kvText hreads
  rw [hflat] at heq ⊢
  rcases List.append_eq_append_iff.1 heq with ⟨a, ha, hrest⟩ | ⟨a, rfl, rfl⟩
  · cases a with
    | nil =>
      exact ⟨[], by rw [ha, List.append_nil, List.append_nil], reads hreads fun _ h ↦ by cases h⟩
    | cons d a =>
      -- the match goes on after the quote, so the quote is part of the solid text
      exfalso
      have hd : isWhitespace d = true := ht d (by rw [hrest]; rfl)
      obtain ⟨v, rfl⟩ : ∃ v', v = v' ++ ['\''] := by
        obtain ⟨x, hx⟩ := hsuffix
        obtain ⟨v', c, rfl⟩ := List.eq_nil_or_concat v |>.resolve_left hv
        rw [List.concat_eq_append, ← List.append_assoc] at hx
        exact ⟨v', by rw [List.concat_eq_append, (List.append_singleton_inj.1 hx).2]⟩
      rw [kvText, List.append_assoc v] at ha
      rcases List.append_eq_append_iff.1 ha with ⟨y, hy, hw'⟩ | ⟨y, hy, hw'⟩
      · have hmem : d ∈ w := by
          rw [hw']
          simp
        rw [hw d hmem] at hd
        cases hd
      · cases y with
        | nil =>
          have hmem : d ∈ w := by
            rw [List.nil_append] at hw'
            rw [← hw']
            simp
          rw [hw d hmem] at hd
          cases hd
        | cons e y =>
          obtain rfl : '\'' = e := (List.cons_eq_cons.1 hw').1
          refine quote_notMem_kvText hk hg hg' ?_
          rw [hy]
          simp
  · refine ⟨a, rfl, reads hreads ?_⟩
    have hpart := rest hreads
    cases a with
    | nil => exact fun _ h ↦ by cases h
    | cons d a => exact hpart

end Dbos

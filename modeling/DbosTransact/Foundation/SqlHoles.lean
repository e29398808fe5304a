import DbosTransact.Foundation.SqlText

/-!
# SQL text with holes

The text is a list of `Item`s: characters, holes for a name in quotes, and holes for the contents of
a string. `Embeds` says of a name that filling it in leaves the tokens as they are for another name,
with each hole in one token, which denotes the name.

`check` goes over the text once, without any name: it takes a hole for one symbol, and has the lexer
go on as it will after the name. This is right for a name that is `Tame`, so that a text that passes
the check embeds each of those (`embeds_of_check`), and it is right for no other name once there is
a hole of each kind inside a body (`tame_of_embeds`).
-/

namespace SqlText

open Alphabet

/-- A symbol of a text with holes. -/
inductive Item
  | char (c : Char)
  /-- A name in quotes. -/
  | name
  /-- The contents of a string. -/
  | value
  deriving DecidableEq, Repr

/-- The lexer never sees a hole, so any letter will do for those. -/
instance : Alphabet Item where
  code
    | .char c => c
    | .name => 'n'
    | .value => 'v'
  char := .char
  code_char _ := rfl

@[simp] theorem code_item (c : Char) : code (Item.char c) = c := rfl

@[simp] theorem char_item (c : Char) : (char c : Item) = .char c := rfl

@[simp] theorem code_id (c : Char) : code c = c := rfl

@[simp] theorem char_id (c : Char) : (char c : Char) = c := rfl

/-- What a token is in that has the hole in it. -/
def Item.hole : Item → Option Quote
  | char _ => none
  | name => some .name
  | value => some .text

/-! ### Filling the holes -/

section

variable (s : List Char)

def Item.fill : Item → List Char
  | char c => [c]
  | name => Quote.name.enclose s
  | value => s

/-- The text with the name `s` in its holes. -/
def fill (items : List Item) : List Char := items.flatMap (Item.fill s)

def Token.fill (t : Token Item) : Token Char := ⟨t.kind, SqlText.fill s t.raw⟩

def Mode.fill : Mode Item → Mode Char
  | plain => plain
  | word read => word (SqlText.fill s read)
  | opened q read => opened q (SqlText.fill s read)
  | closed q read => closed q (SqlText.fill s read)
  | dash => dash
  | comment read => comment (SqlText.fill s read)

def State.fill : State Item → State Char
  | outside m => outside (m.fill s)
  | opening => opening
  | inside m => inside (m.fill s)
  | closing m => closing (m.fill s)

@[simp] theorem fill_nil : fill s [] = [] := rfl

@[simp] theorem fill_cons (x : Item) (items : List Item) :
    fill s (x :: items) = x.fill s ++ fill s items := rfl

@[simp] theorem fill_append (items items' : List Item) :
    fill s (items ++ items') = fill s items ++ fill s items' := List.flatMap_append

/-! ### The lexer on characters of the text

It does the same before and after the holes are filled. -/

theorem Mode.start_fill (c : Char) :
    start c = ((start (Item.char c)).1.fill s, (start (Item.char c)).2.map (Token.fill s)) := by
  simp only [start, code_id, code_item]
  split_ifs <;> rfl

theorem Mode.step_fill (m : Mode Item) (c : Char) :
    (m.fill s).step c = ((m.step (.char c)).1.fill s, (m.step (.char c)).2.map (Token.fill s)) := by
  cases m with
  | plain => exact start_fill s c
  | dash =>
    simp only [fill, step, next, start_fill s c]
    simp only [code_id, code_item]
    split_ifs <;> rfl
  | word read =>
    simp only [fill, step, next, start_fill s c]
    simp only [code_id, code_item]
    split_ifs <;> simp [Token.fill, Item.fill]
  | opened q read =>
    simp only [fill, step, code_id, code_item]
    split_ifs <;> simp [Item.fill]
  | closed q read =>
    simp only [fill, step, next, start_fill s c]
    simp only [code_id, code_item]
    split_ifs <;> simp [Token.fill, Item.fill]
  | comment read =>
    simp only [fill, step, code_id, code_item]
    split_ifs <;> simp [Token.fill, Item.fill]

theorem Mode.finish_fill (m : Mode Item) :
    (m.fill s).finish = m.finish.map (Token.fill s) := by
  cases m <;> rfl

theorem Mode.settled_fill (m : Mode Item) : (m.fill s).settled = m.settled := by
  cases m <;> rfl

theorem State.step_fill (σ : State Item) (c : Char) :
    (σ.fill s).step c = ((σ.step (.char c)).1.fill s, (σ.step (.char c)).2.map (Token.fill s)) := by
  cases σ with
  | outside m =>
    simp only [fill, step, m.settled_fill, m.finish_fill, m.step_fill, code_id, code_item]
    split_ifs <;> rfl
  | opening =>
    simp only [fill, step, Mode.start_fill s c]
    simp only [code_id, code_item]
    split_ifs <;> rfl
  | inside m =>
    simp only [fill, step, m.step_fill, code_id, code_item]
    split_ifs <;> rfl
  | closing m =>
    simp only [fill, step, m.finish_fill, char_id, char_item, m.step_fill, Mode.step_fill s _ c,
      code_id, code_item]
    split_ifs <;> simp [Mode.fill, Token.fill, Item.fill]

theorem State.finish_fill (σ : State Item) :
    (σ.fill s).finish = σ.finish.map (Token.fill s) := by
  cases σ <;> simp [fill, finish, Mode.finish_fill, Token.fill, Item.fill]

end

/-! ### What the lexer makes of a name -/

/-- The names that can be filled in anywhere. -/
def Tame (s : List Char) : Prop := '\'' ∉ s ∧ ¬['$', '$'] <:+: s

theorem double_of_notMem {mark : Char} {s : List Char} (h : mark ∉ s) : double mark s = s := by
  induction s with
  | nil => rfl
  | cons c s ih =>
    rw [double_cons, if_neg (List.ne_of_not_mem_cons h).symm, ih (List.not_mem_of_not_mem_cons h),
      List.singleton_append]

theorem not_infix_concat {s : List Char} (h : ¬['$', '$'] <:+: s) {d : Char} (hd : d ≠ '$') :
    ¬['$', '$'] <:+: s ++ [d] := by
  rw [List.infix_concat_iff, not_or]
  refine ⟨fun hsuffix ↦ hd ?_, h⟩
  have hlast := hsuffix.getLast (by simp)
  simpa using hlast.symm

/-- Outside a body dollars in quotes are nothing special. -/
theorem lexFrom_outside_double (q : Quote) (s read rest : List Char) :
    lexFrom (.outside (.opened q read)) (double q.mark s ++ rest) =
      lexFrom (.outside (.opened q (read ++ double q.mark s))) rest := by
  have hq : q.mark ≠ '$' := by cases q <;> decide
  induction s generalizing read with
  | nil => simp [double]
  | cons c s ih =>
    rw [double_cons]
    by_cases hc : c = q.mark
    · simp [hc, lexFrom, State.step, Mode.step, Mode.settled, hq, ih]
    · simp [hc, lexFrom, State.step, Mode.step, Mode.settled, ih]

/-- Inside a body a dollar is like other characters unless another one follows. -/
theorem lexFrom_inside_cons (m : Mode Char) {c d : Char} (h : ¬(c = '$' ∧ d = '$'))
    (rest : List Char) :
    lexFrom (.inside m) (c :: d :: rest) =
      (m.step c).2 ++ lexFrom (.inside (m.step c).1) (d :: rest) := by
  by_cases hc : c = '$'
  · have hd : d ≠ '$' := fun hd ↦ h ⟨hc, hd⟩
    simp [lexFrom, State.step, hc, hd]
  · simp [lexFrom, State.step, hc]

theorem lexFrom_inside_double (q : Quote) {s : List Char} (read : List Char) {d : Char}
    (h : ¬['$', '$'] <:+: s ++ [d]) (rest : List Char) :
    lexFrom (.inside (.opened q read)) (double q.mark s ++ d :: rest) =
      lexFrom (.inside (.opened q (read ++ double q.mark s))) (d :: rest) := by
  have hq : q.mark ≠ '$' := by cases q <;> decide
  induction s generalizing read with
  | nil => simp [double]
  | cons c s ih =>
    rw [List.cons_append, List.infix_cons_iff, not_or] at h
    -- what follows `c` is a dollar only if it is one before marks are doubled
    obtain ⟨x, tail, hx, hdollar⟩ : ∃ x tail, double q.mark s ++ d :: rest = x :: tail ∧
        ¬(c = '$' ∧ x = '$') := by
      cases s with
      | nil =>
        refine ⟨d, rest, rfl, fun hcd ↦ h.1 ?_⟩
        simp [hcd]
      | cons e s =>
        rw [double_cons]
        by_cases he : e = q.mark
        · exact ⟨q.mark, q.mark :: (double q.mark s ++ d :: rest), by simp [he], by simp [hq]⟩
        · refine ⟨e, double q.mark s ++ d :: rest, by simp [he], fun hce ↦ h.1 ?_⟩
          simp [hce]
    have hrest := ih (h := h.2)
    rw [double_cons]
    by_cases hc : c = q.mark
    · rw [if_pos hc, List.append_assoc, List.cons_append, List.singleton_append,
        lexFrom_inside_cons _ (by simp [hq]), hx, lexFrom_inside_cons _ (by simp [hq]), ← hx]
      simp [Mode.step, hrest]
    · rw [if_neg hc, List.append_assoc, List.singleton_append, hx,
        lexFrom_inside_cons _ hdollar, ← hx]
      simp [Mode.step, hc, hrest]

/-! ### The check -/

/-- A token without holes, or one of those that a hole is meant to be. -/
def Token.fits (t : Token Item) : Bool :=
  t.raw.all (fun x ↦ x.hole.isNone) || t = ⟨.quoted .name, [.name]⟩ ||
    t = ⟨.quoted .text, [.char '\'', .value, .char '\'']⟩

/-- What has been read after a hole. -/
def State.pass : State Item → Item → Option (State Item)
  | outside m, .name => if m = .plain then some (outside (.closed .name [.name])) else none
  | inside m, .name => if m = .plain then some (inside (.closed .name [.name])) else none
  | inside m, .value =>
    if m = .opened .text [.char '\''] then some (inside (.opened .text [.char '\'', .value]))
    else none
  | _, _ => none

/-- Whether a token with the hole in it is over as it should be. -/
def Item.goesOn : Item → List Item → Bool
  | name, char c :: _ => c ≠ '$' && c ≠ '"'
  | value, char c :: char d :: _ => c = '\'' && d ≠ '$' && d ≠ '\''
  | _, _ => false

/-- Whether the lexer gets over each hole, and leaves it in a token that fits. -/
def check : State Item → List Item → Bool
  | σ, [] => σ.finish.all Token.fits
  | σ, .char c :: rest =>
    (σ.step (.char c)).2.all Token.fits && check (σ.step (.char c)).1 rest
  | σ, x :: rest =>
    x.goesOn rest && match σ.pass x with
      | some σ' => check σ' rest
      | none => false

theorem check_hole {σ : State Item} {x : Item} (hx : ∀ c, x ≠ .char c) {rest : List Item}
    (h : check σ (x :: rest) = true) :
    x.goesOn rest = true ∧ ∃ σ', σ.pass x = some σ' ∧ check σ' rest = true := by
  rw [check.eq_3 σ x rest hx, Bool.and_eq_true] at h
  refine ⟨h.1, ?_⟩
  cases hpass : σ.pass x with
  | none => simp [hpass] at h
  | some σ' => exact ⟨σ', rfl, by simpa [hpass] using h.2⟩

theorem exists_of_goesOn {x : Item} {rest : List Item} (h : x.goesOn rest = true) :
    ∃ d rest', rest = .char d :: rest' ∧ d ≠ '$' := by
  unfold Item.goesOn at h
  split at h
  · rename_i c rest'
    rw [Bool.and_eq_true, decide_eq_true_eq] at h
    exact ⟨c, rest', rfl, h.1⟩
  · rename_i c d rest'
    simp only [Bool.and_eq_true, decide_eq_true_eq] at h
    exact ⟨c, .char d :: rest', rfl, by rw [h.1.1]; decide⟩
  · cases h

theorem pass_cases {σ σ' : State Item} {x : Item} (h : σ.pass x = some σ') :
    (σ = .outside .plain ∧ x = .name ∧ σ' = .outside (.closed .name [.name])) ∨
      (σ = .inside .plain ∧ x = .name ∧ σ' = .inside (.closed .name [.name])) ∨
      (σ = .inside (.opened .text [.char '\'']) ∧ x = .value ∧
        σ' = .inside (.opened .text [.char '\'', .value])) := by
  unfold State.pass at h
  split at h
  · rw [Option.ite_none_right_eq_some, Option.some_inj] at h
    exact .inl ⟨by rw [h.1], rfl, h.2.symm⟩
  · rw [Option.ite_none_right_eq_some, Option.some_inj] at h
    exact .inr (.inl ⟨by rw [h.1], rfl, h.2.symm⟩)
  · rw [Option.ite_none_right_eq_some, Option.some_inj] at h
    exact .inr (.inr ⟨by rw [h.1], rfl, h.2.symm⟩)
  · cases h

theorem pass_read {σ σ' : State Item} {x : Item} (h : σ.pass x = some σ') :
    σ'.read = σ.read ++ [x] := by
  obtain ⟨rfl, rfl, rfl⟩ | ⟨rfl, rfl, rfl⟩ | ⟨rfl, rfl, rfl⟩ := pass_cases h <;> rfl

theorem lexFrom_outside_name (s rest : List Char) :
    lexFrom (State.fill s (.outside .plain)) (Item.fill s .name ++ rest) =
      lexFrom (State.fill s (.outside (.closed .name [.name]))) rest := by
  have hdouble := lexFrom_outside_double .name s ['"'] ('"' :: rest)
  simp only [Quote.mark] at hdouble
  simp [State.fill, Mode.fill, Item.fill, Quote.enclose, lexFrom, State.step, Mode.step, Mode.start,
    Quote.mark, hdouble]

/-- **The lexer gets over a hole** with any tame name in it. -/
theorem lexFrom_pass {s : List Char} (hs : Tame s) {σ σ' : State Item} {x : Item}
    (h : σ.pass x = some σ') {d : Char} (hd : d ≠ '$') (rest : List Char) :
    lexFrom (σ.fill s) (x.fill s ++ d :: rest) = lexFrom (σ'.fill s) (d :: rest) := by
  obtain ⟨rfl, rfl, rfl⟩ | ⟨rfl, rfl, rfl⟩ | ⟨rfl, rfl, rfl⟩ := pass_cases h
  · exact lexFrom_outside_name s _
  · have hdouble := lexFrom_inside_double .name ['"'] (not_infix_concat hs.2 (d := '"') (by decide))
      (d :: rest)
    simp only [Quote.mark] at hdouble
    simp [State.fill, Mode.fill, Item.fill, Quote.enclose, lexFrom, State.step, Mode.step,
      Mode.start, Quote.mark, hdouble]
  · have hdouble := lexFrom_inside_double .text ['\''] (not_infix_concat hs.2 hd) rest
    simp only [Quote.mark, double_of_notMem hs.1] at hdouble
    simpa [State.fill, Mode.fill, Item.fill] using hdouble

/-- **A text that passes the check is split in one way**, whatever tame name is in it. -/
theorem exists_parts {σ : State Item} {items : List Item} (h : check σ items = true) :
    ∃ parts : List (Token Item), parts.flatMap Token.raw = σ.read ++ items ∧
      (∀ t ∈ parts, t.fits = true) ∧
      ∀ s, Tame s → lexFrom (σ.fill s) (fill s items) = parts.map (Token.fill s) := by
  induction items generalizing σ with
  | nil =>
    rw [check, List.all_eq_true] at h
    exact ⟨σ.finish, by rw [σ.finish_read, List.append_nil], h, fun s _ ↦ σ.finish_fill s⟩
  | cons x rest ih =>
    by_cases hx : ∃ c, x = .char c
    · obtain ⟨c, rfl⟩ := hx
      rw [check, Bool.and_eq_true, List.all_eq_true] at h
      obtain ⟨parts, hraw, hfits, hlex⟩ := ih h.2
      refine ⟨(σ.step (.char c)).2 ++ parts, ?_, ?_, fun s hs ↦ ?_⟩
      · have hread := State.step_read (x := Item.char c) rfl σ
        rw [List.flatMap_append, hraw, ← List.append_assoc, hread, List.append_assoc,
          List.singleton_append]
      · exact fun t ht ↦ (List.mem_append.1 ht).elim (h.1 t) (hfits t)
      · rw [fill_cons, Item.fill, List.singleton_append, lexFrom, σ.step_fill, hlex s hs,
          List.map_append]
    · obtain ⟨hgoes, σ', hpass, hcheck⟩ := check_hole (not_exists.1 hx) h
      obtain ⟨parts, hraw, hfits, hlex⟩ := ih hcheck
      obtain ⟨d, rest', rfl, hd⟩ := exists_of_goesOn hgoes
      refine ⟨parts, ?_, hfits, fun s hs ↦ ?_⟩
      · rw [hraw, pass_read hpass, List.append_assoc, List.singleton_append]
      · rw [← hlex s hs, fill_cons, fill_cons, Item.fill]
        exact lexFrom_pass hs hpass hd _

/-! ### Texts that embed a name -/

/-- **The name `s` is embedded**: the text with `s` in its holes is split as it is with `s₀` in
them. Each hole is in one token, of the kind that the hole is for, and the token denotes `s`. -/
def Embeds (s s₀ : List Char) (items : List Item) : Prop :=
  ∃ parts : List (Token Item), parts.flatMap Token.raw = items ∧
    lex (fill s items) = parts.map (Token.fill s) ∧
    lex (fill s₀ items) = parts.map (Token.fill s₀) ∧
    ∀ t ∈ parts, ∀ x ∈ t.raw, ∀ q, x.hole = some q →
      t.kind = .quoted q ∧ (t.fill s).denotes = some s

theorem Token.eq_of_fits {t : Token Item} (h : t.fits = true) {x : Item} (hx : x ∈ t.raw)
    {q : Quote} (hq : x.hole = some q) :
    (x = .name ∧ t = ⟨.quoted .name, [.name]⟩) ∨
      (x = .value ∧ t = ⟨.quoted .text, [.char '\'', .value, .char '\'']⟩) := by
  simp only [fits, Bool.or_eq_true, List.all_eq_true, decide_eq_true_eq] at h
  obtain (h | rfl) | rfl := h
  · have hnone := h x hx
    rw [hq] at hnone
    cases hnone
  · exact .inl ⟨List.mem_singleton.1 hx, rfl⟩
  · cases x with
    | char c => cases hq
    | name => simp at hx
    | value => exact .inr ⟨rfl, rfl⟩

/-- A text that passes the check embeds every tame name. -/
theorem embeds_of_check {items : List Item} (h : check (.outside .plain) items = true)
    {s s₀ : List Char} (hs : Tame s) (hs₀ : Tame s₀) : Embeds s s₀ items := by
  obtain ⟨parts, hraw, hfits, hlex⟩ := exists_parts h
  refine ⟨parts, hraw, hlex s hs, hlex s₀ hs₀, fun t ht x hx q hq ↦ ?_⟩
  obtain ⟨rfl, rfl⟩ | ⟨rfl, rfl⟩ := Token.eq_of_fits (hfits t ht) hx hq
  · cases hq
    refine ⟨rfl, ?_⟩
    simp [Token.denotes, Token.fill, Item.fill, Quote.unquote_enclose]
  · cases hq
    refine ⟨rfl, ?_⟩
    have henclose := Quote.unquote_enclose .text s
    rw [Quote.enclose, Quote.mark, double_of_notMem hs.1] at henclose
    simpa [Token.denotes, Token.fill, Item.fill] using henclose

/-! ### Texts that embed tame names only -/

section

variable {s s₀ : List Char}

theorem fill_eq_nil (hs : s ≠ []) {items : List Item} (h : fill s items = []) : items = [] := by
  cases items with
  | nil => rfl
  | cons x rest =>
    cases x with
    | char c => simp [Item.fill] at h
    | name => simp [Item.fill, Quote.enclose] at h
    | value => simp [Item.fill, hs] at h

/-- Two ways to split one text are the same if they are once a name is filled in. -/
theorem eq_of_fill_eq (hs : s ≠ []) {parts parts' : List (Token Item)}
    (hraw : parts.flatMap Token.raw = parts'.flatMap Token.raw)
    (hfill : parts.map (Token.fill s) = parts'.map (Token.fill s)) : parts = parts' := by
  induction parts generalizing parts' with
  | nil => exact (List.map_eq_nil_iff.1 hfill.symm).symm
  | cons t parts ih =>
    cases parts' with
    | nil => cases hfill
    | cons t' parts' =>
      rw [List.flatMap_cons, List.flatMap_cons] at hraw
      rw [List.map_cons, List.map_cons, List.cons.injEq, Token.fill, Token.fill,
        Token.mk.injEq] at hfill
      obtain ⟨⟨hkind, hfirst⟩, hrest⟩ := hfill
      have heq : t.raw = t'.raw := by
        obtain ⟨c, hc, -⟩ | ⟨c, hc, -⟩ := List.append_eq_append_iff.1 hraw
        · rw [hc, fill_append, List.self_eq_append_right] at hfirst
          rw [hc, fill_eq_nil hs hfirst, List.append_nil]
        · rw [hc, fill_append, List.append_right_eq_self] at hfirst
          rw [hc, fill_eq_nil hs hfirst, List.append_nil]
      rw [heq, List.append_cancel_left_eq] at hraw
      obtain ⟨kind, raw⟩ := t
      obtain ⟨kind', raw'⟩ := t'
      simp only at heq hkind
      rw [heq, hkind, ih hraw hrest]

theorem mark_notMem_of_embeds (hs₀ : Tame s₀) (hne : s₀ ≠ []) {items : List Item}
    (h : check (.outside .plain) items = true) (hvalue : Item.value ∈ items)
    (hembeds : Embeds s s₀ items) : '\'' ∉ s := by
  obtain ⟨parts, hraw, hfits, hlex⟩ := exists_parts h
  obtain ⟨parts', hraw', -, hlex', hdenotes⟩ := hembeds
  have hparts : parts' = parts :=
    eq_of_fill_eq hne (hraw'.trans hraw.symm) (hlex'.symm.trans (hlex s₀ hs₀))
  rw [← hraw', List.mem_flatMap] at hvalue
  obtain ⟨t, ht, hx⟩ := hvalue
  obtain ⟨-, hs⟩ := hdenotes t ht .value hx .text rfl
  obtain ⟨hname, -⟩ | ⟨-, rfl⟩ := Token.eq_of_fits (hfits t (hparts ▸ ht)) hx rfl
  · cases hname
  · -- the token is as long as it is only if no mark in it stands for two
    have hend : undouble '\'' (s ++ ['\'']) = some s := by
      simpa [Token.denotes, Token.fill, Item.fill, Quote.unquote, Quote.mark] using hs
    have hlength := length_of_undouble hend
    rw [List.length_append, List.length_singleton] at hlength
    exact List.count_eq_zero.1 (by omega)

theorem exists_first_dollars (h : ['$', '$'] <:+: s) :
    ∃ a b, s = a ++ '$' :: '$' :: b ∧ ¬['$', '$'] <:+: a ++ ['$'] := by
  induction s with
  | nil => cases List.infix_nil.1 h
  | cons c s ih =>
    by_cases hprefix : ['$', '$'] <+: c :: s
    · obtain ⟨b, hb⟩ := hprefix
      exact ⟨[], b, hb.symm, by decide⟩
    · obtain ⟨a, b, rfl, ha⟩ := ih ((List.infix_cons_iff.1 h).resolve_left hprefix)
      refine ⟨c :: a, b, rfl, ?_⟩
      rw [List.cons_append, List.infix_cons_iff, not_or]
      refine ⟨fun hshort ↦ hprefix (hshort.trans ?_), ha⟩
      exact ⟨'$' :: b, by simp⟩

/-- Two dollars in a name end the body, and leave the token that the name is in open. -/
theorem lexFrom_inside_dollars (q : Quote) (read : List Char) (h : ['$', '$'] <:+: s)
    (rest : List Char) :
    ∃ raw tail, lexFrom (.inside (.opened q read)) (double q.mark s ++ rest) =
      ⟨.unclosed, raw⟩ :: tail := by
  obtain ⟨a, b, rfl, ha⟩ := exists_first_dollars h
  have hq : '$' ≠ q.mark := by cases q <;> decide
  have hdouble : double q.mark (a ++ '$' :: '$' :: b) =
      double q.mark a ++ '$' :: '$' :: double q.mark b := by
    simp [double, hq]
  rw [hdouble, List.append_assoc, List.cons_append, lexFrom_inside_double q read ha]
  simp [lexFrom, State.step, Mode.finish]

/-- What passes the check after a hole inside a body is a token in quotes. -/
theorem lexFrom_goesOn {x : Item} {rest : List Item} (hgoes : x.goesOn rest = true)
    {σ σ' : State Item} (hpass : σ.pass x = some σ') (hcheck : check σ' rest = true)
    (hinside : σ ≠ .outside .plain) :
    ∃ q raw tail, lexFrom (σ'.fill s) (fill s rest) = ⟨.quoted q, raw⟩ :: tail := by
  obtain ⟨rfl, rfl, rfl⟩ | ⟨rfl, rfl, rfl⟩ | ⟨rfl, rfl, rfl⟩ := pass_cases hpass
  · exact absurd rfl hinside
  · obtain - | ⟨⟨c⟩ | - | -, rest⟩ := rest
    · cases hgoes
    · rw [Item.goesOn, Bool.and_eq_true, decide_eq_true_eq, decide_eq_true_eq] at hgoes
      simp [State.fill, Mode.fill, Item.fill, lexFrom, State.step, Mode.step, Quote.mark, hgoes,
        Mode.next]
    · cases hgoes
    · cases hgoes
  · obtain - | ⟨⟨c⟩ | - | -, - | ⟨⟨d⟩ | - | -, rest⟩⟩ := rest <;> try cases hgoes
    simp only [Item.goesOn, Bool.and_eq_true, decide_eq_true_eq] at hgoes
    simp [State.fill, Mode.fill, Item.fill, lexFrom, State.step, Mode.step, Quote.mark, hgoes,
      Mode.next]

theorem kinds_fill (s : List Char) (l : List (Token Item)) :
    (l.map (Token.fill s)).map Token.kind = l.map Token.kind := by
  rw [List.map_map]
  rfl

/-- The two dollars show in the kinds of the tokens. -/
theorem kinds_ne (hmark : '\'' ∉ s) (hdollars : ['$', '$'] <:+: s) (hs₀ : Tame s₀)
    {σ : State Item} {items : List Item} (h : check σ items = true) (hvalue : Item.value ∈ items) :
    (lexFrom (σ.fill s) (fill s items)).map Token.kind ≠
      (lexFrom (σ.fill s₀) (fill s₀ items)).map Token.kind := by
  induction items generalizing σ with
  | nil => cases hvalue
  | cons x rest ih =>
    by_cases hx : ∃ c, x = .char c
    · obtain ⟨c, rfl⟩ := hx
      rw [check, Bool.and_eq_true] at h
      simp only [fill_cons, Item.fill, List.singleton_append, lexFrom, σ.step_fill, List.map_append,
        kinds_fill, ne_eq, List.append_cancel_left_eq]
      exact ih h.2 (List.mem_of_ne_of_mem (by simp) hvalue)
    · obtain ⟨hgoes, σ', hpass, hcheck⟩ := check_hole (not_exists.1 hx) h
      have hlex₀ :
          lexFrom (σ.fill s₀) (fill s₀ (x :: rest)) = lexFrom (σ'.fill s₀) (fill s₀ rest) := by
        obtain ⟨d, rest', rfl, hd⟩ := exists_of_goesOn hgoes
        exact lexFrom_pass hs₀ hpass hd _
      rw [hlex₀]
      by_cases hσ : σ = .outside .plain
      · subst hσ
        obtain ⟨-, rfl, rfl⟩ | ⟨hσ, -⟩ | ⟨hσ, -⟩ := pass_cases hpass
        · rw [fill_cons, lexFrom_outside_name]
          exact ih hcheck (List.mem_of_ne_of_mem (by simp) hvalue)
        · cases hσ
        · cases hσ
      · obtain ⟨q, raw, tail, hquoted⟩ := lexFrom_goesOn (s := s₀) hgoes hpass hcheck hσ
        obtain ⟨raw', tail', hopen⟩ : ∃ raw' tail',
            lexFrom (σ.fill s) (fill s (x :: rest)) = ⟨.unclosed, raw'⟩ :: tail' := by
          obtain ⟨rfl, rfl, rfl⟩ | ⟨rfl, rfl, rfl⟩ | ⟨rfl, rfl, rfl⟩ := pass_cases hpass
          · exact absurd rfl hσ
          · obtain ⟨raw', tail', hopen⟩ := lexFrom_inside_dollars .name ['"'] hdollars
              ('"' :: fill s rest)
            refine ⟨raw', tail', ?_⟩
            rw [← hopen]
            simp [State.fill, Mode.fill, Item.fill, Quote.enclose, lexFrom, State.step, Mode.step,
              Mode.start, Quote.mark]
          · obtain ⟨raw', tail', hopen⟩ :=
              lexFrom_inside_dollars .text ['\''] hdollars (fill s rest)
            refine ⟨raw', tail', ?_⟩
            rw [← hopen, Quote.mark, double_of_notMem hmark]
            rfl
        rw [hquoted, hopen]
        simp

/-- **A text that passes the check embeds tame names only**, once it has a string in it. -/
theorem tame_of_embeds (hs₀ : Tame s₀) (hne : s₀ ≠ []) {items : List Item}
    (h : check (.outside .plain) items = true) (hvalue : Item.value ∈ items)
    (hembeds : Embeds s s₀ items) : Tame s := by
  have hmark := mark_notMem_of_embeds hs₀ hne h hvalue hembeds
  refine ⟨hmark, fun hdollars ↦ kinds_ne hmark hdollars hs₀ h hvalue ?_⟩
  obtain ⟨parts, -, hlex, hlex₀, -⟩ := hembeds
  have hkinds : (lex (fill s items)).map Token.kind = (lex (fill s₀ items)).map Token.kind := by
    rw [hlex, hlex₀, kinds_fill, kinds_fill]
  exact hkinds

end

end SqlText

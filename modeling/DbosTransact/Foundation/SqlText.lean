import Mathlib.Data.List.Infix

/-!
# SQL text

How SQL text is split into tokens. `lex` knows white space, comments that end with the line, words,
names in double quotes, strings in single quotes, single symbols, and the two ends of a body between
`$$`, which is itself split in the same way. Inside quotes a doubled quote stands for the quote, and
a body ends at the first `$$` in it, whatever it is inside of. That is all of the lexical structure
of SQL that is treated here: there are no tags between the dollars, no block comments, and no
strings with escapes.

The lexer reads the symbols of any `Alphabet`, that is, anything that it can take for a character.
-/

namespace SqlText

/-- What delimits a token. -/
inductive Quote
  | name
  | text
  deriving DecidableEq, Repr

/-- The kinds of tokens. A token is `unclosed` if the text ends in it. -/
inductive Kind
  | space
  | comment
  | word
  | quoted (q : Quote)
  | symbol
  | delimiter
  | unclosed
  deriving DecidableEq, Repr

structure Token (α : Type) where
  kind : Kind
  raw : List α
  deriving DecidableEq, Repr

/-- Symbols that the lexer takes for characters. -/
class Alphabet (α : Type) where
  code : α → Char
  char : Char → α
  code_char (c : Char) : code (char c) = c

open Alphabet

/-- The symbol of a quote. -/
def Quote.mark : Quote → Char
  | name => '"'
  | text => '\''

def isWordChar (c : Char) : Bool := c.isAlphanum || c = '_' || 127 < c.toNat

/-! ### The lexer -/

section

variable {α : Type} [Alphabet α]

/-- What has been read of a token that is not complete yet. -/
inductive Mode (α : Type)
  | plain
  | word (read : List α)
  | opened (q : Quote) (read : List α)
  /-- After a mark that closes the token, unless another one follows. -/
  | closed (q : Quote) (read : List α)
  | dash
  | comment (read : List α)
  deriving DecidableEq, Repr

namespace Mode

/-- The first symbol of a token. -/
def start (x : α) : Mode α × List (Token α) :=
  if code x = '"' then (.opened .name [x], [])
  else if code x = '\'' then (.opened .text [x], [])
  else if code x = '-' then (.dash, [])
  else if isWordChar (code x) then (.word [x], [])
  else (.plain, [⟨if (code x).isWhitespace then .space else .symbol, [x]⟩])

/-- A symbol after a token that is complete. -/
def next (t : Token α) (x : α) : Mode α × List (Token α) := ((start x).1, t :: (start x).2)

/-- One more symbol. -/
def step (x : α) : Mode α → Mode α × List (Token α)
  | plain => start x
  | word read =>
    if isWordChar (code x) || code x = '$' then (word (read ++ [x]), []) else next ⟨.word, read⟩ x
  | opened q read =>
    if code x = q.mark then (closed q (read ++ [x]), []) else (opened q (read ++ [x]), [])
  | closed q read =>
    if code x = q.mark then (opened q (read ++ [x]), []) else next ⟨.quoted q, read⟩ x
  | dash => if code x = '-' then (comment [char '-', x], []) else next ⟨.symbol, [char '-']⟩ x
  | comment read =>
    if code x = '\n' then (plain, [⟨.comment, read⟩, ⟨.space, [x]⟩])
    else (comment (read ++ [x]), [])

/-- The text ends here. -/
def finish : Mode α → List (Token α)
  | plain => []
  | word read => [⟨.word, read⟩]
  | opened _ read => [⟨.unclosed, read⟩]
  | closed q read => [⟨.quoted q, read⟩]
  | dash => [⟨.symbol, [char '-']⟩]
  | comment read => [⟨.comment, read⟩]

/-- Whether a dollar begins a new token. -/
def settled : Mode α → Bool
  | plain => true
  | closed .. => true
  | dash => true
  | _ => false

/-- What has been read of the next token. -/
def read : Mode α → List α
  | plain => []
  | word read => read
  | opened _ read => read
  | closed _ read => read
  | dash => [char '-']
  | comment read => read

end Mode

/-- Whether the text that is read is part of a body between `$$`. -/
inductive State (α : Type)
  | outside (m : Mode α)
  /-- After the first dollar of what may be the beginning of a body. -/
  | opening
  | inside (m : Mode α)
  /-- After the first dollar of what may be the end of a body. -/
  | closing (m : Mode α)
  deriving DecidableEq, Repr

namespace State

/-- One more symbol. -/
def step (x : α) : State α → State α × List (Token α)
  | outside m =>
    if code x = '$' && m.settled then (opening, m.finish) else (outside (m.step x).1, (m.step x).2)
  | opening =>
    if code x = '$' then (inside .plain, [⟨.delimiter, [char '$', x]⟩])
    else (outside (Mode.start x).1, ⟨.symbol, [char '$']⟩ :: (Mode.start x).2)
  | inside m => if code x = '$' then (closing m, []) else (inside (m.step x).1, (m.step x).2)
  | closing m =>
    if code x = '$' then (outside .plain, m.finish ++ [⟨.delimiter, [char '$', x]⟩])
    else
      let r := m.step (char '$')
      (inside (r.1.step x).1, r.2 ++ (r.1.step x).2)

/-- The text ends here. -/
def finish : State α → List (Token α)
  | outside m => m.finish
  | opening => [⟨.symbol, [char '$']⟩]
  | inside m => m.finish ++ [⟨.unclosed, []⟩]
  | closing m => m.finish ++ [⟨.unclosed, [char '$']⟩]

/-- What has been read of the next token. -/
def read : State α → List α
  | outside m => m.read
  | opening => [char '$']
  | inside m => m.read
  | closing m => m.read ++ [char '$']

end State

/-- The tokens of a text that is read from the given state on. -/
def lexFrom : State α → List α → List (Token α)
  | σ, [] => σ.finish
  | σ, x :: xs => (σ.step x).2 ++ lexFrom (σ.step x).1 xs

def lex (text : List α) : List (Token α) := lexFrom (.outside .plain) text

/-! ### Nothing is lost

The tokens are the text in pieces. -/

variable {x : α}

theorem Mode.start_read (hx : char (code x) = x) :
    (start x).2.flatMap Token.raw ++ (start x).1.read = [x] := by
  simp only [start]
  split_ifs with hname htext hdash hword hspace
  · rfl
  · rfl
  · rw [← hx, hdash]
    rfl
  · rfl
  · rfl
  · rfl

theorem Mode.next_read (hx : char (code x) = x) (t : Token α) :
    (next t x).2.flatMap Token.raw ++ (next t x).1.read = t.raw ++ [x] := by
  rw [next, List.flatMap_cons, List.append_assoc, start_read hx]

theorem Mode.finish_read (m : Mode α) : m.finish.flatMap Token.raw = m.read := by
  cases m <;> simp [finish, read]

theorem Mode.step_read (hx : char (code x) = x) (m : Mode α) :
    (m.step x).2.flatMap Token.raw ++ (m.step x).1.read = m.read ++ [x] := by
  cases m with
  | plain => exact start_read hx
  | word read =>
    simp only [step]
    split_ifs
    · rfl
    · exact next_read hx _
  | opened q read =>
    simp only [step]
    split_ifs <;> rfl
  | closed q read =>
    simp only [step]
    split_ifs
    · rfl
    · exact next_read hx _
  | dash =>
    simp only [step]
    split_ifs
    · rfl
    · exact next_read hx _
  | comment read =>
    simp only [step]
    split_ifs
    · simp [Mode.read]
    · rfl

theorem State.step_read (hx : char (code x) = x) (σ : State α) :
    (σ.step x).2.flatMap Token.raw ++ (σ.step x).1.read = σ.read ++ [x] := by
  cases σ with
  | outside m =>
    simp only [step]
    split_ifs with h
    · rw [Bool.and_eq_true, decide_eq_true_eq] at h
      rw [h.1] at hx
      simp [read, Mode.finish_read, hx]
    · exact m.step_read hx
  | opening =>
    simp only [step]
    split_ifs with h
    · simp [read, Mode.read]
    · simp [read, Mode.start_read hx]
  | inside m =>
    simp only [step]
    split_ifs with h
    · rw [h] at hx
      simp [read, hx]
    · exact m.step_read hx
  | closing m =>
    have hdollar := m.step_read (x := (char '$' : α)) (by rw [code_char])
    simp only [step]
    split_ifs with h
    · simp [read, Mode.read, Mode.finish_read]
    · simp only [read, List.flatMap_append, List.append_assoc, Mode.step_read hx]
      rw [← List.append_assoc, hdollar, List.append_assoc]

theorem State.finish_read (σ : State α) : σ.finish.flatMap Token.raw = σ.read := by
  cases σ <;> simp [finish, read, Mode.finish_read]

end

instance : Alphabet Char := ⟨id, id, fun _ ↦ rfl⟩

/-! ### Quoting -/

/-- A text with each mark doubled. -/
def double (mark : Char) (s : List Char) : List Char :=
  s.flatMap fun c ↦ if c = mark then [mark, mark] else [c]

/-- A text in quotes. -/
def Quote.enclose (q : Quote) (s : List Char) : List Char := q.mark :: double q.mark s ++ [q.mark]

/-- The text that ends with a mark, where a doubled mark stands for one. -/
def undouble (mark : Char) : List Char → Option (List Char)
  | [] => none
  | [c] => if c = mark then some [] else none
  | c :: d :: rest =>
    if c = mark then if d = mark then (undouble mark rest).map (mark :: ·) else none
    else (undouble mark (d :: rest)).map (c :: ·)

/-- What a text in quotes stands for. -/
def Quote.unquote (q : Quote) : List Char → Option (List Char)
  | [] => none
  | c :: rest => if c = q.mark then undouble q.mark rest else none

/-- What a quoted token stands for. -/
def Token.denotes (t : Token Char) : Option (List Char) :=
  match t.kind with
  | .quoted q => q.unquote t.raw
  | _ => none

theorem double_cons (mark c : Char) (s : List Char) :
    double mark (c :: s) = (if c = mark then [mark, mark] else [c]) ++ double mark s := rfl

theorem undouble_double (mark : Char) (s : List Char) :
    undouble mark (double mark s ++ [mark]) = some s := by
  induction s with
  | nil => simp [double, undouble]
  | cons c s ih =>
    rw [double_cons]
    by_cases hc : c = mark
    · subst hc
      simp [undouble, ih]
    · obtain ⟨d, rest, hrest⟩ := List.exists_cons_of_ne_nil
        (List.append_ne_nil_of_right_ne_nil (double mark s) (List.cons_ne_nil mark []))
      rw [if_neg hc, List.append_assoc, hrest, List.singleton_append, undouble, if_neg hc, ← hrest,
        ih]
      rfl

/-- Every name is read back from its quotes. -/
theorem Quote.unquote_enclose (q : Quote) (s : List Char) : q.unquote (q.enclose s) = some s := by
  rw [enclose, List.cons_append, unquote, if_pos rfl, undouble_double]

theorem length_of_undouble {mark : Char} {l s : List Char} (h : undouble mark l = some s) :
    l.length = s.length + s.count mark + 1 := by
  induction l using undouble.induct mark generalizing s with
  | case1 => cases h
  | case2 =>
    rw [undouble, if_pos rfl] at h
    cases h
    rfl
  | case3 c hc =>
    rw [undouble, if_neg hc] at h
    cases h
  | case4 rest ih =>
    rw [undouble, if_pos rfl, if_pos rfl] at h
    obtain ⟨s, hs, rfl⟩ := Option.map_eq_some_iff.1 h
    rw [List.length_cons, List.length_cons, ih hs, List.length_cons, List.count_cons_self]
    omega
  | case5 d rest hd =>
    rw [undouble, if_pos rfl, if_neg hd] at h
    cases h
  | case6 c d rest hc ih =>
    rw [undouble, if_neg hc] at h
    obtain ⟨s, hs, rfl⟩ := Option.map_eq_some_iff.1 h
    rw [List.length_cons, ih hs, List.length_cons, List.count_cons_of_ne hc]
    omega

end SqlText

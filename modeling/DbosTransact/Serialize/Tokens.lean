import DbosTransact.JsonText

/-!
# The tokens of compact JSON

Compact JSON is a sequence of tokens without blanks: string literals, and single characters that are
neither quotes nor underscores. The text of a number is a parameter (`num`), so that this is about
doubles as well.

The code recognises an envelope by a substring of the whole text, which begins and ends with a quote
and has two more inside. Where such a substring can stand is a question about quotes: inside a
literal every quote follows a backslash (`escapedQuotes_escape`), so a quote that does not ends the
literal. So the substring is there exactly when some key ends in the one word and its value is the
other (`fieldText_infix_iff`). `keyed_tokens` says which keys those are in the text of a tree.
-/

namespace Dbos

namespace Json

/-- The text of a string value. -/
def asString : Json → Option String
  | string s => some s
  | _ => none

mutual

/-- The fields with a string as value, of every object in a tree. -/
def textFields : Json → List (String × String)
  | array items => textFieldsItems items
  | object fields => textFieldsFields fields
  | _ => []

def textFieldsItems : List Json → List (String × String)
  | [] => []
  | v :: rest => textFields v ++ textFieldsItems rest

def textFieldsFields : List (String × Json) → List (String × String)
  | [] => []
  | (k, v) :: rest => (v.asString.map (k, ·)).toList ++ textFields v ++ textFieldsFields rest

end

end Json

namespace JsonText

/-- A token of compact JSON. -/
inductive Token
  | punct (c : Char)
  | lit (s : String)

/-- The characters of a string between its quotes. -/
def escape (s : String) : List Char := s.toList.flatMap printChar

theorem length_le_escape (s : String) : s.length ≤ (escape s).length := by
  have hchar : ∀ c, 1 ≤ (printChar c).length := by
    intro c
    rw [printChar]
    repeat' split
    all_goals simp
  rw [escape, ← String.length_toList]
  induction s.toList with
  | nil => exact le_rfl
  | cons c cs ih =>
    have hc := hchar c
    rw [List.flatMap_cons, List.length_append, List.length_cons]
    omega

def Token.text : Token → List Char
  | punct c => [c]
  | lit s => '"' :: (escape s ++ ['"'])

/-- The text of a sequence of tokens. -/
def tokenText (ts : List Token) : List Char := ts.flatMap Token.text

section

variable (num : JsonNumber → List Char)

mutual

/-- The tokens of the compact text of a value, its numbers written as `num` says. -/
def tokens : Json → List Token
  | .null => "null".toList.map .punct
  | .bool true => "true".toList.map .punct
  | .bool false => "false".toList.map .punct
  | .number n => (num n).map .punct
  | .string s => [.lit s]
  | .array [] => [.punct '[', .punct ']']
  | .array (v :: rest) => .punct '[' :: (tokens v ++ itemTokens rest)
  | .object [] => [.punct '\x7b', .punct '\x7d']
  | .object ((k, v) :: rest) =>
    .punct '\x7b' :: .lit k :: .punct ':' :: (tokens v ++ fieldTokens rest)

/-- The items of an array after the first, with the closing bracket. -/
def itemTokens : List Json → List Token
  | [] => [.punct ']']
  | v :: rest => .punct ',' :: (tokens v ++ itemTokens rest)

def fieldTokens : List (String × Json) → List Token
  | [] => [.punct '\x7d']
  | (k, v) :: rest => .punct ',' :: .lit k :: .punct ':' :: (tokens v ++ fieldTokens rest)

end

end

/-! ### Quotes inside a literal -/

/-- Every quote in the text follows a backslash; `p` is the character before the text. -/
def escapedQuotes : Char → List Char → Bool
  | _, [] => true
  | p, c :: cs => (c ≠ '"' || p = '\\') && escapedQuotes c cs

theorem escapedQuotes_cons {c p : Char} {cs : List Char} (hc : c ≠ '"')
    (h : ∀ p, escapedQuotes p cs = true) : escapedQuotes p (c :: cs) = true := by
  simp [escapedQuotes, hc, h]

theorem escapedQuotes_printChar (c p : Char) {cs : List Char}
    (h : ∀ p, escapedQuotes p cs = true) : escapedQuotes p (printChar c ++ cs) = true := by
  by_cases hquote : c = '"'
  · subst hquote
    simp [printChar, escapedQuotes, h]
  · have hhex : ∀ d < 16, hexDigit d ≠ '"' := by decide
    rw [printChar, if_neg hquote]
    repeat' split
    all_goals
      simp only [List.cons_append, List.nil_append]
      repeat' refine escapedQuotes_cons ?_ fun p ↦ ?_
    all_goals first
      | exact h _
      | exact hquote
      | decide
      | exact hhex _ (by omega)

/-- **Inside a literal a quote follows a backslash.** -/
theorem escapedQuotes_escape (s : String) (p : Char) : escapedQuotes p (escape s) = true := by
  rw [escape]
  induction s.toList generalizing p with
  | nil => rfl
  | cons c cs ih =>
    rw [List.flatMap_cons]
    exact escapedQuotes_printChar c p ih

theorem eq_backslash_of_escapedQuotes {p c : Char} {a b : List Char}
    (h : escapedQuotes p (a ++ c :: '"' :: b) = true) : c = '\\' := by
  induction a generalizing p with
  | nil => simpa [escapedQuotes] using (Bool.and_eq_true_iff.1 (Bool.and_eq_true_iff.1 h).2).1
  | cons d a ih => exact ih (Bool.and_eq_true_iff.1 h).2

/-- A literal ends at the first quote that follows no backslash. -/
theorem literal_end {s : String} {word tail rest q : List Char} {c : Char}
    (htail : tail <:+ escape s) (hquote : '"' ∉ word ++ [c]) (hc : c ≠ '\\') :
    (word ++ [c]) ++ '"' :: q <+: tail ++ '"' :: rest ↔ tail = word ++ [c] ∧ q <+: rest := by
  constructor
  · rintro ⟨x, hx⟩
    rw [List.append_assoc, List.cons_append] at hx
    obtain ⟨l, hl, hl'⟩ | ⟨l, hl, hl'⟩ := List.append_eq_append_iff.1 hx
    · rcases l with _ | ⟨d, l⟩
      · rw [List.append_nil] at hl
        exact ⟨hl, x, (List.cons.inj hl').2⟩
      · -- a quote right after the word would be inside the literal
        obtain rfl : '"' = d := (List.cons.inj hl').1
        obtain ⟨a, ha⟩ := htail
        refine absurd (eq_backslash_of_escapedQuotes (p := 'x') (a := a ++ word) (b := l) ?_) hc
        have hesc : a ++ word ++ c :: '"' :: l = escape s := by
          rw [← ha, hl]
          simp
        rw [hesc]
        exact escapedQuotes_escape s _
    · rcases l with _ | ⟨d, l⟩
      · rw [List.append_nil] at hl
        exact ⟨hl.symm, x, ((List.cons.inj hl').2).symm⟩
      · obtain rfl : '"' = d := (List.cons.inj hl').1
        exact absurd (by rw [hl]; simp) hquote
  · rintro ⟨rfl, x, rfl⟩
    exact ⟨x, by simp⟩

/-! ### A field as a substring -/

/-- A text without quotes that does not end in a backslash. -/
def IsWord (w : List Char) : Prop := ∃ w' c, w = w' ++ [c] ∧ '"' ∉ w ∧ c ≠ '\\'

/-- A key, a colon and a value, as they stand in the text. -/
def fieldText (key val : List Char) : List Char :=
  '"' :: (key ++ '"' :: ':' :: '"' :: (val ++ ['"']))

/-- The key whose literal ends here, when a colon and a literal follow. -/
def keyedBy : String → List Token → List (String × String)
  | k, .punct ':' :: .lit s :: _ => [(k, s)]
  | _, _ => []

/-- The literals that are followed by a colon and a literal, with that literal. -/
def keyed : List Token → List (String × String)
  | [] => []
  | .punct _ :: rest => keyed rest
  | .lit k :: rest => keyedBy k rest ++ keyed rest

/-- No single-character token is a quote or begins the key. -/
def PlainFor (key : List Char) (ts : List Token) : Prop :=
  ∀ c, .punct c ∈ ts → c ≠ '"' ∧ key.head? ≠ some c

section

variable {key val : List Char}

theorem fst_of_mem_keyedBy {k : String} {ts : List Token} {e : String × String}
    (he : e ∈ keyedBy k ts) : e.1 = k := by
  unfold keyedBy at he
  split at he
  · rw [List.mem_singleton.1 he]
  · cases he

theorem PlainFor.tail {t : Token} {ts : List Token} (h : PlainFor key (t :: ts)) :
    PlainFor key ts := fun c hc ↦ h c (List.mem_cons_of_mem _ hc)

theorem tokenText_punct (c : Char) (ts : List Token) :
    tokenText (.punct c :: ts) = c :: tokenText ts := rfl

theorem tokenText_lit (s : String) (ts : List Token) :
    tokenText (.lit s :: ts) = '"' :: (escape s ++ '"' :: tokenText ts) := by
  simp [tokenText, Token.text]

/-- A word that ends a literal and is followed by `q`. -/
theorem IsWord.prefix_iff {w : List Char} (hw : IsWord w) {s : String} {tail rest : List Char}
    (htail : tail <:+ escape s) (q : List Char) :
    w ++ '"' :: q <+: tail ++ '"' :: rest ↔ tail = w ∧ q <+: rest := by
  obtain ⟨w', c, rfl, hquote, hc⟩ := hw
  exact literal_end htail hquote hc

theorem not_quote_prefix_punct {c : Char} {cs : List Char} {ts : List Token}
    (hts : PlainFor key (.punct c :: ts)) : ¬( '"' :: cs <+: tokenText (.punct c :: ts)) := by
  rw [tokenText_punct, List.cons_prefix_cons]
  rintro ⟨rfl, -⟩
  exact (hts '"' List.mem_cons_self).1 rfl

/-- What follows the key of the field: a colon and the literal of the value. -/
theorem prefix_tokenText_iff (hval : IsWord val) (k : String) {ts : List Token}
    (hts : PlainFor key ts) :
    ':' :: '"' :: (val ++ ['"']) <+: tokenText ts ↔ ∃ e ∈ keyedBy k ts, escape e.2 = val := by
  rcases ts with _ | ⟨d | s, ts⟩
  · simp [tokenText, keyedBy]
  · rw [tokenText_punct, List.cons_prefix_cons]
    rcases ts with _ | ⟨e | s, ts⟩
    · simp [tokenText, keyedBy]
    · simp [not_quote_prefix_punct hts.tail, keyedBy]
    · rw [tokenText_lit, List.cons_prefix_cons, hval.prefix_iff (List.suffix_refl _)]
      by_cases hcolon : d = ':'
      · subst hcolon
        simp [keyedBy]
      · have hnil : keyedBy k (.punct d :: .lit s :: ts) = [] := by
          unfold keyedBy
          split
          · rename_i heq
            cases heq
            exact absurd rfl hcolon
          · rfl
        simp [hnil, Ne.symm hcolon]
  · rw [tokenText_lit, List.cons_prefix_cons]
    simp [keyedBy]

/-- Where the field can begin in a text that begins with a literal: inside the literal, so that the
literal ends in the key, or after it. -/
theorem infix_literal_iff (hkey : IsWord key) (s : String) {rest : List Char}
    (hrest : ∀ c ∈ key.head?, rest.head? ≠ some c) (q : List Char) :
    '"' :: (key ++ '"' :: q) <:+: '"' :: (escape s ++ '"' :: rest) ↔
      ('"' :: key <:+ '"' :: escape s ∧ q <+: rest) ∨ '"' :: (key ++ '"' :: q) <:+: rest := by
  -- at a quote that closes the literal the key would have to follow it
  have hclosing : ∀ b, '"' :: (key ++ '"' :: q) ++ b ≠ '"' :: rest := by
    intro b hb
    have hnext : key ++ '"' :: q ++ b = rest := (List.cons.inj hb).2
    obtain ⟨w, c, rfl, -, -⟩ := hkey
    rcases w with _ | ⟨d, w⟩
    · exact hrest c (by simp) (by rw [← hnext]; simp)
    · exact hrest d (by simp) (by rw [← hnext]; simp)
  constructor
  · rintro ⟨a, b, hab⟩
    rw [List.append_assoc] at hab
    obtain ⟨l, hl, hl'⟩ | ⟨l, hl, hl'⟩ :=
      List.append_eq_append_iff.1 (hab.trans (List.cons_append).symm)
    · rcases l with _ | ⟨d, l⟩
      · exact absurd hl' (hclosing b)
      · have hcons := List.cons.inj (hl'.trans List.cons_append)
        obtain rfl : '"' = d := hcons.1
        have hsuffix : '"' :: l <:+ '"' :: escape s := ⟨a, hl.symm⟩
        have htail : l <:+ escape s := by
          rcases a with _ | ⟨e, a⟩
          · exact (List.cons.inj hl).2 ▸ List.suffix_refl _
          · have hesc := (List.cons.inj hl).2
            exact ⟨a ++ ['"'], by rw [hesc]; simp⟩
        have hq : key ++ '"' :: q <+: l ++ '"' :: rest := ⟨b, hcons.2⟩
        rw [hkey.prefix_iff htail q] at hq
        exact Or.inl ⟨hq.1 ▸ hsuffix, hq.2⟩
    · rcases l with _ | ⟨d, l⟩
      · exact absurd hl'.symm (hclosing b)
      · exact Or.inr ⟨l, b, by rw [List.append_assoc]; exact ((List.cons.inj hl').2).symm⟩
  · rintro (⟨⟨a, ha⟩, ⟨b, rfl⟩⟩ | ⟨a, b, rfl⟩)
    · refine ⟨a, b, ?_⟩
      have hsplit := congrArg (· ++ '"' :: (q ++ b)) ha
      simpa using hsplit
    · exact ⟨'"' :: (escape s ++ '"' :: a), b, by simp⟩

/-- **Where a field is a substring.** Some literal ends in the key, and a colon and the value
follow. -/
theorem fieldText_infix_iff (hkey : IsWord key) (hval : IsWord val) {ts : List Token}
    (hts : PlainFor key ts) :
    fieldText key val <:+: tokenText ts ↔
      ∃ e ∈ keyed ts, '"' :: key <:+ '"' :: escape e.1 ∧ escape e.2 = val := by
  induction ts with
  | nil => simp [tokenText, fieldText, keyed]
  | cons t ts ih =>
    cases t with
    | punct c =>
      rw [tokenText_punct, List.infix_cons_iff, keyed, ← ih hts.tail]
      exact or_iff_right (not_quote_prefix_punct hts)
    | lit s =>
      have hrest : ∀ c ∈ key.head?, (tokenText ts).head? ≠ some c := by
        intro c hc hhead
        rcases ts with _ | ⟨d | s', ts⟩
        · cases hhead
        · obtain rfl : d = c := Option.some.inj hhead
          exact (hts d (by simp)).2 hc
        · obtain rfl : '"' = c := by
            rw [tokenText_lit] at hhead
            exact Option.some.inj hhead
          obtain ⟨w, c, -, hquote, -⟩ := hkey
          exact hquote (List.mem_of_mem_head? hc)
      rw [tokenText_lit, fieldText, infix_literal_iff hkey s hrest, ← fieldText, ih hts.tail,
        prefix_tokenText_iff hval s hts.tail, keyed]
      simp only [List.mem_append, or_and_right, exists_or]
      refine or_congr_left ⟨?_, ?_⟩
      · rintro ⟨hsuffix, e, he, hvalue⟩
        exact ⟨e, he, by rwa [fst_of_mem_keyedBy he], hvalue⟩
      · rintro ⟨e, he, hsuffix, hvalue⟩
        exact ⟨by rwa [fst_of_mem_keyedBy he] at hsuffix, e, he, hvalue⟩

/-! ### The text of a tree -/

/-- The next token is not a colon. -/
def NoColon (ts : List Token) : Prop := ∀ t ∈ ts.head?, t ≠ .punct ':'

theorem keyedBy_of_noColon (k : String) {ts : List Token} (h : NoColon ts) : keyedBy k ts = [] := by
  unfold keyedBy
  split
  · exact absurd rfl (h _ rfl)
  · rfl

theorem keyed_puncts (cs : List Char) (rest : List Token) :
    keyed (cs.map .punct ++ rest) = keyed rest := by
  induction cs with
  | nil => rfl
  | cons c cs ih => exact ih

variable (num : JsonNumber → List Char)

theorem noColon_itemTokens (vs : List Json) (rest : List Token) :
    NoColon (itemTokens num vs ++ rest) := by
  cases vs <;> (rintro t ⟨⟩; simp)

theorem noColon_fieldTokens (fs : List (String × Json)) (rest : List Token) :
    NoColon (fieldTokens num fs ++ rest) := by
  rcases fs with _ | ⟨⟨k, v⟩, fs⟩ <;> (rintro t ⟨⟩; simp)

/-- The literal after a key is the whole value. -/
theorem keyedBy_tokens (k : String) (v : Json) (fs : List (String × Json)) (rest : List Token) :
    keyedBy k (.punct ':' :: (tokens num v ++ (fieldTokens num fs ++ rest))) =
      (v.asString.map (k, ·)).toList := by
  have hclose : keyedBy k (.punct ':' :: (fieldTokens num fs ++ rest)) = [] := by
    rcases fs with _ | ⟨⟨k', v'⟩, fs⟩ <;> rfl
  match v with
  | .null | .bool true | .bool false | .string _ | .array [] | .array (_ :: _) | .object []
  | .object ((_, _) :: _) => rfl
  | .number n =>
    rw [tokens]
    rcases num n with _ | ⟨c, cs⟩
    · exact hclose
    · rfl

mutual

/-- The keyed literals in the text of a value are its fields with a string as value. -/
theorem keyed_tokens (v : Json) {rest : List Token} (hrest : NoColon rest) :
    keyed (tokens num v ++ rest) = v.textFields ++ keyed rest := by
  match v with
  | .null => exact keyed_puncts _ rest
  | .bool true => exact keyed_puncts _ rest
  | .bool false => exact keyed_puncts _ rest
  | .number n => exact keyed_puncts _ rest
  | .string s =>
    rw [tokens, List.singleton_append, keyed, keyedBy_of_noColon s hrest]
    rfl
  | .array [] => rfl
  | .array (v :: vs) =>
    rw [tokens, List.cons_append, List.append_assoc, keyed,
      keyed_tokens v (noColon_itemTokens num vs rest), keyed_itemTokens vs]
    simp [Json.textFields, Json.textFieldsItems]
  | .object [] => rfl
  | .object ((k, v) :: fs) =>
    simp only [tokens, List.cons_append, List.append_assoc, keyed]
    rw [keyedBy_tokens, keyed_tokens v (noColon_fieldTokens num fs rest), keyed_fieldTokens fs]
    simp [Json.textFields, Json.textFieldsFields]

theorem keyed_itemTokens (vs : List Json) {rest : List Token} :
    keyed (itemTokens num vs ++ rest) = Json.textFieldsItems vs ++ keyed rest := by
  match vs with
  | [] => rfl
  | v :: vs =>
    rw [itemTokens, List.cons_append, List.append_assoc, keyed,
      keyed_tokens v (noColon_itemTokens num vs rest), keyed_itemTokens vs]
    simp [Json.textFieldsItems]

theorem keyed_fieldTokens (fs : List (String × Json)) {rest : List Token} :
    keyed (fieldTokens num fs ++ rest) = Json.textFieldsFields fs ++ keyed rest := by
  match fs with
  | [] => rfl
  | (k, v) :: fs =>
    simp only [fieldTokens, List.cons_append, List.append_assoc, keyed]
    rw [keyedBy_tokens, keyed_tokens v (noColon_fieldTokens num fs rest), keyed_fieldTokens fs]
    simp [Json.textFieldsFields]

end

section

variable {key : List Char}

theorem PlainFor.append {ts us : List Token} (hts : PlainFor key ts) (hus : PlainFor key us) :
    PlainFor key (ts ++ us) := fun c hc ↦ (List.mem_append.1 hc).elim (hts c) (hus c)

theorem PlainFor.lit {s : String} {ts : List Token} (hts : PlainFor key ts) :
    PlainFor key (.lit s :: ts) := by
  intro c hc
  exact hts c (by simpa using hc)

theorem plainFor_puncts (hkey : key.head? = some '_') {cs : List Char}
    (hcs : ∀ c ∈ cs, c ≠ '"' ∧ c ≠ '_') : PlainFor key (cs.map .punct) := by
  intro c hc
  obtain ⟨d, hd, heq⟩ := List.mem_map.1 hc
  obtain rfl : d = c := Token.punct.inj heq
  refine ⟨(hcs d hd).1, fun h ↦ (hcs d hd).2 ?_⟩
  exact Option.some.inj (h.symm.trans hkey)

theorem PlainFor.punct {c : Char} {ts : List Token} (hts : PlainFor key ts)
    (hkey : key.head? = some '_') (hc : c ≠ '"' ∧ c ≠ '_') : PlainFor key (.punct c :: ts) :=
  have hone : PlainFor key ([c].map .punct) := plainFor_puncts hkey (by simpa using hc)
  hone.append hts

mutual

/-- The characters outside literals are neither quotes nor underscores. -/
theorem plainFor_tokens (hkey : key.head? = some '_')
    (hnum : ∀ n, ∀ c ∈ num n, c ≠ '"' ∧ c ≠ '_') (v : Json) : PlainFor key (tokens num v) := by
  match v with
  | .null | .bool true | .bool false => exact plainFor_puncts hkey (by simp)
  | .number n => exact plainFor_puncts hkey (hnum n)
  | .string s => exact PlainFor.lit (by rintro c ⟨⟩)
  | .array [] | .object [] =>
    exact (PlainFor.punct (by rintro c ⟨⟩) hkey (by decide)).punct hkey (by decide)
  | .array (v :: vs) =>
    have hv := plainFor_tokens hkey hnum v
    exact (hv.append (plainFor_itemTokens hkey hnum vs)).punct hkey (by decide)
  | .object ((k, v) :: fs) =>
    have hv := plainFor_tokens hkey hnum v
    exact (((hv.append (plainFor_fieldTokens hkey hnum fs)).punct hkey (by decide)).lit).punct hkey
      (by decide)

theorem plainFor_itemTokens (hkey : key.head? = some '_')
    (hnum : ∀ n, ∀ c ∈ num n, c ≠ '"' ∧ c ≠ '_') (vs : List Json) :
    PlainFor key (itemTokens num vs) := by
  match vs with
  | [] => exact PlainFor.punct (by rintro c ⟨⟩) hkey (by decide)
  | v :: vs =>
    have hv := plainFor_tokens hkey hnum v
    exact (hv.append (plainFor_itemTokens hkey hnum vs)).punct hkey (by decide)

theorem plainFor_fieldTokens (hkey : key.head? = some '_')
    (hnum : ∀ n, ∀ c ∈ num n, c ≠ '"' ∧ c ≠ '_') (fs : List (String × Json)) :
    PlainFor key (fieldTokens num fs) := by
  match fs with
  | [] => exact PlainFor.punct (by rintro c ⟨⟩) hkey (by decide)
  | (k, v) :: fs =>
    have hv := plainFor_tokens hkey hnum v
    exact (((hv.append (plainFor_fieldTokens hkey hnum fs)).punct hkey (by decide)).lit).punct hkey
      (by decide)

end

end

end

/-! ### Words and their escaped form -/

theorem escape_inj {s t : String} (h : escape s = escape t) : s = t := by
  have hs := parseString_print s.toList []
  have ht := parseString_print t.toList []
  rw [printString, ← escape, h, escape, ← printString] at hs
  have hlist : s.toList = t.toList := by simpa using hs.symm.trans ht
  exact String.toList_inj.1 hlist

/-- Only a quote has a quote in its escaped form. -/
theorem eq_quote_of_mem_printChar {c : Char} (h : '"' ∈ printChar c) : c = '"' := by
  have hhex : ∀ d < 16, hexDigit d ≠ '"' := by decide
  by_contra hquote
  rw [printChar, if_neg hquote] at h
  repeat' split at h
  all_goals try exact absurd h (by decide)
  · simp only [List.mem_cons, List.not_mem_nil, or_false] at h
    rcases h with h | h | h | h | h | h
    all_goals first
      | exact absurd h (by decide)
      | exact hhex _ (by omega) h.symm
  · exact hquote (List.mem_singleton.1 h).symm

/-- A word with the escaped form of its own. -/
def Unescaped (w : List Char) : Prop := w.flatMap printChar = w

/-- **A quote before a word.** The escaped form of a string ends in a quote and the word exactly
when the string does. -/
theorem quote_suffix_escape_iff {w : List Char} (hw : Unescaped w) (s : String) :
    '"' :: w <:+ '"' :: escape s ↔ '"' :: w <:+ '"' :: s.toList := by
  have hinj : ∀ cs : List Char, w = cs.flatMap printChar ↔ w = cs := by
    intro cs
    refine ⟨fun h ↦ ?_, fun h ↦ h ▸ hw.symm⟩
    have hesc : escape (String.ofList w) = escape (String.ofList cs) := by
      rw [escape, escape, String.toList_ofList, String.toList_ofList, hw, h]
    exact String.ofList_inj.1 (escape_inj hesc)
  have hsuffix : ∀ cs : List Char, '"' :: w <:+ cs.flatMap printChar ↔ '"' :: w <:+ cs := by
    intro cs
    induction cs with
    | nil => simp
    | cons c cs ih =>
      rw [List.flatMap_cons, List.suffix_cons_iff, List.cons.injEq, ← ih, ← hinj]
      constructor
      · rintro ⟨a, ha⟩
        obtain ⟨l, hl, hl'⟩ | ⟨l, hl, hl'⟩ := List.append_eq_append_iff.1 ha
        · rcases l with _ | ⟨d, l⟩
          · exact Or.inr (hl'.trans (List.nil_append _) ▸ List.suffix_refl _)
          · have hcons := List.cons.inj (hl'.trans List.cons_append)
            obtain rfl : '"' = d := hcons.1
            obtain rfl := eq_quote_of_mem_printChar (c := c) (by rw [hl]; simp)
            have hnil : l = [] := by
              have hlen := congrArg List.length hl
              rcases a with _ | ⟨e, a⟩
              · cases hl
              · rw [List.length_append, List.length_cons, List.length_cons,
                  show (printChar '"').length = 2 from rfl] at hlen
                exact List.eq_nil_of_length_eq_zero (by omega)
            exact Or.inl ⟨rfl, by rw [hcons.2, hnil]; rfl⟩
        · exact Or.inr ⟨l, hl'.symm⟩
      · rintro (⟨rfl, hcs⟩ | h)
        · exact ⟨['\\'], by rw [← hcs]; rfl⟩
        · exact h.trans (List.suffix_append _ _)
  rw [List.suffix_cons_iff, List.suffix_cons_iff, List.cons.injEq, List.cons.injEq, escape,
    hinj, hsuffix]

/-- The literal of a word. -/
theorem escape_eq_iff {w : List Char} (hw : Unescaped w) (s : String) :
    escape s = w ↔ s = String.ofList w := by
  have hesc : escape (String.ofList w) = w := by rw [escape, String.toList_ofList, hw]
  exact ⟨fun h ↦ escape_inj (h.trans hesc.symm), fun h ↦ h ▸ hesc⟩

/-! ### The printer -/

def printNumber : JsonNumber → List Char
  | .int n => printInt n
  | .float bits => printNat bits

theorem mem_of_mem_printNumber (n : JsonNumber) (c : Char) (hc : c ∈ printNumber n) :
    c ∈ "0123456789+-.eE".toList := by
  have hdigits : ∀ c ∈ "0123456789".toList, c ∈ "0123456789+-.eE".toList := by simp
  have hnat : ∀ n, c ∈ printNat n → c ∈ "0123456789+-.eE".toList := fun n hc ↦
    hdigits c (mem_of_isDigit (isDigit_of_mem_printNat hc))
  cases n with
  | float bits => exact hnat bits hc
  | int n =>
    cases n with
    | ofNat n => exact hnat n hc
    | negSucc n =>
      rcases List.mem_cons.1 hc with rfl | hc
      · decide
      · exact hnat _ hc

theorem tokenText_puncts (cs : List Char) : tokenText (cs.map .punct) = cs := by
  induction cs with
  | nil => rfl
  | cons c cs ih => exact congrArg (List.cons c) ih

theorem tokenText_append (ts us : List Token) :
    tokenText (ts ++ us) = tokenText ts ++ tokenText us :=
  List.flatMap_append

theorem printString_append (k : String) (rest : List Char) :
    '"' :: (printString k.toList ++ rest) = '"' :: (escape k ++ '"' :: rest) := by
  simp [printString, escape]

mutual

/-- `print` writes the tokens. -/
theorem print_eq_tokenText (v : Json) : print v = tokenText (tokens printNumber v) := by
  match v with
  | .null | .bool true | .bool false => rfl
  | .number (.int n) => exact (tokenText_puncts _).symm
  | .number (.float n) => exact (tokenText_puncts _).symm
  | .string s =>
    rw [tokens, tokenText_lit, ← printString_append]
    simp [print, tokenText]
  | .array [] | .object [] => rfl
  | .array (v :: vs) =>
    rw [print, tokens, tokenText_punct, tokenText_append, print_eq_tokenText v,
      printItems_eq_tokenText vs]
  | .object ((k, v) :: fs) =>
    rw [print, tokens, tokenText_punct, tokenText_lit, tokenText_punct, tokenText_append,
      printString_append, print_eq_tokenText v, printFields_eq_tokenText fs]

theorem printItems_eq_tokenText (vs : List Json) :
    printItems vs = tokenText (itemTokens printNumber vs) := by
  match vs with
  | [] => rfl
  | v :: vs =>
    rw [printItems, itemTokens, tokenText_punct, tokenText_append, print_eq_tokenText v,
      printItems_eq_tokenText vs]

theorem printFields_eq_tokenText (fs : List (String × Json)) :
    printFields fs = tokenText (fieldTokens printNumber fs) := by
  match fs with
  | [] => rfl
  | (k, v) :: fs =>
    rw [printFields, fieldTokens, tokenText_punct, tokenText_lit, tokenText_punct, tokenText_append,
      printString_append, print_eq_tokenText v, printFields_eq_tokenText fs]

end

end JsonText

end Dbos

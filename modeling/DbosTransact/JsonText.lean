import DbosTransact.Serialize
import Mathlib.Data.Nat.Digits.Lemmas

/-!
# JSON and base64 text

Compact JSON as text and back, and base64, with the proofs that they read back what they wrote. It
is the text that the libraries behind `SerdeJson` write for a value without doubles, so that
`jsonText` is an instance of that class to compute with. The parser reads this text and no other:
no blanks, and only the escapes that are written.

The round trip `parse_print` is an induction over the tree with the rest of the text as a parameter;
a number is the one case that has to know how that rest begins.
-/

namespace Dbos.JsonText

/-! ### Numbers -/

def digitChar (d : ℕ) : Char := Char.ofNat (48 + d)

def digitVal (c : Char) : ℕ := c.toNat - 48

def printNat (n : ℕ) : List Char :=
  if n = 0 then ['0'] else ((Nat.digits 10 n).map digitChar).reverse

def printInt : ℤ → List Char
  | .ofNat n => printNat n
  | .negSucc n => '-' :: printNat (n + 1)

/-- The leading digits of a text. -/
def parseNat (cs : List Char) : Option (ℕ × List Char) :=
  match cs.takeWhile Char.isDigit with
  | [] => none
  | ds => some (Nat.ofDigits 10 (ds.reverse.map digitVal), cs.dropWhile Char.isDigit)

theorem digitChar_spec : ∀ d < 10, (digitChar d).isDigit = true ∧ digitVal (digitChar d) = d := by
  decide

theorem printNat_ne_nil (n : ℕ) : printNat n ≠ [] := by
  rw [printNat]
  split
  · simp
  · rename_i hn
    simpa [Nat.digits_eq_nil_iff_eq_zero] using hn

theorem isDigit_of_mem_printNat {n : ℕ} {c : Char} (h : c ∈ printNat n) : c.isDigit = true := by
  rw [printNat] at h
  split at h
  · rw [List.mem_singleton] at h
    subst h
    rfl
  · obtain ⟨d, hd, rfl⟩ := List.mem_map.1 (List.mem_reverse.1 h)
    exact (digitChar_spec d (Nat.digits_lt_base (by decide) hd)).1

theorem ofDigits_printNat (n : ℕ) : Nat.ofDigits 10 ((printNat n).reverse.map digitVal) = n := by
  rw [printNat]
  split
  · rename_i hn
    subst hn
    rfl
  · rw [List.reverse_reverse, List.map_map]
    have hmap : (Nat.digits 10 n).map (digitVal ∘ digitChar) = (Nat.digits 10 n).map id :=
      List.map_congr_left fun d hd ↦ (digitChar_spec d (Nat.digits_lt_base (by decide) hd)).2
    rw [hmap, List.map_id, Nat.ofDigits_digits]

/-- The rest of a text does not go on with a digit. -/
def NoDigit (rest : List Char) : Prop := ∀ c ∈ rest.head?, c.isDigit = false

theorem parseNat_print (n : ℕ) {rest : List Char} (hrest : NoDigit rest) :
    parseNat (printNat n ++ rest) = some (n, rest) := by
  have htake : (printNat n ++ rest).takeWhile Char.isDigit = printNat n := by
    rw [List.takeWhile_append_of_pos fun c hc ↦ isDigit_of_mem_printNat hc]
    cases rest with
    | nil => simp
    | cons c rest => simp [hrest c rfl]
  have hdrop : (printNat n ++ rest).dropWhile Char.isDigit = rest := by
    rw [List.dropWhile_append_of_pos fun c hc ↦ isDigit_of_mem_printNat hc]
    cases rest with
    | nil => simp
    | cons c rest => simp [hrest c rfl]
  rw [parseNat, htake, hdrop]
  split
  · rename_i hnil
    exact absurd hnil (printNat_ne_nil n)
  · rw [ofDigits_printNat]

/-! ### Strings -/

def hexDigit (d : ℕ) : Char := if d < 10 then digitChar d else Char.ofNat (87 + d)

def hexVal (c : Char) : ℕ := if c.toNat < 58 then c.toNat - 48 else c.toNat - 87

/-- One character of a string literal: the short escapes, `\u00xx` for the other control characters,
and every other character as it is. -/
def printChar (c : Char) : List Char :=
  if c = '"' then ['\\', '"']
  else if c = '\\' then ['\\', '\\']
  else if c = Char.ofNat 8 then ['\\', 'b']
  else if c = Char.ofNat 12 then ['\\', 'f']
  else if c = '\n' then ['\\', 'n']
  else if c = '\r' then ['\\', 'r']
  else if c = '\t' then ['\\', 't']
  else if c.toNat < 32 then ['\\', 'u', '0', '0', hexDigit (c.toNat / 16), hexDigit (c.toNat % 16)]
  else [c]

def printString (cs : List Char) : List Char := cs.flatMap printChar ++ ['"']

/-- The characters of a string literal after its opening quote. -/
def parseString : List Char → Option (List Char × List Char)
  | '"' :: rest => some ([], rest)
  | '\\' :: 'u' :: '0' :: '0' :: a :: b :: rest =>
    (parseString rest).map fun r ↦ (Char.ofNat (16 * hexVal a + hexVal b) :: r.1, r.2)
  | '\\' :: c :: rest =>
    let esc := if c = 'b' then some (Char.ofNat 8) else if c = 'f' then some (Char.ofNat 12)
      else if c = 'n' then some '\n' else if c = 'r' then some '\r' else if c = 't' then some '\t'
      else if c = '"' then some '"' else if c = '\\' then some '\\' else none
    match esc, parseString rest with
    | some e, some r => some (e :: r.1, r.2)
    | _, _ => none
  | c :: rest => (parseString rest).map fun r ↦ (c :: r.1, r.2)
  | [] => none

theorem hexVal_hexDigit : ∀ d < 16, hexVal (hexDigit d) = d := by
  decide

theorem parseString_printChar (c : Char) (rest : List Char) :
    parseString (printChar c ++ rest) = (parseString rest).map fun r ↦ (c :: r.1, r.2) := by
  by_cases hshort : c = '"' ∨ c = '\\' ∨ c = Char.ofNat 8 ∨ c = Char.ofNat 12 ∨ c = '\n' ∨
      c = '\r' ∨ c = '\t'
  · rcases hshort with rfl | rfl | rfl | rfl | rfl | rfl | rfl
    all_goals
      simp [printChar, parseString]
      cases parseString rest <;> rfl
  · simp only [not_or] at hshort
    obtain ⟨h₁, h₂, h₃, h₄, h₅, h₆, h₇⟩ := hshort
    rw [printChar, if_neg h₁, if_neg h₂, if_neg h₃, if_neg h₄, if_neg h₅, if_neg h₆, if_neg h₇]
    by_cases hctrl : c.toNat < 32
    · rw [if_pos hctrl]
      have hc : Char.ofNat (16 * (c.toNat / 16) + c.toNat % 16) = c := by
        rw [Nat.div_add_mod, Char.ofNat_toNat]
      have hd₁ := hexVal_hexDigit (c.toNat / 16) (by omega)
      have hd₂ := hexVal_hexDigit (c.toNat % 16) (by omega)
      simp only [List.cons_append, List.nil_append]
      rw [parseString, hd₁, hd₂, hc]
    · rw [if_neg hctrl, List.singleton_append, parseString.eq_def]
      split <;> simp_all

theorem parseString_print (cs rest : List Char) :
    parseString (printString cs ++ rest) = some (cs, rest) := by
  induction cs with
  | nil => rfl
  | cons c cs ih =>
    have hsplit : printString (c :: cs) ++ rest = printChar c ++ (printString cs ++ rest) := by
      simp [printString]
    rw [hsplit, parseString_printChar, ih]
    rfl

/-! ### Values -/

mutual

/-- The compact text of a value. A double has no text of its own here; its bits stand for it. -/
def print : Json → List Char
  | .null => "null".toList
  | .bool true => "true".toList
  | .bool false => "false".toList
  | .number (.int n) => printInt n
  | .number (.float bits) => printNat bits
  | .string str => '"' :: printString str.toList
  | .array [] => "[]".toList
  | .array (v :: rest) => '[' :: (print v ++ printItems rest)
  | .object [] => "{}".toList
  | .object ((k, v) :: rest) =>
    '{' :: '"' :: (printString k.toList ++ ':' :: (print v ++ printFields rest))

/-- The items of an array after the first, with the closing bracket. -/
def printItems : List Json → List Char
  | [] => [']']
  | v :: rest => ',' :: (print v ++ printItems rest)

def printFields : List (String × Json) → List Char
  | [] => ['}']
  | (k, v) :: rest => ',' :: '"' :: (printString k.toList ++ ':' :: (print v ++ printFields rest))

end

mutual

/-- The value at the head of a text; `fuel` bounds the nesting. -/
def parse : ℕ → List Char → Option (Json × List Char)
  | 0, _ => none
  | fuel + 1, cs =>
    match cs with
    | 'n' :: 'u' :: 'l' :: 'l' :: rest => some (.null, rest)
    | 't' :: 'r' :: 'u' :: 'e' :: rest => some (.bool true, rest)
    | 'f' :: 'a' :: 'l' :: 's' :: 'e' :: rest => some (.bool false, rest)
    | '"' :: rest => (parseString rest).map fun r ↦ (.string (String.ofList r.1), r.2)
    | '-' :: rest => (parseNat rest).map fun r ↦ (.number (.int (-r.1)), r.2)
    | '[' :: ']' :: rest => some (.array [], rest)
    | '[' :: rest =>
      (parse fuel rest).bind fun r ↦
        (parseItems fuel r.2).map fun r' ↦ (.array (r.1 :: r'.1), r'.2)
    | '{' :: '}' :: rest => some (.object [], rest)
    | '{' :: rest => (parseField fuel rest).bind fun r ↦
        (parseFields fuel r.2).map fun r' ↦ (.object (r.1 :: r'.1), r'.2)
    | cs => (parseNat cs).map fun r ↦ (.number (.int r.1), r.2)

def parseItems : ℕ → List Char → Option (List Json × List Char)
  | fuel + 1, ',' :: rest =>
    (parse fuel rest).bind fun r ↦ (parseItems fuel r.2).map fun r' ↦ (r.1 :: r'.1, r'.2)
  | _, ']' :: rest => some ([], rest)
  | _, _ => none

/-- A field of an object: a literal, a colon and a value. -/
def parseField : ℕ → List Char → Option ((String × Json) × List Char)
  | fuel + 1, '"' :: rest =>
    match parseString rest with
    | some (k, ':' :: rest) => (parse fuel rest).map fun r ↦ ((String.ofList k, r.1), r.2)
    | _ => none
  | _, _ => none

def parseFields : ℕ → List Char → Option (List (String × Json) × List Char)
  | fuel + 1, ',' :: rest =>
    (parseField fuel rest).bind fun r ↦ (parseFields fuel r.2).map fun r' ↦ (r.1 :: r'.1, r'.2)
  | _, '}' :: rest => some ([], rest)
  | _, _ => none

end

mutual

/-- Enough fuel for the text of a value. -/
def fuelFor : Json → ℕ
  | .array [] => 1
  | .array (v :: rest) => fuelFor v + itemsFuel rest + 1
  | .object [] => 1
  | .object ((_, v) :: rest) => fuelFor v + fieldsFuel rest + 2
  | _ => 1

def itemsFuel : List Json → ℕ
  | [] => 1
  | v :: rest => fuelFor v + itemsFuel rest + 1

def fieldsFuel : List (String × Json) → ℕ
  | [] => 1
  | (_, v) :: rest => fuelFor v + fieldsFuel rest + 2

end

theorem noDigit_printItems (vs : List Json) (rest : List Char) :
    NoDigit (printItems vs ++ rest) := by
  cases vs <;> (rintro c ⟨⟩; rfl)

theorem noDigit_printFields (fs : List (String × Json)) (rest : List Char) :
    NoDigit (printFields fs ++ rest) := by
  rcases fs with _ | ⟨⟨k, v⟩, fs⟩ <;> (rintro c ⟨⟩; rfl)

/-- A text that begins with a digit is read as a number. -/
theorem parse_digits {fuel : ℕ} {cs rest : List Char} (hne : cs ≠ [])
    (hcs : ∀ c ∈ cs, c.isDigit = true) :
    parse (fuel + 1) (cs ++ rest) = (parseNat (cs ++ rest)).map fun r ↦
    (.number (.int r.1), r.2) := by
  obtain ⟨c, cs, rfl⟩ := List.exists_cons_of_ne_nil hne
  have hc := hcs c List.mem_cons_self
  rw [List.cons_append, parse]
  all_goals
    rintro rest' heq
    rw [(List.cons.inj heq).1] at hc
    cases hc

theorem parse_print_int {fuel : ℕ} (n : ℤ) {rest : List Char} (hrest : NoDigit rest) :
    parse (fuel + 1) (printInt n ++ rest) = some (.number (.int n), rest) := by
  cases n with
  | ofNat n =>
    rw [printInt, parse_digits (printNat_ne_nil n) fun c hc ↦ isDigit_of_mem_printNat hc,
      parseNat_print n hrest]
    rfl
  | negSucc n =>
    rw [printInt, List.cons_append, parse, parseNat_print (n + 1) hrest]
    rfl

/-- The characters a JSON document can begin with. -/
def beginsJson (c : Char) : Bool := "\x7b[\"-tfn0123456789".toList.contains c

theorem mem_of_isDigit {c : Char} (hc : c.isDigit = true) : c ∈ "0123456789".toList := by
  have hle : 48 ≤ c.toNat ∧ c.toNat ≤ 57 := by
    simpa [Char.isDigit, UInt32.le_iff_toNat_le] using hc
  have hall : ∀ n < 58, 48 ≤ n → Char.ofNat n ∈ "0123456789".toList := by decide
  have hread := hall c.toNat (by omega) hle.1
  rwa [Char.ofNat_toNat] at hread

theorem beginsJson_of_isDigit {c : Char} (hc : c.isDigit = true) : beginsJson c = true := by
  have hall : ∀ c ∈ "0123456789".toList, beginsJson c = true := by simp [beginsJson]
  exact hall c (mem_of_isDigit hc)

/-- The text of a value begins as a document does. -/
theorem print_eq_cons (v : Json) : ∃ c cs, print v = c :: cs ∧ beginsJson c = true := by
  have hnat : ∀ n, ∃ c cs, printNat n = c :: cs ∧ beginsJson c = true := by
    intro n
    obtain ⟨c, cs, hcs⟩ := List.exists_cons_of_ne_nil (printNat_ne_nil n)
    have hc : c.isDigit = true := isDigit_of_mem_printNat (by rw [hcs]; exact List.mem_cons_self)
    exact ⟨c, cs, hcs, beginsJson_of_isDigit hc⟩
  rcases v with - | b | n | s | vs | fs
  · exact ⟨_, _, rfl, by decide⟩
  · cases b <;> exact ⟨_, _, rfl, by decide⟩
  · rcases n with n | bits
    · cases n with
      | ofNat n => exact hnat n
      | negSucc n => exact ⟨_, _, rfl, by decide⟩
    · exact hnat bits
  · exact ⟨_, _, rfl, by decide⟩
  · cases vs <;> exact ⟨_, _, rfl, by decide⟩
  · rcases fs with - | ⟨⟨k, v⟩, fs⟩ <;> exact ⟨_, _, rfl, by decide⟩

theorem parseField_of_parse {fuel : ℕ} {k : String} {v : Json} {cs rest : List Char}
    (h : parse fuel cs = some (v, rest)) :
    parseField (fuel + 1) ('"' :: (printString k.toList ++ ':' :: cs)) = some ((k, v), rest) := by
  rw [parseField, parseString_print]
  simp [h]

mutual

/-- **The round trip.** A value without doubles is read back from its text, whatever follows it. -/
theorem parse_print (v : Json) {depth fuel : ℕ} (hv : v.printable depth = true)
    (hfuel : fuelFor v ≤ fuel) {rest : List Char} (hrest : NoDigit rest) :
    parse fuel (print v ++ rest) = some (v, rest) := by
  obtain ⟨fuel, rfl⟩ : ∃ n, fuel = n + 1 := by
    refine ⟨fuel - 1, ?_⟩
    have hpos : 1 ≤ fuelFor v := by
      rcases v with - | - | - | - | ⟨_ | _⟩ | ⟨_ | ⟨⟨_, _⟩, _⟩⟩ <;> simp [fuelFor]
    omega
  match v with
  | .null => rfl
  | .bool true => rfl
  | .bool false => rfl
  | .number (.int n) => exact parse_print_int n hrest
  | .number (.float bits) => cases hv
  | .string str =>
    rw [print, List.cons_append, parse, parseString_print, Option.map_some, String.ofList_toList]
  | .array [] => rfl
  | .array (v :: vs) =>
    simp only [Json.printable, Json.itemsPrintable, Bool.and_eq_true] at hv
    simp only [fuelFor] at hfuel
    obtain ⟨c, cs, hcs, hc⟩ := print_eq_cons v
    have hfirst : parse fuel (print v ++ (printItems vs ++ rest)) = _ :=
      parse_print v hv.2.1 (by omega) (noDigit_printItems vs rest)
    rw [print, List.cons_append, List.append_assoc, hcs, List.cons_append, parse]
    · rw [← List.cons_append, ← hcs, hfirst, Option.bind_some,
        parseItems_print vs hv.2.2 (by omega)]
      rfl
    · rintro rest' heq
      rw [(List.cons.inj heq).1] at hc
      cases hc
  | .object [] => rfl
  | .object ((k, v) :: fs) =>
    simp only [Json.printable, Json.fieldsPrintable, Bool.and_eq_true] at hv
    simp only [fuelFor] at hfuel
    obtain ⟨fuel, rfl⟩ : ∃ n, fuel = n + 1 := ⟨fuel - 1, by omega⟩
    have hfirst : parse fuel (print v ++ (printFields fs ++ rest)) = _ :=
      parse_print v hv.2.1 (by omega) (noDigit_printFields fs rest)
    have hfields : parseFields (fuel + 1) (printFields fs ++ rest) = _ :=
      parseFields_print fs hv.2.2 (by omega)
    simp only [print, List.cons_append, List.append_assoc]
    rw [parse, parseField_of_parse hfirst, Option.bind_some, hfields]
    · rfl
    · rintro rest' heq
      cases (List.cons.inj heq).1

theorem parseItems_print (vs : List Json) {depth fuel : ℕ}
    (hv : Json.itemsPrintable vs depth = true) (hfuel : itemsFuel vs ≤ fuel) {rest : List Char} :
    parseItems fuel (printItems vs ++ rest) = some (vs, rest) := by
  match vs with
  | [] => cases fuel <;> rfl
  | v :: vs =>
    simp only [itemsFuel] at hfuel
    simp only [Json.itemsPrintable, Bool.and_eq_true] at hv
    obtain ⟨fuel, rfl⟩ : ∃ n, fuel = n + 1 := ⟨fuel - 1, by omega⟩
    rw [printItems, List.cons_append, List.append_assoc, parseItems,
      parse_print v hv.1 (by omega) (noDigit_printItems vs rest), Option.bind_some,
      parseItems_print vs hv.2 (by omega)]
    rfl

theorem parseFields_print (fs : List (String × Json)) {depth fuel : ℕ}
    (hv : Json.fieldsPrintable fs depth = true) (hfuel : fieldsFuel fs ≤ fuel) {rest : List Char} :
    parseFields fuel (printFields fs ++ rest) = some (fs, rest) := by
  match fs with
  | [] => cases fuel <;> rfl
  | (k, v) :: fs =>
    simp only [fieldsFuel] at hfuel
    simp only [Json.fieldsPrintable, Bool.and_eq_true] at hv
    obtain ⟨fuel, rfl⟩ : ∃ n, fuel = n + 2 := ⟨fuel - 2, by omega⟩
    have hfirst : parse fuel (print v ++ (printFields fs ++ rest)) = _ :=
      parse_print v hv.1 (by omega) (noDigit_printFields fs rest)
    have hfields : parseFields (fuel + 1) (printFields fs ++ rest) = _ :=
      parseFields_print fs hv.2 (by omega)
    simp only [printFields, List.cons_append, List.append_assoc]
    rw [parseFields, parseField_of_parse hfirst, Option.bind_some, hfields]
    rfl

end

mutual

/-- The fuel a value needs is at most twice the length of its text. -/
theorem fuelFor_le (v : Json) : fuelFor v ≤ 2 * (print v).length := by
  match v with
  | .null | .bool true | .bool false | .array [] | .object [] => simp [fuelFor, print]
  | .string str =>
    simp only [fuelFor, print, List.length_cons]
    omega
  | .number (.int n) =>
    obtain ⟨c, cs, hcs, -⟩ := print_eq_cons (.number (.int n))
    rw [hcs, fuelFor, List.length_cons]
    · omega
    all_goals simp
  | .number (.float n) =>
    obtain ⟨c, cs, hcs, -⟩ := print_eq_cons (.number (.float n))
    rw [hcs, fuelFor, List.length_cons]
    · omega
    all_goals simp
  | .array (v :: vs) =>
    have hv := fuelFor_le v
    have hvs := itemsFuel_le vs
    simp only [fuelFor, print, List.length_cons, List.length_append]
    omega
  | .object ((k, v) :: fs) =>
    have hv := fuelFor_le v
    have hfs := fieldsFuel_le fs
    simp only [fuelFor, print, List.length_cons, List.length_append]
    omega

theorem itemsFuel_le (vs : List Json) : itemsFuel vs ≤ 2 * (printItems vs).length := by
  match vs with
  | [] => simp [itemsFuel, printItems]
  | v :: vs =>
    have hv := fuelFor_le v
    have hvs := itemsFuel_le vs
    simp only [itemsFuel, printItems, List.length_cons, List.length_append]
    omega

theorem fieldsFuel_le (fs : List (String × Json)) :
    fieldsFuel fs ≤ 2 * (printFields fs).length := by
  match fs with
  | [] => simp [fieldsFuel, printFields]
  | (k, v) :: fs =>
    have hv := fuelFor_le v
    have hfs := fieldsFuel_le fs
    simp only [fieldsFuel, printFields, List.length_cons, List.length_append]
    omega

end

/-! ### Base64 -/

def base64Char (n : ℕ) : Char :=
  if n < 26 then Char.ofNat (65 + n) else if n < 52 then Char.ofNat (71 + n)
  else if n < 62 then Char.ofNat (n - 4) else if n = 62 then '+' else '/'

def base64Val (c : Char) : Option ℕ :=
  if 'A' ≤ c ∧ c ≤ 'Z' then some (c.toNat - 65) else if 'a' ≤ c ∧ c ≤ 'z' then some (c.toNat - 71)
  else if '0' ≤ c ∧ c ≤ '9' then some (c.toNat + 4) else if c = '+' then some 62
  else if c = '/' then some 63 else none

/-- Three bytes are four characters; the last group is padded. -/
def encodeBytes : List UInt8 → List Char
  | a :: b :: c :: rest =>
    let n := a.toNat * 65536 + b.toNat * 256 + c.toNat
    base64Char (n / 262144) :: base64Char (n / 4096 % 64) :: base64Char (n / 64 % 64) ::
      base64Char (n % 64) :: encodeBytes rest
  | [a, b] =>
    let n := a.toNat * 1024 + b.toNat * 4
    [base64Char (n / 4096), base64Char (n / 64 % 64), base64Char (n % 64), '=']
  | [a] =>
    let n := a.toNat * 16
    [base64Char (n / 64), base64Char (n % 64), '=', '=']
  | [] => []

/-- The bytes of a padded text; the bits that are left over have to be zero. -/
def decodeBytes : List Char → Option (List UInt8)
  | [] => some []
  | [a, b, '=', '='] => do
    let n := (← base64Val a) * 64 + (← base64Val b)
    if n % 16 = 0 then some [.ofNat (n / 16)] else none
  | [a, b, c, '='] => do
    let n := ((← base64Val a) * 64 + (← base64Val b)) * 64 + (← base64Val c)
    if n % 4 = 0 then some [.ofNat (n / 1024), .ofNat (n / 4 % 256)] else none
  | a :: b :: c :: d :: rest => do
    let n := (((← base64Val a) * 64 + (← base64Val b)) * 64 + (← base64Val c)) * 64 +
      (← base64Val d)
    let bytes ← decodeBytes rest
    some (.ofNat (n / 65536) :: .ofNat (n / 256 % 256) :: .ofNat (n % 256) :: bytes)
  | _ => none

theorem base64Val_char : ∀ n < 64, base64Val (base64Char n) = some n ∧ base64Char n ≠ '=' := by
  decide

theorem byte_of_eq {a : UInt8} {n : ℕ} (h : n = a.toNat) : UInt8.ofNat n = a := by
  rw [h, UInt8.ofNat_toNat]

theorem decodeBytes_encode (bs : List UInt8) : decodeBytes (encodeBytes bs) = some bs := by
  induction bs using encodeBytes.induct with
  | case1 a b c rest ih =>
    have ha := a.toNat_lt
    have hb := b.toNat_lt
    have hc := c.toNat_lt
    rw [encodeBytes]
    generalize hn : a.toNat * 65536 + b.toNat * 256 + c.toNat = n
    obtain ⟨h₁, -⟩ := base64Val_char (n / 262144) (by omega)
    obtain ⟨h₂, -⟩ := base64Val_char (n / 4096 % 64) (by omega)
    obtain ⟨h₃, hne₃⟩ := base64Val_char (n / 64 % 64) (by omega)
    obtain ⟨h₄, hne₄⟩ := base64Val_char (n % 64) (by omega)
    have hn' : ((n / 262144 * 64 + n / 4096 % 64) * 64 + n / 64 % 64) * 64 + n % 64 = n := by omega
    rw [decodeBytes, h₁, h₂, h₃, h₄, ih]
    · simp only [Option.bind_eq_bind, Option.bind_some, hn']
      rw [byte_of_eq (show n / 65536 = a.toNat by omega),
        byte_of_eq (show n / 256 % 256 = b.toNat by omega),
        byte_of_eq (show n % 256 = c.toNat by omega)]
    · exact fun heq _ _ ↦ hne₃ heq
    · exact fun heq _ ↦ hne₄ heq
  | case2 a b =>
    have ha := a.toNat_lt
    have hb := b.toNat_lt
    rw [encodeBytes]
    generalize hn : a.toNat * 1024 + b.toNat * 4 = n
    obtain ⟨h₁, -⟩ := base64Val_char (n / 4096) (by omega)
    obtain ⟨h₂, -⟩ := base64Val_char (n / 64 % 64) (by omega)
    obtain ⟨h₃, hne₃⟩ := base64Val_char (n % 64) (by omega)
    have hn' : (n / 4096 * 64 + n / 64 % 64) * 64 + n % 64 = n := by omega
    rw [decodeBytes, h₁, h₂, h₃]
    · simp only [Option.bind_eq_bind, Option.bind_some, hn']
      rw [if_pos (by omega), byte_of_eq (show n / 1024 = a.toNat by omega),
        byte_of_eq (show n / 4 % 256 = b.toNat by omega)]
    · exact hne₃
  | case3 a =>
    have ha := a.toNat_lt
    rw [encodeBytes]
    generalize hn : a.toNat * 16 = n
    obtain ⟨h₁, -⟩ := base64Val_char (n / 64) (by omega)
    obtain ⟨h₂, -⟩ := base64Val_char (n % 64) (by omega)
    have hn' : n / 64 * 64 + n % 64 = n := by omega
    rw [decodeBytes, h₁, h₂]
    simp only [Option.bind_eq_bind, Option.bind_some, hn']
    rw [if_pos (by omega), byte_of_eq (show n / 16 = a.toNat by omega)]
  | case4 => rfl

/-- What is read as a letter is the letter that is written. -/
theorem base64Char_val {c : Char} {n : ℕ} (h : base64Val c = some n) :
    n < 64 ∧ base64Char n = c := by
  unfold base64Val at h
  split at h
  · rename_i hc
    obtain rfl := Option.some.inj h
    have hlow : 65 ≤ c.toNat := hc.1
    have hhigh : c.toNat ≤ 90 := hc.2
    rw [base64Char, if_pos (by omega), Nat.add_sub_cancel' hlow, Char.ofNat_toNat]
    exact ⟨by omega, rfl⟩
  split at h
  · rename_i hc
    obtain rfl := Option.some.inj h
    have hlow : 97 ≤ c.toNat := hc.1
    have hhigh : c.toNat ≤ 122 := hc.2
    rw [base64Char, if_neg (by omega), if_pos (by omega),
      show 71 + (c.toNat - 71) = c.toNat by omega, Char.ofNat_toNat]
    exact ⟨by omega, rfl⟩
  split at h
  · rename_i hc
    obtain rfl := Option.some.inj h
    have hlow : 48 ≤ c.toNat := hc.1
    have hhigh : c.toNat ≤ 57 := hc.2
    rw [base64Char, if_neg (by omega), if_neg (by omega), if_pos (by omega), Nat.add_sub_cancel,
      Char.ofNat_toNat]
    exact ⟨by omega, rfl⟩
  split at h
  · rename_i hc
    obtain rfl := Option.some.inj h
    exact ⟨by omega, hc ▸ rfl⟩
  split at h
  · rename_i hc
    obtain rfl := Option.some.inj h
    exact ⟨by omega, hc ▸ rfl⟩
  · cases h

theorem toNat_byte {n : ℕ} (h : n < 256) : (UInt8.ofNat n).toNat = n :=
  UInt8.toNat_ofNat_of_lt' h

theorem encodeBytes_decode {cs : List Char} {bs : List UInt8} (h : decodeBytes cs = some bs) :
    encodeBytes bs = cs := by
  induction cs using decodeBytes.induct generalizing bs with
  | case1 =>
    cases h
    rfl
  | case2 a b =>
    simp only [decodeBytes, Option.bind_eq_bind, Option.bind_eq_some_iff] at h
    obtain ⟨x, hx, y, hy, h⟩ := h
    obtain ⟨hx64, rfl⟩ := base64Char_val hx
    obtain ⟨hy64, rfl⟩ := base64Char_val hy
    split at h
    · cases h
      rw [encodeBytes, toNat_byte (by omega), show (x * 64 + y) / 16 * 16 / 64 = x by omega,
        show (x * 64 + y) / 16 * 16 % 64 = y by omega]
    · cases h
  | case3 a b c hc =>
    simp only [decodeBytes, Option.bind_eq_bind, Option.bind_eq_some_iff] at h
    obtain ⟨x, hx, y, hy, z, hz, h⟩ := h
    obtain ⟨hx64, rfl⟩ := base64Char_val hx
    obtain ⟨hy64, rfl⟩ := base64Char_val hy
    obtain ⟨hz64, rfl⟩ := base64Char_val hz
    split at h
    · cases h
      generalize hn : (x * 64 + y) * 64 + z = n at *
      have hsum : n / 1024 * 1024 + n / 4 % 256 * 4 = n := by omega
      rw [encodeBytes, toNat_byte (by omega), toNat_byte (by omega), hsum,
        show n / 4096 = x by omega, show n / 64 % 64 = y by omega, show n % 64 = z by omega]
    · cases h
  | case4 a b c d rest h₁ h₂ ih =>
    rw [decodeBytes] at h
    · simp only [Option.bind_eq_bind, Option.bind_eq_some_iff] at h
      obtain ⟨x, hx, y, hy, z, hz, u, hu, bytes, hbytes, h⟩ := h
      obtain ⟨hx64, rfl⟩ := base64Char_val hx
      obtain ⟨hy64, rfl⟩ := base64Char_val hy
      obtain ⟨hz64, rfl⟩ := base64Char_val hz
      obtain ⟨hu64, rfl⟩ := base64Char_val hu
      cases h
      generalize hn : ((x * 64 + y) * 64 + z) * 64 + u = n at *
      have hsum : n / 65536 * 65536 + n / 256 % 256 * 256 + n % 256 = n := by omega
      rw [encodeBytes, toNat_byte (by omega), toNat_byte (by omega), toNat_byte (by omega), hsum,
        ih hbytes, show n / 262144 = x by omega, show n / 4096 % 64 = y by omega,
        show n / 64 % 64 = z by omega, show n % 64 = u by omega]
    · exact h₁
    · exact h₂
  | case5 cs h₁ h₂ h₃ h₄ =>
    rw [decodeBytes] at h
    · cases h
    · exact h₁
    · exact h₂
    · exact h₃
    · exact h₄

/-! ### The instance -/

/-- The text of a value. -/
def toText (v : Json) : String := String.ofList (print v)

/-- The value a whole text stands for. -/
def ofText (s : String) : Except String Json :=
  match parse (2 * s.toList.length) s.toList with
  | some (v, []) => .ok v
  | _ => .error "expected value"

def encodeText (s : String) : String := String.ofList (encodeBytes s.toByteArray.data.toList)

def decodeText (s : String) : Except String String :=
  match (decodeBytes s.toList).bind fun bs ↦ String.fromUTF8? ⟨bs.toArray⟩ with
  | some s => .ok s
  | none => .error "Invalid byte"

theorem ofText_toText {v : Json} (hv : v.printable Json.depthLimit = true) :
    ofText (toText v) = .ok v := by
  have hnil : NoDigit [] := by rintro c ⟨⟩
  have hparse := parse_print v hv (fuelFor_le v) hnil
  rw [List.append_nil] at hparse
  rw [ofText, toText, String.toList_ofList, hparse]

theorem decodeText_encode (s : String) : decodeText (encodeText s) = .ok s := by
  have hutf : String.fromUTF8? s.toByteArray = some s := dif_pos s.isValidUTF8
  rw [decodeText, encodeText, String.toList_ofList, decodeBytes_encode, Option.bind_some,
    Array.toArray_toList, hutf]

/-- JSON and base64 as the libraries write them. -/
@[reducible] def jsonText : SerdeJson where
  toString := toText
  fromStr := ofText
  base64Encode := encodeText
  base64Decode := decodeText
  fromStr_toString _ hv := ofText_toText hv
  toString_null := by decide
  toString_ne_empty v h := by
    obtain ⟨c, cs, hcs, -⟩ := print_eq_cons v
    rw [toText, hcs] at h
    exact absurd (congrArg String.toList h) (by simp)
  head_toString v h := by
    obtain ⟨c, cs, hcs, hc⟩ := print_eq_cons v
    rw [toText, hcs] at h
    obtain rfl : c = '_' := by simpa using h
    cases hc
  base64Decode_encode := decodeText_encode

end Dbos.JsonText

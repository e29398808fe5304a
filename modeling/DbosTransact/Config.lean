import DbosTransact.Foundation.Pattern

/-!
# Dialects and the masking of passwords

The part of `config.rs` that looks at a connection string: `detect_dialect` tells which database it
is for, and `mask_password` hides its password before it is logged. Both treat the string in two
ways: as a URL, if there is a scheme or a `://` in it, and otherwise as the `key=value` settings of
`libpq`.

The two regular expressions of `mask_password` are patterns of `Foundation/Pattern`. Their classes
are those of the `regex` crate with Unicode: `\s` is the property White_Space, and without regard to
case an `s` is also the long one, U+017F.
-/

namespace Dbos

open Pattern

/-- The SQL dialect of the system database. -/
inductive Dialect
  | postgres
  | cockroach
  | sqlite
  deriving DecidableEq, Repr

/-- `char::is_whitespace`: the property White_Space of Unicode. -/
def isWhitespace (c : Char) : Bool :=
  (0x09 ≤ c.toNat && c.toNat ≤ 0x0D) || c.toNat = 0x20 || c.toNat = 0x85 || c.toNat = 0xA0 ||
    c.toNat = 0x1680 || (0x2000 ≤ c.toNat && c.toNat ≤ 0x200A) || c.toNat = 0x2028 ||
    c.toNat = 0x2029 || c.toNat = 0x202F || c.toNat = 0x205F || c.toNat = 0x3000

/-- `str::trim` -/
def trim (s : List Char) : List Char :=
  ((s.dropWhile isWhitespace).reverse.dropWhile isWhitespace).reverse

/-- The prefixes of a `key=value` connection string. -/
def pgKvPrefixes : List String :=
  ["user=", "host=", "hostaddr=", "port=", "dbname=", "database=", "password=", "sslmode=",
    "application_name=", "options="]

/-- The text before the first `:`, if it is a valid scheme. -/
def extractScheme (s : String) : Option String :=
  let scheme := s.toList.takeWhile (· ≠ ':')
  if ':' ∈ s.toList then
    match scheme with
    | [] => none
    | first :: rest =>
      if !first.isAlpha then none
      else if !rest.all fun c ↦ c.isAlphanum || c = '+' || c = '-' || c = '.' then none
      else some (String.ofList (scheme.map Char.toLower))
  else none

/-- The dialect of a database URL. Only ASCII letters are put in lower case: no other character has
a lower-case form that could take part in one of the prefixes. -/
def detectDialect (rawUrl : String) : Except String Dialect :=
  if rawUrl.isEmpty then .error "database URL is empty"
  else
    let lowerTrim := (trim rawUrl.toList).map Char.toLower
    if pgKvPrefixes.any fun p ↦ p.toList.isPrefixOf lowerTrim then .ok .postgres
    else
      match extractScheme rawUrl with
      | some "sqlite" | some "sqlite3" => .ok .sqlite
      | some "postgres" | some "postgresql" => .ok .postgres
      | some other =>
        .error s!"unsupported database scheme \"{other}\" (want sqlite: or postgres:)"
      | none => .error s!"database URL has no scheme: \"{rawUrl}\""

/-! ### `mask_password` -/

/-- `[^/?#@:]` -/
def isUserChar (c : Char) : Bool := !(['/', '?', '#', '@', ':'].contains c)

/-- `[^/?#@]` -/
def isPasswordChar (c : Char) : Bool := !(['/', '?', '#', '@'].contains c)

/-- `(?i)(://[^/?#@:]+:)[^/?#@]*@` -/
def urlRe : List (Piece Char) :=
  [.one (· = ':'), .one (· = '/'), .one (· = '/'), .one isUserChar, .many isUserChar,
    .one (· = ':'), .many isPasswordChar, .one (· = '@')]

/-- Whether a character is this small letter, without regard to case. -/
def folds (letter c : Char) : Bool := c.toLower = letter || (letter = 's' && c = 'ſ')

/-- The key that `KV_RE` looks for. -/
def passwordKey : List Char := ['p', 'a', 's', 's', 'w', 'o', 'r', 'd']

/-- `(?i)password\s*=\s*\S+` -/
def kvRe : List (Piece Char) :=
  passwordKey.map (fun l ↦ .one (folds l)) ++
    [.many isWhitespace, .one (· = '='), .many isWhitespace, .one (!isWhitespace ·),
      .many (!isWhitespace ·)]

/-- `${1}***@`: the first group is what the first six pieces have read. -/
def urlMask (m : List (List Char)) : List Char := (m.take 6).flatten ++ ['*', '*', '*', '@']

/-- `password=***` -/
def kvMask : List Char := passwordKey ++ ['=', '*', '*', '*']

/-- What is taken for the mark of a URL. -/
def schemeMark : List Char := [':', '/', '/']

/-- `mask_password` on the characters of a connection string. -/
def maskChars (conn : List Char) : List Char :=
  if schemeMark <:+: conn then replaceAll urlRe urlMask conn
  else replaceAll kvRe (fun _ ↦ kvMask) conn

/-- Mask the password in a connection string for safe logging. -/
def maskPassword (conn : String) : String := String.ofList (maskChars conn.toList)

end Dbos

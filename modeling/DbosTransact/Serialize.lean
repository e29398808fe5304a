import DbosTransact.Error
import Mathlib.Algebra.Order.Ring.Int
import Mathlib.Data.List.Basic
import Mathlib.Data.List.Infix

/-!
# Payload serialization

Every payload column has a sibling column naming the format its text is in, and decoding dispatches
on that name. This module follows `serialize.rs`: the two writable formats, the read-only
`js_superjson`, the best-effort reading of a row with no recorded format, the envelope of workflow
inputs, and the envelope of errors.

The JSON library itself is not part of the repository. What the code relies on is the class
`SerdeJson`: a printer and a parser, with the law that printing and then parsing gives a value back
that has no doubles and is not nested too deeply (`Json.printable`). Parsing yields the tree as
written; `Json.norm` is the step to `serde_json::Value`, whose objects are sorted maps in which the
last of several equal keys wins, and `Json.structFields` the step to a struct with a derived
`Deserialize`. The derived implementations for a payload type are a `Serde` instance.
-/

namespace Dbos

/-- A JSON number: an integer, or the bits of a double. -/
inductive JsonNumber
  | int (n : ℤ)
  | float (bits : ℕ)
  deriving DecidableEq, Repr

/-- A JSON tree. -/
inductive Json
  | null
  | bool (b : Bool)
  | number (n : JsonNumber)
  | string (s : String)
  | array (items : List Json)
  | object (fields : List (String × Json))
  deriving Repr, Inhabited

namespace Json

def isNull : Json → Bool
  | null => true
  | _ => false

/-- Put a field into a sorted map, replacing an equal key. -/
def insertField (k : String) (v : Json) : List (String × Json) → List (String × Json)
  | [] => [(k, v)]
  | (k', v') :: rest =>
    if k = k' then (k, v) :: rest
    else if k < k' then (k, v) :: (k', v') :: rest
    else (k', v') :: insertField k v rest

/-- The first field with this key. -/
def findField (k : String) (fields : List (String × Json)) : Option Json :=
  (fields.find? fun f ↦ f.1 = k).map Prod.snd

mutual

/-- The `serde_json::Value` of a parsed text: every object is a sorted map. -/
def norm : Json → Json
  | array items => array (normItems items)
  | object fields => object (normFields fields [])
  | v => v

def normItems : List Json → List Json
  | [] => []
  | v :: rest => norm v :: normItems rest

def normFields : List (String × Json) → List (String × Json) → List (String × Json)
  | [], acc => acc
  | (k, v) :: rest, acc => normFields rest (insertField k (norm v) acc)

end

mutual

/-- The trees that are parsed back exactly: no doubles, integers that fit 64 bits, and nested less
deeply than the parser's limit. -/
def printable : Json → ℕ → Bool
  | number (.int n), _ => -2 ^ 63 ≤ n && n < 2 ^ 64
  | number (.float _), _ => false
  | array items, depth => 0 < depth && itemsPrintable items (depth - 1)
  | object fields, depth => 0 < depth && fieldsPrintable fields (depth - 1)
  | _, _ => true

def itemsPrintable : List Json → ℕ → Bool
  | [], _ => true
  | v :: rest, depth => printable v depth && itemsPrintable rest depth

def fieldsPrintable : List (String × Json) → ℕ → Bool
  | [], _ => true
  | (_, v) :: rest, depth => printable v depth && fieldsPrintable rest depth

end

/-- The recursion limit of the parser: a value may be nested this deeply. -/
def depthLimit : ℕ := 127

/-- `Value::get` with a string: a field of an object. -/
def get (k : String) : Json → Option Json
  | object fields => findField k fields
  | _ => none

/-- What a derived `Deserialize` finds for the fields of a struct: by name in an object that has
none of them twice, or in their order in an array that has no more elements than there are fields.
-/
def structFields (names : List String) : Json → Option (List (Option Json))
  | object fields =>
    if names.all fun name ↦ (fields.filter fun f ↦ f.1 = name).length ≤ 1 then
      some (names.map fun name ↦ findField name fields)
    else none
  | array items =>
    if items.length ≤ names.length then some ((List.range names.length).map fun i ↦ items[i]?)
    else none
  | _ => none

end Json

/-- The JSON and base64 libraries, with what the code relies on. -/
class SerdeJson where
  toString : Json → String
  fromStr : String → Except String Json
  base64Encode : String → String
  base64Decode : String → Except String String
  fromStr_toString : ∀ v : Json, v.printable Json.depthLimit = true → fromStr (toString v) = .ok v
  toString_null : toString .null = "null"
  toString_ne_empty : ∀ v, toString v ≠ ""
  /-- No JSON text is a bare word that begins with an underscore. -/
  head_toString : ∀ v, (toString v).toList.head? ≠ some '_'
  base64Decode_encode : ∀ s, base64Decode (base64Encode s) = .ok s

/-- A payload type: `serde_json::to_value` and `serde_json::from_value` at it. -/
class Serde (R : Type) where
  toValue : R → Except String Json
  fromValue : Json → Except String R

namespace SerdeJson

variable [SerdeJson]

/-- `serde_json::from_str::<Value>`. -/
def parseValue (s : String) : Except DbosError Json :=
  match fromStr s with
  | .ok v => .ok v.norm
  | .error e => .error (.ofSerde e)

end SerdeJson

/-- Marker stored in `DBOS_JSON` columns for a null value. -/
def nilMarker : String := "__DBOS_NIL"
def portableName : String := "portable_json"
def dbosJsonName : String := "DBOS_JSON"
def superjsonName : String := "js_superjson"
def pyPickleName : String := "py_pickle"

/-- A serialization format this crate can write. -/
inductive Format
  | portable
  | dbosJson
  deriving DecidableEq, Repr

namespace Format

def name : Format → String
  | portable => portableName
  | dbosJson => dbosJsonName

/-- The writable format matching a stored name; only `DBOS_JSON` maps to the base64 format. -/
def fromName (name : Option String) : Format :=
  if name = some dbosJsonName then dbosJson else portable

end Format

/-! ### Values -/

section

variable [SerdeJson]

def encodeJsonValue (v : Json) : Format → String
  | .portable => if v.isNull then "null" else SerdeJson.toString v
  | .dbosJson => if v.isNull then nilMarker else SerdeJson.base64Encode (SerdeJson.toString v)

/-- Encode a value in the given format. -/
def encodeValue {R : Type} [Serde R] (value : R) (fmt : Format) : Except DbosError String :=
  match Serde.toValue value with
  | .ok v => .ok (encodeJsonValue v fmt)
  | .error e => .error (.ofSerde e)

def decodeBase64Json (s : String) : Except DbosError Json :=
  match SerdeJson.base64Decode s with
  | .ok text => SerdeJson.parseValue text
  | .error e => .error (.ofBase64 e)

end

/-! ### `js_superjson` -/

def superjsonMarker : String := "\"__dbos_serializer\":\"superjson\""

/-- The digits of a Rust integer literal. -/
def parseDigits (s : List Char) : Option ℕ :=
  if s.isEmpty || s.any fun c ↦ !c.isDigit then none
  else some (s.foldl (fun n c ↦ 10 * n + (c.toNat - '0'.toNat)) 0)

/-- `str::parse::<i64>`. -/
def parseI64 (s : String) : Option ℤ :=
  let parsed : Option ℤ := match s.toList with
    | '-' :: ds => (parseDigits ds).map fun n ↦ -n
    | '+' :: ds => (parseDigits ds).map fun n ↦ n
    | ds => (parseDigits ds).map fun n ↦ n
  parsed.filter fun n ↦ -2 ^ 63 ≤ n && n < 2 ^ 63

/-- `str::parse::<u64>`, which is also `str::parse::<usize>`. -/
def parseU64 (s : String) : Option ℕ :=
  let parsed := match s.toList with
    | '+' :: ds => parseDigits ds
    | ds => parseDigits ds
  parsed.filter fun n ↦ n < 2 ^ 64

/-- A number from the text of a BigInt, when it fits. -/
def bigIntNumber (s : String) : Option Json :=
  match parseI64 s with
  | some n => some (.number (.int n))
  | none => (parseU64 s).map fun n ↦ .number (.int n)

/-- The object a list of `[key, value]` pairs is lowered to, `none` if it is not such a list. -/
def mapOfPairs [SerdeJson] : List Json → List (String × Json) → Option (List (String × Json))
  | [], acc => some acc
  | .array [.string k, v] :: rest, acc => mapOfPairs rest (Json.insertField k v acc)
  | .array [k, v] :: rest, acc => mapOfPairs rest (Json.insertField (SerdeJson.toString k) v acc)
  | _ :: _, _ => none

def applySuperjsonTag [SerdeJson] (json : Json) (tag : String) : Json :=
  match tag, json with
  | "bigint", .string s => (bigIntNumber s).getD json
  | "map", .array pairs => ((mapOfPairs pairs []).map Json.object).getD json
  | _, _ => json

/-- Change the node a path segment leads to, if there is one (`navigate_mut`). -/
def modifyAt (key : String) (f : Json → Json) : Json → Json
  | .object fields => .object (fields.map fun e ↦ if e.1 = key then (e.1, f e.2) else e)
  | .array items =>
    match parseU64 key with
    | some i => .array (items.modify i f)
    | none => .array items
  | v => v

mutual

/-- Walk the annotation tree of an envelope, transforming the nodes it names. -/
def applySuperjsonMeta [SerdeJson] : Json → Json → Json
  | .string tag, json => applySuperjsonTag json tag
  | .array parts, json => applySuperjsonCompound parts json
  | .object children, json => applySuperjsonChildren children json
  | _, json => json

/-- A compound annotation `[type, sub-annotations]`. -/
def applySuperjsonCompound [SerdeJson] : List Json → Json → Json
  | [.string tag], json => applySuperjsonTag json tag
  | .string tag :: sub :: _, json => applySuperjsonTag (applySuperjsonMeta sub json) tag
  | _, json => json

def applySuperjsonChildren [SerdeJson] : List (String × Json) → Json → Json
  | [], json => json
  | (key, child) :: rest, json =>
    applySuperjsonChildren rest (modifyAt key (applySuperjsonMeta child) json)

end

mutual

/-- Revive the legacy type wrappers `{dbos_type, dbos_data}`. -/
def applyLegacyRevival : Json → Json
  | .object fields =>
    match Json.findField "dbos_type" fields, Json.findField "dbos_data" fields with
    | some (.string "dbos_Date"), some data => data
    | some (.string "dbos_BigInt"), some (.string s) =>
      match bigIntNumber s with
      | some n => n
      | none => .object (applyLegacyRevivalFields fields)
    | _, _ => .object (applyLegacyRevivalFields fields)
  | .array items => .array (applyLegacyRevivalItems items)
  | v => v

def applyLegacyRevivalFields : List (String × Json) → List (String × Json)
  | [] => []
  | (k, v) :: rest => (k, applyLegacyRevival v) :: applyLegacyRevivalFields rest

def applyLegacyRevivalItems : List Json → List Json
  | [] => []
  | v :: rest => applyLegacyRevival v :: applyLegacyRevivalItems rest

end

/-- A character under the `Debug` format of a string. -/
def debugChar (c : Char) : String :=
  if c = '"' then "\\\"" else if c = '\\' then "\\\\" else if c = '\t' then "\\t"
  else if c = '\n' then "\\n" else if c = '\r' then "\\r" else if c.toNat = 0 then "\\0"
  else if c.toNat < 32 ∨ c.toNat = 127 then
    "\\u\x7b" ++ String.ofList (Nat.toDigits 16 c.toNat) ++ "\x7d"
  else c.toString

/-- A string as `{:?}` shows it. -/
def debugText (s : String) : String := "\"" ++ String.join (s.toList.map debugChar) ++ "\""

section

variable [SerdeJson]

/-- Decode a payload of the TypeScript SDK into a plain JSON value. -/
def decodeSuperjson (data : String) : Except DbosError Json :=
  match SerdeJson.parseValue data with
  | .error e => .error e
  | .ok outer =>
    if superjsonMarker.toList <:+: data.toList then
      match outer with
      | .object fields =>
        let json := (Json.findField "json" fields).getD .null
        match (Json.findField "meta" fields).bind (Json.get "values") with
        | some values => .ok (applySuperjsonMeta values json)
        | none => .ok json
      | _ => .error (.other "invalid js_superjson payload: not an object")
    else
      .ok (applyLegacyRevival outer)

/-- Decode a stored text under the recorded format name. -/
def decodeToJson (data : Option String) (format : Option String) : Except DbosError Json :=
  match format with
  | some name =>
    if name = portableName then
      match data with
      | none => .ok .null
      | some s => if s = "null" then .ok .null else SerdeJson.parseValue s
    else if name = dbosJsonName ∨ name = "" then
      match data with
      | none => .ok .null
      | some s => if s = nilMarker then .ok .null else decodeBase64Json s
    else if name = superjsonName then
      match data with
      | none => .ok .null
      | some s => decodeSuperjson s
    else if name = pyPickleName then
      .error (.other ("py_pickle is not portable; re-serialize such rows to portable_json on " ++
        "the Python side"))
    else
      .error (.other s!"unknown serialization format {debugText name}")
  | none =>
    match data with
    | none => .ok .null
    | some s =>
      if s = "null" ∨ s = nilMarker then .ok .null
      else
        match decodeSuperjson s with
        | .ok v => .ok v
        | .error _ => decodeBase64Json s

/-- `serde_json::from_value` with the error in crate form. -/
def fromValue {R : Type} [Serde R] (v : Json) : Except DbosError R :=
  match Serde.fromValue v with
  | .ok r => .ok r
  | .error e => .error (.ofSerde e)

/-- Decode a stored value. -/
def decodeValue (R : Type) [Serde R] (data : Option String) (format : Option String) :
    Except DbosError R :=
  match decodeToJson data format with
  | .ok v => fromValue v
  | .error e => .error e

/-! ### Workflow inputs -/

/-- Encode a workflow input, in portable mode inside the envelope of positional arguments. -/
def encodeInput {P : Type} [Serde P] (value : P) (fmt : Format) : Except DbosError String :=
  match fmt with
  | .portable =>
    match Serde.toValue value with
    | .ok v =>
      .ok (SerdeJson.toString (.object [("positionalArgs", .array [v]), ("namedArgs", .object [])]))
    | .error e => .error (.ofSerde e)
  | .dbosJson => encodeValue value fmt

/-- The first positional argument of an envelope (`from_str::<PortableArgs>`). Both fields may be
absent, and either has to be of its type when it is there. -/
def positionalArg (envelope : Json) : Except DbosError Json :=
  match envelope.structFields ["positionalArgs", "namedArgs"] with
  | some [positionalArgs, namedArgs] =>
    match positionalArgs.getD (.array []), namedArgs.getD (.object []) with
    | .array items, .object _ => .ok (items.head?.getD .null).norm
    | _, _ => .error (.ofSerde "invalid type")
  | _ => .error (.ofSerde "invalid type")

/-- Decode a workflow input. -/
def decodeInput (P : Type) [Serde P] (data : Option String) (format : Option String) :
    Except DbosError P :=
  if format = some portableName then
    match data with
    | none => fromValue .null
    | some s =>
      if s = "null" then fromValue .null
      else
        match SerdeJson.fromStr s with
        | .error e => .error (.ofSerde e)
        | .ok envelope =>
          match positionalArg envelope with
          | .ok v => fromValue v
          | .error e => .error e
  else if format = some superjsonName then
    match data with
    | none => fromValue .null
    | some s =>
      match decodeSuperjson s with
      | .error e => .error e
      | .ok (.array items) => fromValue (items.head?.getD .null)
      | .ok other => fromValue other
  else
    decodeValue P data format

end

/-! ### Errors -/

/-- The cross-language error envelope. -/
structure PortableWorkflowError where
  name : String
  message : String
  code : Option Json
  data : Option Json

/-- A workflow error decoded from storage. -/
inductive DecodedError
  | plain (s : String)
  | portable (pe : PortableWorkflowError)

namespace PortableWorkflowError

/-- The envelope as written: absent fields are left out. -/
def toJson (pe : PortableWorkflowError) : Json :=
  .object ([("name", .string pe.name), ("message", .string pe.message)] ++
    (pe.code.map fun v ↦ ("code", v)).toList ++ (pe.data.map fun v ↦ ("data", v)).toList)

/-- An optional field read back: absent and `null` both give `None`. -/
def optionalField (field : Option Json) : Option Json :=
  (field.map Json.norm).filter fun v ↦ !v.isNull

/-- The envelope read back. -/
def ofJson (v : Json) : Option PortableWorkflowError :=
  match v.structFields ["name", "message", "code", "data"] with
  | some [some (.string name), some (.string message), code, data] =>
    some ⟨name, message, optionalField code, optionalField data⟩
  | _ => none

end PortableWorkflowError

section

variable [SerdeJson]

/-- Serialize a workflow error for storage: the envelope in portable mode, the plain message
otherwise. -/
def serializeWorkflowError (message : String) (portable : Option PortableWorkflowError)
    (fmt : Format) : String :=
  if fmt ≠ .portable then message
  else
    SerdeJson.toString (portable.getD ⟨"Portable Error", message, none, none⟩).toJson

/-- Deserialize a stored workflow error. -/
def deserializeWorkflowError (errStr : Option String) (format : Option String) :
    Option DecodedError :=
  match errStr with
  | none => none
  | some s =>
    if s.isEmpty then none
    else if format ≠ some portableName then some (.plain s)
    else
      match SerdeJson.fromStr s with
      | .error _ => some (.plain s)
      | .ok v =>
        match PortableWorkflowError.ofJson v with
        | some pe => some (.portable pe)
        | none => some (.plain s)

/-- A portable error written and read back carries its message. -/
theorem deserialize_serialize_portable (message : String) :
    deserializeWorkflowError (some (serializeWorkflowError message none .portable))
      (some portableName) = some (.portable ⟨"Portable Error", message, none, none⟩) := by
  have hne := SerdeJson.toString_ne_empty
    (PortableWorkflowError.toJson ⟨"Portable Error", message, none, none⟩)
  have hparse := SerdeJson.fromStr_toString
    (PortableWorkflowError.toJson ⟨"Portable Error", message, none, none⟩) rfl
  rw [serializeWorkflowError, deserializeWorkflowError]
  simp only [ne_eq, not_true_eq_false, if_false, Option.getD_none, String.isEmpty_iff, hne, hparse]
  rfl

end

end Dbos

import DbosTransact.JsonText
import DbosTransact.Serialize.SortedMap

/-!
# JavaScript values and their SuperJSON form

The values a workflow of the TypeScript SDK can have as payloads, what `superjson.serialize` makes
of them, and what each is meant to become for a reader without JavaScript's types (`JsValue.lower`).
The library is not part of the repository; this is its documented output.

SuperJSON writes a value as JSON (`JsValue.json`) with annotations next to it. A value JSON has no
type for is annotated with the name of its type (`JsValue.typeName`). An annotation of a value
inside an array or an object is not nested the way the value is: the path to it is written into one
key, its components joined by dots, with dots and backslashes inside a component escaped
(`JsValue.annotations`). Only a typed container begins a new level: its own annotations are in a
list with its type name (`typed`).
-/

namespace Dbos

/-- A JavaScript value. A date is its ISO string; the keys of a map are strings. -/
inductive JsValue
  | null
  | undefined
  | bool (b : Bool)
  | number (n : JsonNumber)
  | string (s : String)
  | date (iso : String)
  | bigint (n : ℤ)
  | array (items : List JsValue)
  | set (items : List JsValue)
  | object (fields : List (String × JsValue))
  | map (entries : List (String × JsValue))

/-- The decimal text of an index. -/
def indexText (i : ℕ) : String := String.ofList (JsonText.printNat i)

/-- The decimal text of a `BigInt`. -/
def bigintText (n : ℤ) : String := String.ofList (JsonText.printInt n)

/-- Escape the dots and backslashes of one component of a path. -/
def escapeKey (key : String) : String :=
  String.ofList (key.toList.flatMap fun c ↦ if c = '.' ∨ c = '\\' then ['\\', c] else [c])

/-- The key needs no escaping. -/
def PlainKey (key : String) : Prop := ∀ c ∈ key.toList, c ≠ '.' ∧ c ≠ '\\'

instance (key : String) : Decidable (PlainKey key) := inferInstanceAs (Decidable (∀ _ ∈ _, _))

/-- The annotation of a typed node: its type, and the annotations inside it if there are any. -/
def typed (typeName : String) (inner : List (String × Json)) : Json :=
  .array (.string typeName :: if inner.isEmpty then [] else [.object inner])

/-- The annotations of a child, addressed from its parent: a typed child has one of its own, another
one hands up those inside it under longer paths. -/
def annotate (key : String) (typeName : Option String) (inner : List (String × Json)) :
    List (String × Json) :=
  match typeName with
  | some t => [(escapeKey key, typed t inner)]
  | none => inner.map fun p ↦ (escapeKey key ++ "." ++ p.1, p.2)

namespace JsValue

/-- The type SuperJSON records for a node, when JSON does not have it. -/
def typeName : JsValue → Option String
  | undefined => some "undefined"
  | date _ => some "Date"
  | bigint _ => some "bigint"
  | set _ => some "set"
  | map _ => some "map"
  | _ => none

mutual

/-- The JSON part: a set is an array, a map an array of pairs, a `BigInt` its digits. -/
def json : JsValue → Json
  | null => .null
  | undefined => .null
  | bool b => .bool b
  | number n => .number n
  | string s => .string s
  | date iso => .string iso
  | bigint n => .string (bigintText n)
  | array items => .array (jsonItems items)
  | set items => .array (jsonItems items)
  | object fields => .object (jsonFields fields)
  | map entries => .array (jsonEntries entries)

def jsonItems : List JsValue → List Json
  | [] => []
  | v :: rest => json v :: jsonItems rest

def jsonFields : List (String × JsValue) → List (String × Json)
  | [] => []
  | (k, v) :: rest => (k, json v) :: jsonFields rest

def jsonEntries : List (String × JsValue) → List Json
  | [] => []
  | (k, v) :: rest => .array [.string k, json v] :: jsonEntries rest

end

mutual

/-- The plain JSON value a payload is meant to be read as. -/
def lower : JsValue → Json
  | null => .null
  | undefined => .null
  | bool b => .bool b
  | number n => .number n
  | string s => .string s
  | date iso => .string iso
  | bigint n => .number (.int n)
  | array items => .array (lowerItems items)
  | set items => .array (lowerItems items)
  | object fields => .object (lowerFields fields)
  | map entries => .object (lowerFields entries)

def lowerItems : List JsValue → List Json
  | [] => []
  | v :: rest => lower v :: lowerItems rest

def lowerFields : List (String × JsValue) → List (String × Json)
  | [] => []
  | (k, v) :: rest => (k, lower v) :: lowerFields rest

end

mutual

/-- The annotations inside a value, each with the path to its node. -/
def annotations : JsValue → List (String × Json)
  | array items => annotationsItems 0 items
  | set items => annotationsItems 0 items
  | object fields => annotationsFields fields
  | map entries => annotationsEntries 0 entries
  | _ => []

def annotationsItems : ℕ → List JsValue → List (String × Json)
  | _, [] => []
  | i, v :: rest =>
    annotate (indexText i) v.typeName (annotations v) ++ annotationsItems (i + 1) rest

def annotationsFields : List (String × JsValue) → List (String × Json)
  | [] => []
  | (k, v) :: rest => annotate k v.typeName (annotations v) ++ annotationsFields rest

/-- An entry of a map is an untyped pair, with the value as its second item. -/
def annotationsEntries : ℕ → List (String × JsValue) → List (String × Json)
  | _, [] => []
  | i, (_, v) :: rest =>
    annotate (indexText i) none (annotate (indexText 1) v.typeName (annotations v)) ++
      annotationsEntries (i + 1) rest

end

/-- `meta.values`: the annotation of the root, if there is one. -/
def values (v : JsValue) : Option Json :=
  match v.typeName with
  | some t => some (typed t v.annotations)
  | none => if v.annotations.isEmpty then none else some (.object v.annotations)

/-- The payload the TypeScript SDK stores: the output of `superjson.serialize` and the marker. -/
def superjsonRow (v : JsValue) : Json :=
  .object (("json", v.json) ::
    (v.values.map fun t ↦ ("meta", Json.object [("values", t), ("v", .number (.int 1))])).toList ++
    [("__dbos_serializer", .string "superjson")])

mutual

/-- The value is one a JavaScript program can have, with each `BigInt` in the range of a 64-bit
integer: the keys are distinct and no array is longer than arrays can be. -/
def WellFormed : JsValue → Prop
  | bigint n => -2 ^ 63 ≤ n ∧ n < 2 ^ 64
  | array items => items.length < 2 ^ 32 ∧ WellFormedItems items
  | set items => items.length < 2 ^ 32 ∧ WellFormedItems items
  | object fields => (fields.map Prod.fst).Nodup ∧ WellFormedFields fields
  | map entries => (entries.map Prod.fst).Nodup ∧ WellFormedFields entries
  | _ => True

def WellFormedItems : List JsValue → Prop
  | [] => True
  | v :: rest => WellFormed v ∧ WellFormedItems rest

def WellFormedFields : List (String × JsValue) → Prop
  | [] => True
  | (_, v) :: rest => WellFormed v ∧ WellFormedFields rest

end

/-- The value has no values inside. -/
def isLeaf : JsValue → Bool
  | array _ => false
  | set _ => false
  | object _ => false
  | map _ => false
  | _ => true

section

variable {P : JsValue → Prop} (hleaf : ∀ v, v.isLeaf = true → P v)
variable (harray : ∀ items, (∀ v ∈ items, P v) → P (array items))
variable (hset : ∀ items, (∀ v ∈ items, P v) → P (set items))
variable (hobject : ∀ fields : List (String × JsValue), (∀ e ∈ fields, P e.2) → P (object fields))
variable (hmap : ∀ entries : List (String × JsValue), (∀ e ∈ entries, P e.2) → P (map entries))
include hleaf harray hset hobject hmap

/-- **Induction on values**, the values of fields and entries included. -/
theorem induction (v : JsValue) : P v := by
  have hfields : ∀ {fields : List (String × JsValue)} {e : String × JsValue}, e ∈ fields →
      sizeOf e.2 < sizeOf fields := by
    rintro fields ⟨key, v⟩ he
    have hmem := List.sizeOf_lt_of_mem he
    have hsnd : sizeOf (key, v) = 1 + sizeOf key + sizeOf v := Prod.mk.sizeOf_spec key v
    change sizeOf v < sizeOf fields
    omega
  match v with
  | null | undefined | bool _ | number _ | string _ | date _ | bigint _ => exact hleaf _ rfl
  | array items => exact harray items fun v hv ↦ induction v
  | set items => exact hset items fun v hv ↦ induction v
  | object fields =>
    exact hobject fields fun e he ↦
      have := hfields he
      induction e.2
  | map entries =>
    exact hmap entries fun e he ↦
      have := hfields he
      induction e.2
termination_by sizeOf v

end

/-! ### The parts of a container -/

theorem jsonItems_eq_map (items : List JsValue) : jsonItems items = items.map json := by
  induction items with
  | nil => rfl
  | cons v rest ih => rw [jsonItems, ih, List.map_cons]

theorem jsonFields_eq_map (fields : List (String × JsValue)) :
    jsonFields fields = fields.map fun e ↦ (e.1, e.2.json) := by
  induction fields with
  | nil => rfl
  | cons e rest ih => rw [jsonFields, ih, List.map_cons]

theorem lowerItems_eq_map (items : List JsValue) : lowerItems items = items.map lower := by
  induction items with
  | nil => rfl
  | cons v rest ih => rw [lowerItems, ih, List.map_cons]

theorem lowerFields_eq_map (fields : List (String × JsValue)) :
    lowerFields fields = fields.map fun e ↦ (e.1, e.2.lower) := by
  induction fields with
  | nil => rfl
  | cons e rest ih => rw [lowerFields, ih, List.map_cons]

theorem wellFormedItems_iff (items : List JsValue) :
    WellFormedItems items ↔ ∀ v ∈ items, v.WellFormed := by
  induction items with
  | nil => simp [WellFormedItems]
  | cons v rest ih => simp [WellFormedItems, ih]

theorem wellFormedFields_iff (fields : List (String × JsValue)) :
    WellFormedFields fields ↔ ∀ e ∈ fields, e.2.WellFormed := by
  induction fields with
  | nil => simp [WellFormedFields]
  | cons e rest ih =>
    rw [WellFormedFields, ih, List.forall_mem_cons]

end JsValue

end Dbos
